import HomeScenes.Proofs.Engine.Recording
import HomeScenes.Proofs.Engine.Siblings
import HomeScenes.Proofs.SceneStore

/-!
# Actions of a firing are isolated

Once a manual scene whose actions all control virtual devices has been fired and all that came of it
has run, the journal lists the firing as a success, with one child for each action whose device is
on record. Each child has ended as its own action has to end by itself, whatever the others did and
in whichever order they ran, and the sum on the record of the firing is that of these outcomes.
-/

namespace HomeScenes

namespace Engine

variable {e : Engine} {actions : List Action}

/-- What the actions of a scene come to, each by itself: the device and how the action ends. An
action on a device that is not on record, not even as deleted, comes to nothing. -/
def verdicts (e : Engine) (actions : List Action) : List (Target × Outcome) :=
  actions.filterMap fun a =>
    match a.kind with
    | .control device commands =>
      (e.devices.get? device true).map fun d => (.device d.id d.name, e.verdict device commands)
    | _ => none

theorem plan_verdicts (working : e.outages = {}) (controls : e.Controls actions)
    (lineage : List SceneId) :
    (e.plan lineage actions).map (fun p => (p.2, e.verdict? p.1)) =
      (e.verdicts actions).map fun v => ([v.1], some v.2) := by
  rw [plan, verdicts, List.map_filterMap, List.map_filterMap]
  refine List.filterMap_congr fun a listed => ?_
  obtain ⟨device, commands, kind, -, -⟩ := controls a listed
  simp only [resolveTarget?, readDevice, kind, working]
  cases e.devices.get? device true <;> rfl

end Engine

namespace Juncture

open Engine Journal

variable {capacity : Nat} {first j : Juncture} {calls more : List (Call Ticket)}
  {rs : List (TaskRecord Ticket)} {id : Ticket} {u : EngineTask}

/-- The journal has these records, was in order since a juncture, and had room for all that started
since. -/
structure Kept (capacity : Nat) (first j : Juncture) (calls more : List (Call Ticket))
    (rs : List (TaskRecord Ticket)) : Prop where
  listed : (calls.map Call.entry).Sublist first.engine.entries
  entries : j.engine.entries = first.engine.entries ++ more.map Call.entry
  once : ((births (calls ++ more)).map (·.task)).Nodup
  told : Told capacity (calls ++ more) rs
  room : (births more).length ≤ capacity

/-- All that the journal took down it was told. -/
theorem sublist_since (listed : (calls.map Call.entry).Sublist first.engine.entries)
    (entries : j.engine.entries = first.engine.entries ++ more.map Call.entry) :
    ((calls ++ more).map Call.entry).Sublist j.engine.entries := by
  rw [entries, List.map_append]
  exact listed.append_right _

/-- A journal that was in order since a juncture and had room for all that started since. -/
theorem Sound.exists_kept (sound : j.Sound)
    (listed : (calls.map Call.entry).Sublist first.engine.entries)
    (entries : j.engine.entries = first.engine.entries ++ more.map Call.entry)
    (journal : j.engine.journal = (ofCapacity capacity).play (calls ++ more))
    (room : j.engine.startOrder.length ≤ first.engine.startOrder.length + max capacity 1) :
    ∃ rs, j.engine.journal = listing (max capacity 1) rs ∧
      Kept (max capacity 1) first j calls more rs := by
  have once : ((births (calls ++ more)).map (·.task)).Nodup := by
    have order := sound.startOrder_nodup
    rw [startOrder_eq] at order
    rw [births_tasks]
    exact order.sublist ((sublist_since listed entries).filterMap _)
  obtain ⟨rs, same, told⟩ := exists_told capacity (calls ++ more) once
  refine ⟨rs, journal.trans same, listed, entries, once, told, ?_⟩
  rw [startOrder_eq, entries, List.filterMap_append, List.length_append, startOrder_eq,
    ← births_tasks, List.length_map] at room
  omega

/-- Before a task begins the journal is told nothing of its children. -/
theorem Sound.untold (sound : first.Sound) (idle : id ∉ first.begun.map Task.id)
    {later : List JournalEntry} (entries : j.engine.entries = first.engine.entries ++ later)
    {child : Ticket} {target : Target} {ends : List JournalEntry}
    (told : j.engine.told child = .started child (some id) target :: ends) :
    first.engine.told child = [] := by
  rw [Engine.told, entries, List.filter_append] at told
  cases known : first.engine.told child with
  | nil => rfl
  | cons entry others =>
    have same : first.engine.entries.filter (fun entry => entry.task = child) = entry :: others :=
      known
    rw [same] at told
    cases told
    have member : .started child (some id) target ∈ first.engine.told child := by
      rw [known]
      exact List.mem_cons_self
    exact absurd (sound.parent_begun (List.mem_filter.mp member).1) idle

/-- A task that ended since the juncture is on record, with its outcome. -/
theorem Kept.record (kept : Kept capacity first j calls more rs) (sound : j.Sound)
    {result : TaskResult} (ended : (u, result) ∈ j.ended) (fresh : first.engine.told u.id = []) :
    ∃ r ∈ rs, r.task = u.id ∧ r.parent = u.handle.parent ∧ u.wrappers = [r.target] ∧
      r.outcome = some (.ofResult result) := by
  obtain ⟨target, wrapped, told⟩ := sound.ended u result ended
  have since : (more.map Call.entry).filter (fun entry => entry.task = u.id) =
      [.started u.id u.handle.parent target, .ended u.id (.ofResult result)
        (failureText result)] := by
    rw [Engine.told, kept.entries, List.filter_append] at told
    rw [Engine.told] at fresh
    rwa [fresh, List.nil_append] at told
  have before : (calls.map Call.entry).filter (fun entry => entry.task = u.id) = [] := by
    refine List.eq_nil_of_sublist_nil (fresh ▸ kept.listed.filter _)
  have whole : ((calls ++ more).map Call.entry).filter (fun entry => entry.task = u.id) =
      (more.map Call.entry).filter fun entry => entry.task = u.id := by
    rw [List.map_append, List.filter_append, before, List.nil_append]
  have latest := latest?_of_told (whole.trans since)
  have start : .started u.id u.handle.parent target ∈ more.map Call.entry := by
    refine List.mem_of_mem_filter (p := fun entry => entry.task = u.id) ?_
    rw [since]
    exact List.mem_cons_self
  obtain ⟨b, born, task, parent, acted⟩ := mem_births_of_entry start
  obtain ⟨r, member, rfl⟩ :=
    kept.told.mem_of_room (births_append calls more) kept.room born
  have task : r.task = u.id := task
  have acted : r.target = target := acted
  refine ⟨r, member, task, parent, ?_, ?_⟩
  · rw [wrapped, acted]
  · rw [kept.told.outcomes r member, task, latest]

/-- The children of a task that had not begun started after it. -/
theorem Kept.late (kept : Kept capacity first j calls more rs) (sound : j.Sound)
    (before : first.Sound) (idle : id ∉ first.begun.map Task.id) :
    Late (births (calls ++ more)) id := by
  intro front c back split line
  rw [births_append] at split
  obtain ⟨middle, rfl, since⟩ : ∃ middle, front = births calls ++ middle ∧
      births more = middle ++ c :: back := by
    rcases List.append_eq_append_iff.mp split with ⟨middle, front, after⟩ | ⟨rest, old, after⟩
    · exact ⟨middle, front, after⟩
    · cases rest with
      | nil => exact ⟨[], by simpa using old.symm, by simpa using after.symm⟩
      | cons d rest =>
        -- a child that was taken down earlier would follow a parent that had begun
        have known : c ∈ births calls := by
          rw [old, (List.cons.inj after).1]
          exact List.mem_append_right _ List.mem_cons_self
        have told := kept.listed.subset (entry_of_mem_births known)
        rw [line] at told
        exact absurd (before.parent_begun told) idle
  obtain ⟨left, call, right, rfl, rfl, born⟩ := call_of_births since
  cases call with
  | finish task outcome error now => cases born
  | start task parent target now =>
    cases born
    have line : parent = some id := line
    subst line
    have entries : j.engine.entries = (first.engine.entries ++ left.map Call.entry) ++
        .started task (some id) target :: right.map Call.entry := by
      simp [kept.entries, Call.entry]
    obtain ⟨grand, own, told⟩ := sound.order _ _ _ entries task id target rfl
    rw [List.map_append]
    rcases List.mem_append.mp told with old | new
    · exact absurd (before.only (.started id grand own) old) idle
    · obtain ⟨b, born, same, -⟩ := mem_births_of_entry new
      exact List.mem_append_right _ (List.mem_map.mpr ⟨b, born, same⟩)

section Firing

variable {t : EngineTask} {scene : SceneId} {lineage : List SceneId} {actions : List Action}

def Spent (j : Juncture) (id : Ticket) : Prop :=
  ∀ u ∈ j.engine.server.queue.tasks ++ (j.handed ++ j.waiting.map Prod.fst),
    u.handle.parent ≠ some id

/-- A child has ended when all has run. -/
theorem Spent.ended (spent : j.Spent id) (child : u ∈ j.children id) :
    u.handle.parent = some id ∧ ∃ result, (u, result) ∈ j.ended := by
  obtain ⟨member, line⟩ := List.mem_filter.mp child
  have line : u.handle.parent = some id := of_decide_eq_true line
  refine ⟨line, ?_⟩
  rw [begun, ← List.append_assoc, ← List.append_assoc] at member
  rcases List.mem_append.mp member with left | ended
  · rw [List.append_assoc] at left
    exact absurd line (spent u left)
  · obtain ⟨⟨_, result⟩, listed, rfl⟩ := List.mem_map.mp ended
    exact ⟨result, listed⟩

/-- A child of the firing is on record, with the verdict on its action. -/
theorem Kept.child (kept : Kept capacity first j calls more rs) (sound : j.Sound)
    (before : first.Sound) (idle : t.id ∉ first.begun.map Task.id)
    (family : Family first.engine t scene lineage actions j) (spent : j.Spent t.id)
    (child : u ∈ j.children t.id) : ∃ r ∈ rs, r.parent = some t.id ∧
      (r.task, [r.target], r.outcome) = (u.id, u.wrappers, first.engine.verdict? u.body) := by
  obtain ⟨line, result, ended⟩ := spent.ended child
  obtain ⟨target, -, told⟩ := sound.ended u result ended
  rw [line] at told
  obtain ⟨r, member, task, parent, acted, outcome⟩ :=
    kept.record sound ended (before.untold idle kept.entries told)
  refine ⟨r, member, parent.trans line, ?_⟩
  rw [task, acted, outcome, family.verdicts u result ended line]

/-- The children on record are those that the firing has led to. -/
theorem Kept.children (kept : Kept capacity first j calls more rs) (sound : j.Sound)
    (before : first.Sound) (idle : t.id ∉ first.begun.map Task.id)
    (family : Family first.engine t scene lineage actions j) (spent : j.Spent t.id) :
    ((rs.filter fun r => r.parent = some t.id).map fun r =>
      (r.task, [r.target], r.outcome)).Perm
        ((j.children t.id).map fun u => (u.id, u.wrappers, first.engine.verdict? u.body)) := by
  have once := kept.told.once kept.once
  have left : ((rs.filter fun r => r.parent = some t.id).map (·.task)).Nodup :=
    once.sublist (List.filter_sublist.map _)
  have right : ((j.children t.id).map Task.id).Nodup :=
    sound.consistent.distinct.sublist (List.filter_sublist.map _)
  refine (List.perm_ext_iff_of_nodup ?_ ?_).mpr fun row => ?_
  · refine List.Nodup.of_map Prod.fst ?_
    rw [List.map_map]
    exact left
  · refine List.Nodup.of_map Prod.fst ?_
    rw [List.map_map]
    exact right
  · constructor
    · intro listed
      obtain ⟨r, member, rfl⟩ := List.mem_map.mp listed
      obtain ⟨member, line⟩ := List.mem_filter.mp member
      have line : r.parent = some t.id := of_decide_eq_true line
      have born := entry_of_mem_births (kept.told.mem_births member)
      have told := (sublist_since kept.listed kept.entries).subset born
      obtain ⟨u, begun, same, parent⟩ := sound.of_started told
      have child := mem_children
        (List.mem_append_right _ (List.mem_append_right j.handed begun)) (parent.trans line)
      obtain ⟨own, listed, -, row⟩ := kept.child sound before idle family spent child
      have task : own.task = r.task := (congrArg Prod.fst row).trans same
      obtain rfl := List.inj_on_of_nodup_map once listed member task
      exact List.mem_map.mpr ⟨u, child, row.symm⟩
    · intro led
      obtain ⟨u, child, rfl⟩ := List.mem_map.mp led
      obtain ⟨r, member, line, same⟩ := kept.child sound before idle family spent child
      exact List.mem_map.mpr ⟨r, List.mem_filter.mpr ⟨member, decide_eq_true line⟩, same⟩

/-- The children on record have ended with the verdicts on the actions. -/
theorem Kept.verdicts (kept : Kept capacity first j calls more rs) (sound : j.Sound)
    (before : first.Sound) (idle : t.id ∉ first.begun.map Task.id)
    (family : Family first.engine t scene lineage actions j) (spent : j.Spent t.id)
    (ran : t.id ∈ j.done) (working : first.engine.outages = {})
    (controls : first.engine.Controls actions) :
    ((rs.filter fun r => r.parent = some t.id).map fun r => (r.target, r.outcome)).Perm
      ((first.engine.verdicts actions).map fun v => (v.1, some v.2)) := by
  have listed := (kept.children sound before idle family spent).map Prod.snd
  have planned := (family.after ran).map fun p => (p.2, first.engine.verdict? p.1)
  rw [plan_verdicts working controls] at planned
  rw [List.map_map] at listed planned
  rw [List.map_map] at listed
  have injective : Function.Injective fun p : Target × Option Outcome => ([p.1], p.2) := by
    rintro ⟨a, x⟩ ⟨b, y⟩ same
    cases same
    rfl
  refine (List.map_perm_map_iff injective).mp ?_
  rw [List.map_map, List.map_map]
  exact listed.trans planned

end Firing

/-- Take any state that an engine gets to, with all stores in order, in which a firing of a stored
manual scene is queued or handed out, and let all actions of the scene control virtual devices.
Whatever runs from there on in whatever order as time passes, and has the journal room for it: when
the firing and all that came of it has run, the firing is on record as a success. It has one child
on record for each action whose device is on record or was deleted, ended with the verdict on that
action alone, and its own record has the sum of these verdicts. -/
theorem siblings_isolated {settings : Settings} {clock : LocalTime} {scenes : SceneStore}
    {devices : DeviceStore} {network : Network} {capacity : Nat} {before after : List Turn}
    {x y : Juncture} {scene : SceneId} {s : Scene} {t : EngineTask} {lineage : List SceneId}
    {timed : Bool}
    (reached : before.foldl (happen perform)
      (fresh settings clock scenes devices network (.ofCapacity capacity)) = x)
    (working : x.engine.outages = {})
    (stored : x.engine.scenes.Reached)
    (transport : x.engine.network.transport.Reached)
    (found : x.engine.scenes.get? scene false = some s)
    (manual : s.automatic = false)
    (linked : ∀ a ∈ s.actions, ∃ device commands, a.kind = .control device commands ∧
      x.engine.Linked device)
    (queued : t ∈ x.engine.server.queue.tasks ++ x.handed)
    (duty : t.body = .fire scene lineage timed)
    (run : after.foldl (happen perform) x = y)
    (calm : ∀ event outer, .event event outer ∈ after → event.Calm)
    (ran : t.id ∈ y.done)
    (spent : y.Spent t.id)
    (room : y.engine.startOrder.length ≤ x.engine.startOrder.length + max capacity 1) :
    ∃ r, y.engine.journal.get? t.id = some r ∧ r.outcome = some .success ∧
      ((y.engine.journal.childrenOf t.id).map fun c => (c.target, c.outcome)).Perm
        ((x.engine.verdicts s.actions).map fun v => (v.1, some v.2)) ∧
      r.childrenOutcome = Outcome.summarize ((x.engine.verdicts s.actions).map Prod.snd) := by
  have begin := sound_fresh settings clock scenes devices network (.ofCapacity capacity)
  obtain ⟨before, calls, journal, listed⟩ : x.Sound ∧ x.Recorded capacity :=
    reached ▸ begin.run (fun a b _ (passes : Passes (fun _ => True) a b) h => h.passes passes)
      ⟨[], rfl, List.Sublist.slnil⟩ before fun _ _ _ => trivial
  have controls : x.engine.Controls s.actions := by
    intro a member
    obtain ⟨device, commands, kind, link⟩ := linked a member
    have valid := stored.valid (SceneStore.get?_live_iff.mp found).1
    have any := valid.commands a member device commands kind
    exact ⟨device, commands, kind, any, link⟩
  have still : Still x.engine scene s.actions x.engine :=
    ⟨working, rfl, .refl _, transport.keyed, s, found, manual, rfl⟩
  have first : Family x.engine t scene lineage s.actions x := before.family queued
  -- before `x` the journal may have been out of order, so the books are kept since `x` only
  obtain ⟨sound, -, family, more, taken, entries⟩ : y.Sound ∧
      Still x.engine scene s.actions y.engine ∧ Family x.engine t scene lineage s.actions y ∧
        TakenDown x.engine.journal x.engine y := by
    refine run ▸ before.run (P := fun j => Still x.engine scene s.actions j.engine ∧
      Family x.engine t scene lineage s.actions j ∧ TakenDown x.engine.journal x.engine j)
      (fun a b sound passes h => ?_) ⟨still, first, [], rfl, (List.append_nil _).symm⟩ after calm
    obtain ⟨still, family, taken⟩ := h
    exact ⟨still_passes still passes, family.passes sound still working controls duty passes,
      taken.passes (by rw [still.working]) passes⟩
  have whole : y.engine.journal = (ofCapacity capacity).play (calls ++ more) := by
    rw [taken, journal]
    exact List.foldl_append.symm
  obtain ⟨rs, same, kept⟩ := sound.exists_kept listed entries whole room
  have idle := before.apart queued
  obtain ⟨⟨u, result⟩, ended, id⟩ := List.mem_map.mp ran
  have member : u ∈ y.engine.server.queue.tasks ++ (y.handed ++ y.begun) :=
    List.mem_append_right _ (List.mem_append_right _
      (List.mem_append_right _ (List.mem_map_of_mem ended)))
  obtain rfl := family.only u member id
  obtain rfl := family.succeeds result ended
  obtain ⟨r, listed, task, -, -, outcome⟩ := kept.record sound ended (before.told_nil idle)
  have once := kept.told.once kept.once
  have verdicts := kept.verdicts sound before idle family spent ran working controls
  have sum := kept.told.sum_eq kept.once listed (task ▸ kept.late sound before idle)
  have outcomes := verdicts.filterMap Prod.snd
  rw [List.filterMap_map, List.filterMap_map] at outcomes
  rw [same]
  refine ⟨r, task ▸ get?_listing_of_mem _ once listed, outcome, ?_, ?_⟩
  · rw [childrenOf_listing _ once]
    exact verdicts
  · rw [sum, task, ← List.filterMap_eq_map]
    exact Outcome.summarize_perm outcomes

def switchOn (device : Nat) (delay : UInt32) : Action :=
  ⟨.ofNat device, delay, .control ⟨.ofNat device⟩ [⟨⟨1, "power"⟩, .bool true⟩]⟩

def evening : Scene where
  id := ⟨.ofNat 9⟩
  name := "Evening"
  automatic := false
  armed := false
  logic := .all
  window := .allDay
  recurrence := .daily
  weekdays := .everyDay
  conditions := []
  actions := [switchOn 1 0, switchOn 2 0, switchOn 3 5, switchOn 4 0]
  createdAt := ⟨0, .midnight⟩
  deletedAt := none

def eveningStore : SceneStore :=
  ⟨⟨[(evening.id, evening)]⟩⟩

theorem eveningStore_reached : eveningStore.Reached := by
  have name : Text.trim "Evening".toList = ['E', 'v', 'e', 'n', 'i', 'n', 'g'] := by rfl
  have named : evening.checkName = .ok () := by
    simp only [Scene.checkName, evening, name]
    rfl
  have valid : evening.validate = .ok () := by
    rw [Scene.validate, named]
    rfl
  refine .save .empty evening ?_
  rw [SceneStore.save, valid]
  rfl

def onRecord (device : Nat) (deletedAt : Option Instant) : DeviceId × Device :=
  (⟨.ofNat device⟩, ⟨⟨.ofNat device⟩, "Lamp", none, none, "virtual", "lamp", deletedAt⟩)

/-- Of four lamps that a scene is to switch on, one is there, one was deleted, one is offline, and
one is not on record: three children, one of which is a success. -/
theorem siblings_isolated_evening :
    let devices : DeviceStore :=
      ⟨⟨[onRecord 1 none, onRecord 2 (some ⟨0, .midnight⟩), onRecord 3 none]⟩⟩
    let transport := (Virtual.Transport.add {} ⟨⟨.ofNat 1⟩, "Lamp", .newLight⟩).setOnline
      ⟨.ofNat 3⟩ false
    let network : Network := { (default : Network) with transport := transport }
    let x := [Turn.event (.move (.addScene evening)) trivial].foldl (happen perform)
      (fresh {} ⟨⟨0, .midnight⟩, 0⟩ eveningStore devices network (.ofCapacity 4))
    let later : Instant := ⟨0, ⟨5, 0, by decide, by decide⟩⟩
    let turns := [.tick, .begin 0, .tick, .tick, .event (.move (.advance later)) trivial, .tick,
      .begin 2, .begin 1, .begin 0]
    let y := turns.foldl (happen perform) x
    ∃ r, y.engine.journal.get? 0 = some r ∧ r.outcome = some .success ∧
      ((y.engine.journal.childrenOf 0).map fun c => (c.target, c.outcome)).Perm
        [(.device ⟨.ofNat 1⟩ "Lamp", some .success),
          (.device ⟨.ofNat 2⟩ "Lamp", some .deviceDeleted),
          (.device ⟨.ofNat 3⟩ "Lamp", some .deviceOffline)] ∧
      r.childrenOutcome = some .partialSuccess := by
  intro devices transport network x later turns y
  let t : EngineTask := (firing evening ⟨0, .midnight⟩ [] false none).task 0
  have stored : x.engine.scenes.Reached := eveningStore_reached
  have reached : x.engine.network.transport.Reached := .online (.add .empty _) _ _
  have queued : t ∈ x.engine.server.queue.tasks ++ x.handed :=
    List.mem_append_left _
      ((DueQueue.tasks_push (DueQueue.empty : DueQueue Ticket Duty Target) t).mem_iff.mpr
        List.mem_cons_self)
  have linked : ∀ a ∈ evening.actions, ∃ device commands, a.kind = .control device commands ∧
      x.engine.Linked device := by
    intro a member
    simp only [evening, List.mem_cons, List.not_mem_nil, or_false] at member
    rcases member with rfl | rfl | rfl | rfl <;> exact ⟨_, _, rfl, ⟨rfl, rfl⟩⟩
  have calm : ∀ event outer, .event event outer ∈ turns → event.Calm := by
    intro event outer member
    simp only [turns, List.mem_cons, reduceCtorEq, List.not_mem_nil, or_false, false_or] at member
    cases member
    exact ⟨later, rfl⟩
  have ran : y.done = [0, 3, 2, 1] := by decide +kernel
  have none : (y.engine.server.queue.tasks ++ (y.handed ++ y.waiting.map Prod.fst)).length = 0 := by
    decide +kernel
  have room : y.engine.startOrder.length ≤ x.engine.startOrder.length + max 4 1 := by
    decide +kernel
  have verdicts : (x.engine.verdicts evening.actions).map (fun v => (v.1, some v.2)) =
      [(.device ⟨.ofNat 1⟩ "Lamp", some .success),
        (.device ⟨.ofNat 2⟩ "Lamp", some .deviceDeleted),
        (.device ⟨.ofNat 3⟩ "Lamp", some .deviceOffline)] := by
    decide +kernel
  have sum : Outcome.summarize ((x.engine.verdicts evening.actions).map Prod.snd) =
      some .partialSuccess := by
    decide +kernel
  have spent : y.Spent t.id := by
    intro u member
    rw [List.eq_nil_of_length_eq_zero none] at member
    cases member
  have ran : t.id ∈ y.done := by
    rw [ran]
    exact List.mem_cons_self
  have isolated := siblings_isolated (x := x) (y := y) (t := t) (s := evening) rfl rfl stored
    reached rfl rfl linked queued rfl rfl calm ran spent room
  rw [verdicts, sum] at isolated
  exact isolated

end Juncture

end HomeScenes
