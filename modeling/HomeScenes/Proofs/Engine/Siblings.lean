import HomeScenes.Proofs.Engine.Control
import HomeScenes.Proofs.Engine.Interleaving

/-!
# The tasks of a firing

A manual scene whose actions all control virtual devices is fired, and then nothing happens but that
time passes and tasks run, these and any others, in any order. When its firing has run, there is one
child of it for each action whose device is on record, and each child ends with the verdict on its
own action.
-/

namespace HomeScenes

def Event.Calm (event : Event) : Prop :=
  ∃ utc, event = .move (.advance utc)

namespace Engine

def Controls (e : Engine) (actions : List Action) : Prop :=
  ∀ a ∈ actions, ∃ device commands, a.kind = .control device commands ∧ commands ≠ [] ∧
    e.Linked device

/-- What the other tasks leave as it was: nothing is out of order, and neither devices nor the
actions of a manual scene have changed. -/
structure Still (first : Engine) (scene : SceneId) (actions : List Action) (e : Engine) : Prop where
  working : e.outages = {}
  devices : e.devices = first.devices
  network : first.network.Alike e.network
  keyed : e.network.transport.Keyed
  stored : ∃ s, e.scenes.get? scene false = some s ∧ s.automatic = false ∧ s.actions = actions

variable {first e r : Engine} {scene : SceneId} {actions : List Action}

theorem Still.congr (h : first.Still scene actions e) (outages : r.outages = e.outages)
    (devices : r.devices = e.devices) (network : r.network = e.network)
    (scenes : r.scenes = e.scenes) : first.Still scene actions r where
  working := outages.trans h.working
  devices := devices.trans h.devices
  network := network ▸ h.network
  keyed := network ▸ h.keyed
  stored := scenes ▸ h.stored

theorem Still.steps {own : Ticket} (h : first.Still scene actions e) (steps : Steps own e r) :
    first.Still scene actions r := by
  induction steps with
  | refl => exact h
  | forget before other ih =>
    rw [forgetPending_frame]
    exact ih.congr rfl rfl rfl rfl
  | queue before line ih => exact ih.congr rfl rfl rfl rfl
  | drop before other ih =>
    rw [dropFirings_frame]
    exact ih.congr rfl rfl rfl rfl
  | @armed r before other armed scenes set ih =>
    obtain ⟨s, found, manual, same⟩ := ih.stored
    refine ⟨ih.working, ih.devices, ih.network, ih.keyed, ?_⟩
    rw [SceneStore.get?_setArmed set]
    split
    · refine ⟨{ s with armed := armed }, ?_, manual, same⟩
      rw [found]
      rfl
    · exact ⟨s, found, manual, same⟩
  | @request r before device c ih =>
    have alike := Network.alike_set ih.keyed device c r.now
    exact ⟨ih.working, ih.devices, ih.network.trans alike, alike.keyed ih.keyed, ih.stored⟩

/-- What a firing of the actions is to queue: duties and targets. -/
def plan (e : Engine) (lineage : List SceneId) (actions : List Action) :
    List (Duty × List Target) :=
  actions.filterMap fun a => (e.resolveTarget? a).map fun target => (.act a.kind lineage, [target])

theorem map_tasks (n : Nat) (rs : List Errand) :
    (Errand.tasks n rs).map (fun u => (u.body, u.wrappers)) =
      rs.map fun u => (u.duty, [u.target]) := by
  induction rs generalizing n with
  | nil => rfl
  | cons u rs ih => rw [Errand.tasks, List.map_cons, ih]; rfl

/-- A firing of the scene ends at once, when it has queued its actions. -/
theorem fire_still (h : first.Still scene actions e) (working : first.outages = {})
    (controls : first.Controls actions) (handle : Handle Ticket) (lineage : List SceneId)
    (timed : Bool) : ∃ rs : List Errand,
      (fire handle scene lineage timed).advance e =
        (.finished (.ok ()), (e.forgetPending scene handle.id).enqueueAll rs) ∧
      (∀ u ∈ rs, u.parent = some handle.id) ∧
      rs.map (fun u => (u.duty, [u.target])) = first.plan (lineage ++ [scene]) actions := by
  obtain ⟨s, found, manual, same⟩ := h.stored
  have frame := forgetPending_frame e scene handle.id
  have loaded : (e.forgetPending scene handle.id).loadScene scene = .ok s := by
    rw [loadScene_ok, frame]
    exact ⟨by rw [h.working], found⟩
  refine ⟨s.actions.filterMap ((e.forgetPending scene handle.id).errand?
    (e.forgetPending scene handle.id).now (lineage ++ [scene]) handle.id), ?_, ?_, ?_⟩
  · rw [fire, Work.advance, Work.advance, loaded]
    dsimp only
    rw [acts, manual, Work.advance_bind]
    simp only [Bool.false_eq_true, if_false, Work.advance, if_true, fanOut_eq]
  · intro u hu
    obtain ⟨a, -, queued⟩ := List.mem_filterMap.mp hu
    obtain ⟨target, -, rfl⟩ := Option.map_eq_some_iff.mp queued
    rfl
  · rw [List.map_filterMap, same, plan]
    refine List.filterMap_congr fun a listed => ?_
    obtain ⟨device, commands, kind, -, -⟩ := controls a listed
    have resolved : (e.forgetPending scene handle.id).resolveTarget? a =
        first.resolveTarget? a := by
      rw [frame]
      simp only [resolveTarget?, readDevice, kind, h.working, working, h.devices]
    rw [errand?, resolved, Option.map_map]
    rfl

def verdict? (e : Engine) : Duty → Option Outcome
  | .act (.control device commands) _ => some (e.verdict device commands)
  | _ => none

/-- A planned action is one of the scene. -/
theorem mem_plan {lineage : List SceneId} {duty : Duty} {targets : List Target}
    (h : (duty, targets) ∈ e.plan lineage actions) :
    ∃ a ∈ actions, duty = .act a.kind lineage := by
  obtain ⟨a, listed, planned⟩ := List.mem_filterMap.mp h
  obtain ⟨target, -, same⟩ := Option.map_eq_some_iff.mp planned
  cases same
  exact ⟨a, listed, rfl⟩

/-- An action of the scene ends at once, with the verdict on it. -/
theorem act_still (h : first.Still scene actions e) (controls : first.Controls actions)
    {lineage : List SceneId} {duty : Duty} {targets : List Target}
    (planned : (duty, targets) ∈ first.plan lineage actions) (handle : Handle Ticket) :
    ∃ result r, (body duty handle).advance e = (.finished result, r) ∧
      first.verdict? duty = some (.ofResult result) := by
  obtain ⟨a, listed, rfl⟩ := mem_plan planned
  obtain ⟨device, commands, kind, any, linked⟩ := controls a listed
  have working : e.outages.devices = none := by rw [h.working]
  obtain ⟨result, r, advanced, outcome⟩ :=
    control_verdict working (linked.congr h.network) h.keyed any
  rw [kind]
  refine ⟨result, r, advanced, ?_⟩
  rw [outcome, verdict_congr h.devices h.network, verdict?]

/-- What a task queues comes to those of its children that there are. -/
theorem children_enqueueAll (e : Engine) {rs : List Errand} {parent : Ticket}
    (line : ∀ r ∈ rs, r.parent = some parent) (others : List EngineTask) :
    (((e.enqueueAll rs).server.queue.tasks ++ others).filter fun v =>
      v.handle.parent = some parent).Perm
        ((e.server.queue.tasks ++ others).filter (fun v => v.handle.parent = some parent) ++
          Errand.tasks e.issued rs) := by
  have own : (Errand.tasks e.issued rs).filter (fun v => v.handle.parent = some parent) =
      Errand.tasks e.issued rs := by
    refine List.filter_eq_self.mpr fun v member => ?_
    obtain ⟨r, listed, i, rfl, -⟩ := Errand.mem_tasks member
    exact decide_eq_true (line r listed)
  have queued := (tasks_enqueueAll e rs).filter fun v => v.handle.parent = some parent
  simp only [List.filter_append, own] at queued ⊢
  refine (queued.append_right _).trans ?_
  simp only [List.append_assoc]
  exact List.perm_append_comm.append_left _

/-- Work that ends at once, with the journal kept after it. -/
theorem advance_close {w : Work Engine TaskResult} {result : TaskResult}
    (advanced : w.advance e = (.finished result, r)) (handle : Handle Ticket) :
    (w.bind (close handle)).advance e = (.finished result, r.recordResult handle result) := by
  rw [Work.advance_bind, advanced]
  rfl

end Engine

namespace Juncture

open Engine

variable {first : Engine} {scene : SceneId} {actions : List Action} {lineage : List SceneId}
  {timed : Bool} {j k : Juncture} {t : EngineTask}

/-- While time passes and tasks run, all of that stays as it was. -/
theorem still_passes (h : first.Still scene actions j.engine)
    (passes : Passes Event.Calm j k) : first.Still scene actions k.engine := by
  cases passes with
  | event outer ok =>
    obtain ⟨utc, rfl⟩ := ok
    exact h.congr rfl rfl rfl rfl
  | look valid same => exact h.congr rfl rfl rfl rfl
  | handOut valid taken => exact h.congr rfl rfl rfl rfl
  | start found wrapped =>
    rw [recordStart_eq]
    exact h.congr rfl rfl rfl rfl
  | pause waits advanced steps goesOn => exact h.steps steps
  | finish waits advanced steps =>
    rw [recordResult_eq]
    exact (h.steps steps).congr rfl rfl rfl rfl

/-- All tasks that a task has led to and that were not dropped. -/
def children (j : Juncture) (parent : Ticket) : List EngineTask :=
  (j.engine.server.queue.tasks ++ (j.handed ++ j.begun)).filter fun u =>
    u.handle.parent = some parent

def done (j : Juncture) : List Ticket :=
  j.ended.map fun p => p.1.id

/-- What is the case about a firing of the scene and about its children, whatever has run. -/
structure Family (first : Engine) (t : EngineTask) (scene : SceneId) (lineage : List SceneId)
    (actions : List Action) (j : Juncture) : Prop where
  only : ∀ u ∈ j.engine.server.queue.tasks ++ (j.handed ++ j.begun), u.id = t.id → u = t
  old : t.id < j.engine.issued
  /-- None of them pauses. -/
  whole : ∀ u w, (u, w) ∈ j.waiting → u.id = t.id ∨ u.handle.parent = some t.id →
    w = (body u.body u.handle).bind (close u.handle)
  before : t.id ∉ j.done → j.children t.id = []
  after : t.id ∈ j.done → ((j.children t.id).map fun u => (u.body, u.wrappers)).Perm
    (first.plan (lineage ++ [scene]) actions)
  succeeds : ∀ result, (t, result) ∈ j.ended → result = .ok ()
  verdicts : ∀ u result, (u, result) ∈ j.ended → u.handle.parent = some t.id →
    first.verdict? u.body = some (.ofResult result)

/-- A child runs an action of the scene. -/
theorem Family.child (h : Family first t scene lineage actions j) {u : EngineTask}
    (child : u ∈ j.children t.id) :
    (u.body, u.wrappers) ∈ first.plan (lineage ++ [scene]) actions := by
  by_cases ended : t.id ∈ j.done
  · exact (h.after ended).mem_iff.mp (List.mem_map_of_mem child)
  · rw [h.before ended] at child
    cases child

theorem mem_children {u : EngineTask} {parent : Ticket}
    (member : u ∈ j.engine.server.queue.tasks ++ (j.handed ++ j.begun))
    (line : u.handle.parent = some parent) : u ∈ j.children parent :=
  List.mem_filter.mpr ⟨member, decide_eq_true line⟩

/-- A task that has not begun has no children. -/
theorem Sound.childless (sound : j.Sound) {parent : Ticket}
    (idle : parent ∉ j.begun.map Task.id) : j.children parent = [] := by
  refine List.filter_eq_nil_iff.mpr fun u member line => idle ?_
  have line : u.handle.parent = some parent := of_decide_eq_true line
  rw [← List.append_assoc] at member
  rcases List.mem_append.mp member with ahead | begun
  · exact sound.parents u ahead parent line
  · obtain ⟨target, ends, -, told⟩ := sound.told_cons begun
    rw [line] at told
    have first : .started u.id (some parent) target ∈ j.engine.told u.id := by
      rw [told]
      exact List.mem_cons_self
    exact sound.parent_begun (List.mem_filter.mp first).1

/-- Before the firing begins, all that is the case. -/
theorem Sound.family (sound : j.Sound) (queued : t ∈ j.engine.server.queue.tasks ++ j.handed) :
    Family first t scene lineage actions j := by
  have idle := sound.apart queued
  have none := sound.childless idle
  have here : t ∈ j.engine.server.queue.tasks ++ (j.handed ++ j.begun) := by
    rw [← List.append_assoc]
    exact List.mem_append_left _ queued
  have waits : ∀ u w, (u, w) ∈ j.waiting → u ∈ j.begun :=
    fun u w member => List.mem_append_left _ (List.mem_map_of_mem member)
  have ends : ∀ u result, (u, result) ∈ j.ended → u ∈ j.begun :=
    fun u result member => List.mem_append_right _ (List.mem_map_of_mem member)
  have orphans : ∀ u ∈ j.begun, u.handle.parent ≠ some t.id := by
    intro u begun line
    have child := mem_children
      (List.mem_append_right _ (List.mem_append_right j.handed begun)) line
    rw [none] at child
    cases child
  constructor
  · exact fun u member id => sound.consistent.same member here id
  · exact sound.consistent.issued t here
  · intro u w member own
    rcases own with same | line
    · exact absurd (same ▸ List.mem_map_of_mem (waits u w member)) idle
    · exact absurd line (orphans u (waits u w member))
  · exact fun _ => none
  · intro ran
    obtain ⟨⟨u, result⟩, member, same⟩ := List.mem_map.mp ran
    exact absurd (same ▸ List.mem_map_of_mem (ends u result member)) idle
  · intro result member
    exact absurd (List.mem_map_of_mem (ends t result member)) idle
  · intro u result member line
    exact absurd line (orphans u (ends u result member))

/-- A passage that keeps the children of the firing, and ends none of them, keeps it all. -/
theorem Family.keep (h : Family first t scene lineage actions j)
    (only : ∀ u ∈ k.engine.server.queue.tasks ++ (k.handed ++ k.begun),
      u ∈ j.engine.server.queue.tasks ++ (j.handed ++ j.begun) ∨ j.engine.issued ≤ u.id)
    (issued : j.engine.issued ≤ k.engine.issued)
    (waiting : ∀ u w, (u, w) ∈ k.waiting → (u, w) ∈ j.waiting ∨
      w = (body u.body u.handle).bind (close u.handle) ∨
      u.id ≠ t.id ∧ u.handle.parent ≠ some t.id)
    (children : (k.children t.id).Perm (j.children t.id))
    (ended : ∀ u result, (u, result) ∈ k.ended → (u, result) ∈ j.ended ∨ u.id ≠ t.id ∧
      (u.handle.parent = some t.id → first.verdict? u.body = some (.ofResult result)))
    (more : ∀ p ∈ j.ended, p ∈ k.ended) : Family first t scene lineage actions k := by
  have done : t.id ∈ k.done ↔ t.id ∈ j.done := by
    constructor
    · intro member
      obtain ⟨⟨u, result⟩, member, id⟩ := List.mem_map.mp member
      rcases ended u result member with old | ⟨other, -⟩
      · exact List.mem_map.mpr ⟨_, old, id⟩
      · exact absurd id other
    · intro member
      obtain ⟨p, member, id⟩ := List.mem_map.mp member
      exact List.mem_map.mpr ⟨p, more p member, id⟩
  refine ⟨?_, Nat.lt_of_lt_of_le h.old issued, ?_, ?_, ?_, ?_, ?_⟩
  · intro u member id
    rcases only u member with old | new
    · exact h.only u old id
    · rw [id] at new
      exact absurd h.old (Nat.not_lt.mpr new)
  · intro u w member own
    rcases waiting u w member with old | whole | ⟨other, apart⟩
    · exact h.whole u w old own
    · exact whole
    · rcases own with same | line
      · exact absurd same other
      · exact absurd line apart
  · intro running
    have none := h.before (mt done.mpr running)
    rw [none] at children
    exact children.eq_nil
  · exact fun ran => (children.map _).trans (h.after (done.mp ran))
  · intro result member
    rcases ended t result member with old | ⟨other, -⟩
    · exact h.succeeds result old
    · exact absurd rfl other
  · intro u result member line
    rcases ended u result member with old | ⟨-, verdict⟩
    · exact h.verdicts u result old line
    · exact verdict line

/-- The tasks of a firing are queued as actions, not as timer firings. -/
theorem Family.untimed (h : Family first t scene lineage actions j) {u : EngineTask}
    (queued : u ∈ j.engine.server.queue.tasks) (line : u.handle.parent = some t.id) :
    u.body.timer? = none := by
  obtain ⟨a, -, duty⟩ := mem_plan (h.child (mem_children (List.mem_append_left _ queued) line))
  rw [duty]
  rfl

theorem begun_of_waits {p : EngineTask × Work Engine TaskResult}
    {ws : List (EngineTask × Work Engine TaskResult)} (waits : j.waiting.Perm (p :: ws)) :
    p.1 ∈ j.begun :=
  (begun_perm waits).mem_iff.mpr List.mem_cons_self

section Passing

variable {u : EngineTask} {w : Work Engine TaskResult} {e : Engine} {begun : List EngineTask}

/-- What there is after some steps was there before, or its ticket is new. -/
theorem Sound.known (sound : j.Sound) (own : u ∈ j.begun) (steps : Steps u.id j.engine e)
    (perm : begun.Perm j.begun) :
    (∀ v ∈ e.server.queue.tasks ++ (j.handed ++ begun),
      v ∈ j.engine.server.queue.tasks ++ (j.handed ++ j.begun) ∨ j.engine.issued ≤ v.id) ∧
    j.engine.issued ≤ e.issued := by
  obtain ⟨later, tasks⟩ := steps.tasks sound.consistent (List.mem_append_right _ own)
  refine ⟨fun v member => ?_, later⟩
  rcases List.mem_append.mp member with queued | known
  · rcases tasks v queued with old | ⟨r, i, new, rfl, -⟩
    · exact .inl (List.mem_append_left _ old)
    · exact .inr new
  · exact .inl (List.mem_append_right _ ((perm.append_left _).mem_iff.mp known))

/-- The steps of another task keep the children of the firing. -/
theorem Family.steps (h : Family first t scene lineage actions j) (sound : j.Sound)
    (own : u ∈ j.begun) (steps : Steps u.id j.engine e) (other : u.id ≠ t.id)
    (perm : begun.Perm j.begun) :
    ((e.server.queue.tasks ++ (j.handed ++ begun)).filter fun v =>
      v.handle.parent = some t.id).Perm (j.children t.id) := by
  have queued := steps.children sound.consistent (List.mem_append_right _ own) other.symm
    fun v => h.untimed
  have known := (perm.append_left j.handed).filter fun v => v.handle.parent = some t.id
  simp only [children, List.filter_append] at known ⊢
  exact queued.append known

/-- The firing ends when it goes on, and has queued its actions. -/
theorem Family.own_ends (h : Family first t scene lineage actions j)
    (still : first.Still scene actions j.engine) (working : first.outages = {})
    (controls : first.Controls actions) (duty : t.body = .fire scene lineage timed)
    (waits : (t, w) ∈ j.waiting) : ∃ rs : List Errand,
      w.advance j.engine = (.finished (.ok ()),
        ((j.engine.forgetPending scene t.id).enqueueAll rs).recordResult t.handle (.ok ())) ∧
      (∀ r ∈ rs, r.parent = some t.id) ∧
      rs.map (fun r => (r.duty, [r.target])) = first.plan (lineage ++ [scene]) actions := by
  obtain ⟨rs, advanced, line, planned⟩ := fire_still still working controls t.handle lineage timed
  have whole := h.whole t w waits (.inl rfl)
  rw [duty] at whole
  exact ⟨rs, whole ▸ advance_close advanced t.handle, line, planned⟩

/-- A child ends when it goes on, with the verdict on its action. -/
theorem Family.child_ends (h : Family first t scene lineage actions j)
    (still : first.Still scene actions j.engine) (controls : first.Controls actions)
    (waits : (u, w) ∈ j.waiting) (line : u.handle.parent = some t.id) :
    ∃ result r, w.advance j.engine = (.finished result, r) ∧
      first.verdict? u.body = some (.ofResult result) := by
  have begun : u ∈ j.begun := List.mem_append_left _ (List.mem_map_of_mem waits)
  have planned := h.child (mem_children
    (List.mem_append_right _ (List.mem_append_right _ begun)) line)
  obtain ⟨result, r, advanced, outcome⟩ := act_still still controls planned u.handle
  have whole := h.whole u w waits (.inr line)
  exact ⟨result, _, whole ▸ advance_close advanced u.handle, outcome⟩

/-- When the firing ends, its children are what it has queued. -/
theorem Family.fires (h : Family first t scene lineage actions j) (sound : j.Sound)
    {ws : List (EngineTask × Work Engine TaskResult)} (waits : j.waiting.Perm ((t, w) :: ws))
    {rs : List Errand} (line : ∀ r ∈ rs, r.parent = some t.id)
    (planned : rs.map (fun r => (r.duty, [r.target])) = first.plan (lineage ++ [scene]) actions)
    (server : k.engine.server = ((j.engine.forgetPending scene t.id).enqueueAll rs).server)
    (handed : k.handed = j.handed) (waiting : k.waiting = ws)
    (ended : k.ended = j.ended ++ [(t, .ok ())])
    (known : ∀ v ∈ k.engine.server.queue.tasks ++ (k.handed ++ k.begun),
      v ∈ j.engine.server.queue.tasks ++ (j.handed ++ j.begun) ∨ j.engine.issued ≤ v.id)
    (later : j.engine.issued ≤ k.engine.issued) : Family first t scene lineage actions k := by
  have running : t.id ∉ j.done := by
    intro ran
    obtain ⟨p, member, id⟩ := List.mem_map.mp ran
    exact sound.apart_waiting waits p.1
      (List.mem_append_right _ (List.mem_map_of_mem member)) id.symm
  have perm : k.begun.Perm j.begun := by
    rw [begun, waiting, ended]
    exact (end_perm ws j.ended t _).trans (begun_perm waits).symm
  have children : (k.children t.id).Perm (Errand.tasks j.engine.issued rs) := by
    rw [Juncture.children, server, handed]
    refine (children_enqueueAll _ line _).trans (.of_eq ?_)
    rw [forgetPending_frame, List.append_left_eq_self]
    refine List.Perm.eq_nil ?_
    rw [← h.before running]
    exact ((perm.append_left _).append_left _).filter _
  have ran : t.id ∈ k.done := by
    rw [done, ended, List.map_append]
    exact List.mem_append_right _ List.mem_cons_self
  constructor
  · intro v member id
    rcases known v member with old | new
    · exact h.only v old id
    · rw [id] at new
      exact absurd h.old (Nat.not_lt.mpr new)
  · exact Nat.lt_of_lt_of_le h.old later
  · intro v rest member
    rw [waiting] at member
    exact h.whole v rest (waits.mem_iff.mpr (List.mem_cons_of_mem _ member))
  · exact fun running => absurd ran running
  · intro _
    refine (children.map _).trans (.of_eq ?_)
    rw [map_tasks, planned]
  · intro result member
    rw [ended] at member
    rcases List.mem_append.mp member with old | new
    · exact h.succeeds result old
    · cases List.mem_singleton.mp new
      rfl
  · intro v result member
    rw [ended] at member
    rcases List.mem_append.mp member with old | new
    · exact h.verdicts v result old
    · cases List.mem_singleton.mp new
      intro line
      have child := mem_children (List.mem_append_right _ (List.mem_append_right _
        (begun_of_waits waits))) line
      rw [h.before running] at child
      cases child

/-- A task that begins is none of those that end, and begins with its whole body. -/
theorem Family.start (h : Family first t scene lineage actions j) {place : Nat} {target : Target}
    (found : j.handed[place]? = some u) : Family first t scene lineage actions
      { j with
        engine := j.engine.recordStart u.handle target
        handed := j.handed.eraseIdx place
        waiting := (u, (body u.body u.handle).bind (close u.handle)) :: j.waiting } := by
  have perm : (j.handed.eraseIdx place ++ (u :: j.begun)).Perm (j.handed ++ j.begun) :=
    begin_perm found
  have all := perm.append_left j.engine.server.queue.tasks
  rw [recordStart_eq]
  refine h.keep (fun v member => .inl (all.mem_iff.mp member)) (Nat.le_refl _) ?_ (all.filter _)
    (fun v result member => .inl member) fun p member => member
  intro v w member
  rcases List.mem_cons.mp member with new | old
  · cases new
    exact .inr (.inl rfl)
  · exact .inl old

/-- A task that pauses is another one. -/
theorem Family.pause (h : Family first t scene lineage actions j) (sound : j.Sound)
    (still : first.Still scene actions j.engine) (working : first.outages = {})
    (controls : first.Controls actions) (duty : t.body = .fire scene lineage timed)
    {more : Work Engine TaskResult} {nanos : Nat}
    {ws : List (EngineTask × Work Engine TaskResult)} (waits : j.waiting.Perm ((u, w) :: ws))
    (advanced : w.advance j.engine = (.paused nanos (more.bind (close u.handle)), e))
    (steps : Steps u.id j.engine e) : Family first t scene lineage actions
      { j with engine := e, waiting := ws ++ [(u, more.bind (close u.handle))] } := by
  have waiting : (u, w) ∈ j.waiting := waits.mem_iff.mpr List.mem_cons_self
  have begun := begun_of_waits waits
  have other : u.id ≠ t.id := by
    intro own
    obtain rfl := h.only u (List.mem_append_right _ (List.mem_append_right _ begun)) own
    obtain ⟨rs, finished, -⟩ := h.own_ends still working controls duty waiting
    rw [finished] at advanced
    cases advanced
  have apart : u.handle.parent ≠ some t.id := by
    intro line
    obtain ⟨result, r, finished, -⟩ := h.child_ends still controls waiting line
    rw [finished] at advanced
    cases advanced
  have perm : ((ws ++ [(u, more.bind (close u.handle))]).map Prod.fst ++
      j.ended.map Prod.fst).Perm j.begun := by
    refine .trans ?_ (begun_perm waits).symm
    rw [List.map_append]
    exact (List.perm_append_singleton u _).append_right _
  obtain ⟨known, later⟩ := sound.known begun steps perm
  have children := h.steps sound begun steps other perm
  refine h.keep known later ?_ children (fun v result member => .inl member) fun p member => member
  intro v rest member
  rcases List.mem_append.mp member with old | new
  · exact .inl (waits.mem_iff.mpr (List.mem_cons_of_mem _ old))
  · cases List.mem_singleton.mp new
    exact .inr (.inr ⟨other, apart⟩)

/-- A task that ends is the firing, one of its children, or another one. -/
theorem Family.finish (h : Family first t scene lineage actions j) (sound : j.Sound)
    (still : first.Still scene actions j.engine) (working : first.outages = {})
    (controls : first.Controls actions) (duty : t.body = .fire scene lineage timed)
    {result : TaskResult} {ws : List (EngineTask × Work Engine TaskResult)}
    (waits : j.waiting.Perm ((u, w) :: ws))
    (advanced : w.advance j.engine = (.finished result, e.recordResult u.handle result))
    (steps : Steps u.id j.engine e) : Family first t scene lineage actions
      { j with
        engine := e.recordResult u.handle result
        waiting := ws
        ended := j.ended ++ [(u, result)] } := by
  have waiting : (u, w) ∈ j.waiting := waits.mem_iff.mpr List.mem_cons_self
  have begun := begun_of_waits waits
  have perm : (ws.map Prod.fst ++ (j.ended ++ [(u, result)]).map Prod.fst).Perm j.begun :=
    (end_perm ws j.ended u result).trans (begun_perm waits).symm
  obtain ⟨known, later⟩ := sound.known begun steps perm
  have server : (e.recordResult u.handle result).server = e.server := by
    rw [recordResult_eq]
  have issued : (e.recordResult u.handle result).issued = e.issued := by
    rw [recordResult_eq]
  rw [← server] at known
  rw [← issued] at later
  by_cases own : u.id = t.id
  · have same := h.only u (List.mem_append_right _ (List.mem_append_right _ begun)) own
    subst same
    -- the two accounts of where the firing got to are one
    obtain ⟨rs, finished, line, planned⟩ := h.own_ends still working controls duty waiting
    rw [finished] at advanced
    injection advanced with same engine
    cases same
    rw [← engine] at known later ⊢
    refine h.fires sound waits line planned ?_ rfl rfl rfl known later
    rw [recordResult_eq]
  · have children := h.steps sound begun steps own perm
    rw [← server] at children
    refine h.keep known later ?_ children ?_ fun p member => List.mem_append_left _ member
    · intro v rest member
      exact .inl (waits.mem_iff.mpr (List.mem_cons_of_mem _ member))
    · intro v answer member
      rcases List.mem_append.mp member with old | new
      · exact .inl old
      · cases List.mem_singleton.mp new
        refine .inr ⟨own, fun line => ?_⟩
        obtain ⟨_, r, finished, outcome⟩ := h.child_ends still controls waiting line
        rw [finished] at advanced
        cases advanced
        exact outcome

/-- While time passes and tasks run, all that stays the case. -/
theorem Family.passes (h : Family first t scene lineage actions j) (sound : j.Sound)
    (still : first.Still scene actions j.engine) (working : first.outages = {})
    (controls : first.Controls actions) (duty : t.body = .fire scene lineage timed)
    (passes : Passes Event.Calm j k) : Family first t scene lineage actions k := by
  cases passes with
  | event outer ok =>
    obtain ⟨utc, rfl⟩ := ok
    exact ⟨h.only, h.old, h.whole, h.before, h.after, h.succeeds, h.verdicts⟩
  | look valid same =>
    have all := same.append_right (j.handed ++ j.begun)
    exact h.keep (fun u member => .inl (all.mem_iff.mp member)) (Nat.le_refl _)
      (fun u w member => .inl member) (all.filter _) (fun u result member => .inl member)
      fun p member => member
  | handOut valid taken =>
    have all := handOut_perm taken j.handed j.begun
    exact h.keep (fun u member => .inl (all.mem_iff.mp member)) (Nat.le_refl _)
      (fun u w member => .inl member) (all.filter _) (fun u result member => .inl member)
      fun p member => member
  | start found wrapped => exact h.start found
  | pause waits advanced steps goesOn =>
    exact h.pause sound still working controls duty waits advanced steps
  | finish waits advanced steps =>
    exact h.finish sound still working controls duty waits advanced steps

end Passing

end Juncture

end HomeScenes
