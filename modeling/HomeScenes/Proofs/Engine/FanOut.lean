import HomeScenes.Proofs.Engine.Steps
import HomeScenes.Proofs.Engine.Stored

/-!
# What a firing queues

A firing that acts queues one task for each action of its scene whose target is on record, deleted
or not, in the order of the actions. Nothing is claimed about what others do while the firing waits
for the devices that it asks about its conditions; once it is decided that the scene acts, the tasks
are all that comes to the queue, and an action without a target leaves no trace.
-/

namespace HomeScenes.Engine

/-- What an action acts upon, if it is on record; deleted records count. -/
def record? (e : Engine) : Action.Kind → Option Target
  | .control device _ => (e.devices.devices.find? device).map fun d => .device d.id d.name
  | .run scene => (e.scenes.scenes.find? scene).map Scene.target
  | .enable scene => (e.scenes.scenes.find? scene).map Scene.target
  | .disable scene => (e.scenes.scenes.find? scene).map Scene.target

/-- A task is the one of an action of a firing: due after the delay of the action, or at once when
that is out of range. -/
structure Carries (start : Engine) (parent : Ticket) (lineage : List SceneId) (a : Action)
    (t : EngineTask) : Prop where
  target : ∃ target, start.record? a.kind = some target ∧ t.wrappers = [target]
  body : t.body = .act a.kind lineage
  line : t.handle.parent = some parent
  label : t.handle.label = a.kind.text
  due : t.due = if (start.now.shift a.delayNanos).isStorable then start.now.shift a.delayNanos
    else start.now

/-- The tasks of the actions whose targets are on record were queued one after the other, and
nothing else has happened to the queue and the index. -/
structure FannedOut (start : Engine) (parent : Ticket) (lineage : List SceneId)
    (actions : List Action) (children : List EngineTask) (r : Engine) : Prop where
  each : List.Forall₂ (Carries start parent lineage)
    (actions.filter fun a => (start.record? a.kind).isSome) children
  tickets : children.map Task.id = List.range' start.issued children.length
  pushed : r.server.queue = children.foldl DueQueue.push start.server.queue
  queue : r.server.queue.tasks.Perm (start.server.queue.tasks ++ children)
  rest : Beside { start with server := r.server, issued := r.issued } r

variable {others : Engine → Engine → Prop} {e r start : Engine} {parent : Ticket}
  {lineage : List SceneId} {actions : List Action}

/-- What is on record is found, deleted or not, as long as the stores are in order. -/
theorem resolveTarget?_eq (devices : e.outages.devices = none) (scenes : e.outages.scenes = none)
    (a : Action) : e.resolveTarget? a = e.record? a.kind := by
  have device (id : DeviceId) : e.devices.get? id true = e.devices.devices.find? id := by
    rw [DeviceStore.get?]
    cases e.devices.devices.find? id <;> rfl
  have scene (id : SceneId) : e.scenes.get? id true = e.scenes.scenes.find? id := by
    rw [SceneStore.get?]
    cases e.scenes.scenes.find? id <;> rfl
  rw [resolveTarget?]
  simp only [readDevice, readScene, devices, scenes, device, scene]
  cases a.kind with
  | control id commands =>
    dsimp only [record?]
    cases e.devices.devices.find? id <;> rfl
  | run id | enable id | disable id =>
    dsimp only [record?]
    cases e.scenes.scenes.find? id <;> rfl

/-- No delay is too long to be added. -/
theorem shift?_delay (now : Instant) (a : Action) :
    (now.shift? (min a.delayNanos Task.longestDelay)).getD now =
      if (now.shift a.delayNanos).isStorable then now.shift a.delayNanos else now := by
  have small : a.delay.toNat < 4294967296 := a.delay.toNat_lt
  have low : 0 ≤ a.delayNanos := by
    rw [Action.delayNanos]
    omega
  have high : a.delayNanos ≤ Instant.longestDuration := by
    rw [Action.delayNanos, Instant.longestDuration]
    omega
  have fits : a.delayNanos.natAbs ≤ Instant.longestDuration.natAbs := by omega
  rw [Task.longestDelay, Int.min_eq_left high, Instant.shift?]
  simp only [fits, true_and]
  split <;> rfl

theorem carries_tasks (devices : start.outages.devices = none)
    (scenes : start.outages.scenes = none) (n : Nat) :
    List.Forall₂ (Carries start parent lineage)
      (actions.filter fun a => (start.record? a.kind).isSome)
      (Errand.tasks n (actions.filterMap (start.errand? start.now lineage parent))) := by
  induction actions generalizing n with
  | nil => exact .nil
  | cons a actions ih =>
    cases recorded : start.record? a.kind with
    | none =>
      have skipped : start.errand? start.now lineage parent a = none := by
        rw [errand?, resolveTarget?_eq devices scenes, recorded]
        rfl
      rw [List.filter_cons_of_neg (by simp [recorded]), List.filterMap_cons_none skipped]
      exact ih n
    | some target =>
      have queued : start.errand? start.now lineage parent a = some
          ⟨some parent, if (start.now.shift a.delayNanos).isStorable then
              start.now.shift a.delayNanos else start.now,
            a.kind.text, .act a.kind lineage, target⟩ := by
        rw [errand?, resolveTarget?_eq devices scenes, recorded, shift?_delay]
        rfl
      rw [List.filter_cons_of_pos (by simp [recorded]), List.filterMap_cons_some queued]
      exact .cons ⟨⟨target, recorded, rfl⟩, rfl, rfl, rfl, rfl⟩ (ih (n + 1))

theorem tickets_tasks (n : Nat) (rs : List Errand) :
    (Errand.tasks n rs).map Task.id = List.range' n (Errand.tasks n rs).length := by
  induction rs generalizing n with
  | nil => rfl
  | cons u rs ih =>
    rw [Errand.tasks, List.map_cons, List.length_cons, List.range'_succ, ih]
    rfl

theorem queue_enqueueAll (e : Engine) (rs : List Errand) :
    (e.enqueueAll rs).server.queue =
      (Errand.tasks e.issued rs).foldl DueQueue.push e.server.queue := by
  induction rs generalizing e with
  | nil => rfl
  | cons u rs ih => exact ih (e.enqueue u)

/-- Only timer firings are indexed. -/
theorem pending_enqueueAll {rs : List Errand} (untimed : ∀ u ∈ rs, u.duty.timer? = none) :
    (e.enqueueAll rs).pending = e.pending := by
  refine enqueueAll_keeps (P := fun r => r.pending = e.pending) (fun {_ u} untimed same => ?_)
    rfl untimed
  simp only [enqueue, untimed, same]

/-- Actions are not indexed. -/
theorem pending_fanOut (now : Instant) :
    (fanOut now lineage parent actions e).pending = e.pending := by
  rw [fanOut_eq]
  refine pending_enqueueAll fun u hu => ?_
  obtain ⟨a, -, queued⟩ := List.mem_filterMap.mp hu
  obtain ⟨target, -, rfl⟩ := Option.map_eq_some_iff.mp queued
  rfl

theorem exists_fannedOut (devices : start.outages.devices = none)
    (scenes : start.outages.scenes = none) (parent : Ticket) (lineage : List SceneId)
    (actions : List Action) : ∃ children, FannedOut start parent lineage actions children
      (fanOut start.now lineage parent actions start) := by
  let rs := actions.filterMap (start.errand? start.now lineage parent)
  have pending : (fanOut start.now lineage parent actions start).pending = start.pending :=
    pending_fanOut start.now
  rw [fanOut_eq] at pending ⊢
  refine ⟨Errand.tasks start.issued rs, carries_tasks devices scenes _, tickets_tasks _ _,
    queue_enqueueAll start rs, tasks_enqueueAll start rs, ?_⟩
  have frame := enqueueAll_frame start rs
  rw [pending] at frame
  rw [frame]
  exact .refl _

theorem FannedOut.beside {children : List EngineTask}
    (h : FannedOut start parent lineage actions children e) (near : Beside e r) :
    FannedOut start parent lineage actions children r := by
  have same := h.rest.trans near
  obtain ⟨network, journal, entries, rfl⟩ := near
  exact ⟨h.each, h.tickets, h.pushed, h.queue, same⟩

theorem Beside.forgetPending (near : Beside e r) (scene : SceneId) (task : Ticket) :
    Beside (e.forgetPending scene task) (r.forgetPending scene task) := by
  obtain ⟨network, journal, entries, rfl⟩ := near
  refine ⟨network, journal, entries, ?_⟩
  simp only [Engine.forgetPending]
  split <;> rfl

/-- The body of a task was carried out, and the journal kept before and after it. -/
def CarriedOut (others : Engine → Engine → Prop) (t : EngineTask) (e : Engine)
    (result : TaskResult) (r : Engine) : Prop :=
  ∃ first last, Beside e first ∧ (body t.body t.handle).Ends others first result last ∧
    Beside last r

theorem CarriedOut.journaled {t : EngineTask} {inner : Task.Run (Work Engine) Ticket}
    (h : ∀ {e result r}, (inner t.handle).Ends others e result r → CarriedOut others t e result r)
    {target : Target} {result : TaskResult}
    (ends : (journaled target inner t.handle).Ends others e result r) :
    CarriedOut others t e result r := by
  rw [Engine.journaled, Work.ends_look, Work.ends_put] at ends
  obtain ⟨answer, m, inside, closed⟩ := ends.of_bind
  obtain ⟨first, last, before, course, after⟩ := h inside
  rw [Work.ends_look, Work.ends_put, Work.ends_done] at closed
  obtain ⟨rfl, rfl⟩ := closed
  exact ⟨first, last, (beside_recordStart e t.handle target).trans before, course,
    after.trans (beside_recordResult m t.handle result)⟩

theorem ends_perform {t : EngineTask} {result : TaskResult}
    (ends : (perform t).Ends others e result r) : CarriedOut others t e result r := by
  have wrapped : ∀ (ws : List Target) (inner : Task.Run (Work Engine) Ticket),
      (∀ {e result r}, (inner t.handle).Ends others e result r →
        CarriedOut others t e result r) →
      (ws.foldl (fun inner w => Engine.journaled w inner) inner t.handle).Ends others e result r →
      CarriedOut others t e result r := by
    intro ws
    induction ws with
    | nil => exact fun inner h ends => h ends
    | cons w ws ih => exact fun inner h => ih (Engine.journaled w inner) (.journaled h)
  exact wrapped t.wrappers (body t.body) (fun ends => ⟨_, _, .refl _, ends, .refl _⟩) ends

/-- A firing ends when it has been decided whether its scene acts, and queues the actions then. -/
theorem ends_fire {h : Handle Ticket} {scene : SceneId} {timed : Bool} {s : Scene}
    {result : TaskResult} (loaded : e.loadScene scene = .ok s)
    (ends : (fire h scene lineage timed).Ends others e result r) : ∃ yes start,
      (acts s timed).Ends others (e.forgetPending scene h.id) yes start ∧ result = .ok () ∧
      r = if yes then fanOut start.now (lineage ++ [scene]) h.id s.actions start else start := by
  have load : (e.forgetPending scene h.id).loadScene scene = .ok s := by
    rw [forgetPending_frame]
    exact loaded
  rw [fire, Work.ends_look, Work.ends_put, load] at ends
  obtain ⟨yes, start, judged, ends⟩ := ends.of_bind
  refine ⟨yes, start, judged, ?_⟩
  cases yes with
  | true =>
    rw [if_pos rfl, Work.ends_look, Work.ends_put, Work.ends_done] at ends
    exact ends
  | false =>
    rw [if_neg Bool.false_ne_true, Work.ends_done] at ends
    exact ends

/-- A firing of a scene that can be read succeeds. By the time it is decided whether the scene acts,
the firing has left the index, and all other changes were made by others while it waited for
devices. If the scene acts, its actions fan out, else nothing is queued. -/
theorem firing_fans_out {t : EngineTask} {scene : SceneId} {timed : Bool} {s : Scene}
    {result : TaskResult} (fires : t.body = .fire scene lineage timed)
    (loaded : e.loadScene scene = .ok s) (ends : (perform t).Ends others e result r) :
    result = .ok () ∧ ∃ first yes start, Beside (e.forgetPending scene t.id) first ∧
      (acts s timed).Ends others first yes start ∧ Relation.ReflTransGen others first start ∧
      if yes then start.outages.devices = none → start.outages.scenes = none →
        ∃ children, FannedOut start t.id (lineage ++ [scene]) s.actions children r
      else Beside start r := by
  obtain ⟨e', last, before, ends, after⟩ := ends_perform ends
  have load : e'.loadScene scene = .ok s := by
    obtain ⟨network, journal, entries, rfl⟩ := before
    exact loaded
  rw [fires] at ends
  obtain ⟨yes, start, judged, rfl, rfl⟩ := ends_fire load ends
  refine ⟨rfl, e'.forgetPending scene t.id, yes, start, before.forgetPending scene t.id, judged,
    judged.by_others (acts_within s timed _), ?_⟩
  cases yes with
  | true =>
    intro devices scenes
    obtain ⟨children, fannedOut⟩ :=
      exists_fannedOut devices scenes t.id (lineage ++ [scene]) s.actions
    exact ⟨children, fannedOut.beside after⟩
  | false => exact after

/-- A scene fires that runs one which is not stored and then, after a minute, one which is deleted:
there is one task, for the second one. -/
theorem fans_out_past_missing :
    let minute : TimeOfDay := ⟨60, 0, by decide, by decide⟩
    let run (delay : UInt32) (n : Nat) : Action := ⟨.ofNat 0, delay, .run ⟨.ofNat n⟩⟩
    let s : Scene := { relay ⟨.ofNat 1⟩ ⟨.ofNat 1⟩ with actions := [run 0 2, run 60 3] }
    let gone : Scene := { relay ⟨.ofNat 3⟩ ⟨.ofNat 1⟩ with deletedAt := some default }
    let e := ofParts {} ⟨⟨0, .midnight⟩, 0⟩ ⟨⟨[(s.id, s), (gone.id, gone)]⟩⟩ {} default default
    let t : EngineTask := (firing s ⟨0, .midnight⟩ [] false none).task 7
    ∃ u, ((perform t).run e).2.server.queue.tasks = [u] ∧ u.due = ⟨0, minute⟩ ∧
      u.handle.parent = some 7 ∧ u.wrappers = [gone.target] ∧
      u.body = .act (.run gone.id) [s.id] := by
  intro minute run s gone e t
  have loaded : e.loadScene s.id = .ok s := rfl
  obtain ⟨-, first, yes, start, before, judged, -, fans⟩ :=
    firing_fans_out (t := t) rfl loaded (Work.ends_run (perform t) e)
  obtain ⟨rfl, rfl⟩ : yes = true ∧ start = first := Work.ends_done.mp judged
  obtain ⟨network, journal, entries, rfl⟩ := before
  obtain ⟨children, out⟩ := fans rfl rfl
  have each : List.Forall₂ _ [run 60 3] children := out.each
  obtain ⟨u, _, carries, none, rfl⟩ := List.forall₂_cons_left_iff.mp each
  obtain rfl := List.forall₂_nil_left_iff.mp none
  obtain ⟨target, recorded, wrapped⟩ := carries.target
  have later : (if (e.now.shift (run 60 3).delayNanos).isStorable
      then e.now.shift (run 60 3).delayNanos else e.now) = ⟨0, minute⟩ := by
    decide +kernel
  have due : u.due = _ := carries.due.trans later
  refine ⟨u, List.perm_singleton.mp out.queue, due, carries.line, ?_, carries.body⟩
  rw [wrapped, ← Option.some.inj recorded]

end HomeScenes.Engine
