import HomeScenes.Proofs.Engine.Pending
import HomeScenes.Proofs.Work

/-!
# Steps of a task

While a task runs it may pause, and others may run in its pauses. Between them it takes steps of
few kinds only: it leaves the index, queues firings that no task has led to or children of its own,
drops timer firings, arms or disarms a scene, and sends commands to devices.
-/

namespace HomeScenes.Engine

/-- What the task with a ticket may make of an engine before it pauses. -/
inductive Steps (own : Ticket) (e : Engine) : Engine → Prop where
  | refl : Steps own e e
  | forget {r : Engine} (before : Steps own e r) (scene : SceneId) :
      Steps own e (r.forgetPending scene own)
  | queue {r : Engine} (before : Steps own e r) {u : Errand}
      (line : u.parent = none ∨ u.parent = some own) : Steps own e (r.enqueue u)
  | drop {r : Engine} (before : Steps own e r) (scene : SceneId) :
      Steps own e (r.dropFirings scene).2
  | armed {r : Engine} (before : Steps own e r) {scene : SceneId} {armed : Bool}
      {scenes : SceneStore} (set : r.scenes.setArmed scene armed = .ok scenes) :
      Steps own e { r with scenes := scenes }
  | request {r : Engine} (before : Steps own e r) (device : DeviceId) (c : Command) :
      Steps own e { r with network := (r.network.set device [c] r.now).2 }

variable {own : Ticket} {e r : Engine}

theorem Steps.trans {s : Engine} (hr : Steps own e r) (hs : Steps own r s) : Steps own e s := by
  induction hs with
  | refl => exact hr
  | forget before scene ih => exact ih.forget scene
  | queue before line ih => exact ih.queue line
  | drop before scene ih => exact ih.drop scene
  | armed before set ih => exact ih.armed set
  | request before device c ih => exact ih.request device c

/-- Work made of steps gets to its pause or its end by steps, and goes on like that. -/
theorem Steps.of_advance {α : Type} {w : Work Engine α} (within : w.Within (Steps own) e) :
    Steps own e (w.advance e).2 ∧
      ∀ nanos rest, (w.advance e).1 = .paused nanos rest → ∀ r, rest.Within (Steps own) r :=
  within.advance (fun _ => .refl) fun _ _ _ before after => before.trans after

/-- No step tells the journal anything, or changes anything else than queue, index, the arming of
scenes, and the network. -/
theorem Steps.frame (h : Steps own e r) : r = { e with
    scenes := r.scenes
    network := r.network
    server := r.server
    pending := r.pending
    issued := r.issued } := by
  induction h with
  | refl => rfl
  | forget before scene ih =>
    rw [forgetPending_frame, ih]
  | queue before line ih =>
    rw [ih]
    rfl
  | drop before scene ih =>
    rw [dropFirings_frame, ih]
  | armed before set ih => rw [ih]
  | request before device c ih => rw [ih]

theorem Steps.enqueueAll (h : Steps own e r) {rs : List Errand}
    (line : ∀ u ∈ rs, u.parent = none ∨ u.parent = some own) : Steps own e (r.enqueueAll rs) :=
  enqueueAll_keeps (P := Steps own e) (fun ok h => h.queue ok) h line

theorem Steps.addScene (h : Steps own e r) (s : Scene) : Steps own e (r.addScene s).2 := by
  rw [addScene_eq]
  exact h.enqueueAll fun u hu => .inl (sceneFirings_root u hu).1

theorem Steps.setArmed (h : Steps own e r) (scene : SceneId) (armed : Bool) :
    Steps own e (r.setArmed scene armed).2 := by
  rw [Engine.setArmed]
  split
  · exact h
  · split
    · exact h
    · rename_i set
      exact h.armed set

theorem Steps.arm (h : Steps own e r) (scene : SceneId) : Steps own e (r.arm scene).2 := by
  have armed := h.setArmed scene true
  rw [Engine.arm]
  generalize r.setArmed scene true = answer at armed ⊢
  obtain ⟨failure | done, s⟩ := answer
  · exact armed
  · dsimp only
    split
    · exact armed
    · dsimp only
      split
      · exact (armed.drop scene).addScene _
      · exact armed

theorem Steps.arrange (h : Steps own e r) (time : LocalTime) : Steps own e (r.arrange time).2 := by
  have next : Steps own e (r.enqueue (arrangement (time.addDays 1))) := h.queue (.inl rfl)
  simp only [Engine.arrange, addArrangement_eq]
  cases working : r.outages.scenes with
  | none =>
    have still : (r.enqueue (arrangement (time.addDays 1))).outages.scenes = none := working
    rw [addForDay_eq _ _ still]
    exact next.enqueueAll fun u hu => .inl (dayFirings_root u hu).1
  | some failure =>
    have still : (r.enqueue (arrangement (time.addDays 1))).outages.scenes = some failure := working
    rw [addForDay, still]
    exact next

section Queue

variable {handed : List EngineTask} {t : EngineTask}

theorem Steps.consistent (h : Steps t.id e r) (hc : Consistent e handed) (here : t ∈ handed) :
    Consistent r handed := by
  induction h with
  | refl => exact hc
  | forget before scene ih => exact ih.forgetPending here scene
  | queue before line ih => exact ih.enqueue _
  | drop before scene ih => exact (ih.dropFirings scene).1
  | armed before set ih => exact ih.congr rfl rfl rfl
  | request before device c ih => exact ih.congr rfl rfl rfl

/-- What is queued by the steps of a task are tasks with new tickets that it or nobody has led
to. -/
theorem Steps.tasks (h : Steps t.id e r) (hc : Consistent e handed) (here : t ∈ handed) :
    e.issued ≤ r.issued ∧ ∀ v ∈ r.server.queue.tasks, v ∈ e.server.queue.tasks ∨
      ∃ (u : Errand) (i : Ticket), e.issued ≤ i ∧ v = u.task i ∧
        (u.parent = none ∨ u.parent = some t.id) := by
  induction h with
  | refl => exact ⟨Nat.le_refl _, fun v hv => .inl hv⟩
  | forget before scene ih =>
    rw [forgetPending_frame]
    exact ih
  | @queue r before u line ih =>
    refine ⟨Nat.le_succ_of_le ih.1, fun v hv => ?_⟩
    rcases List.mem_cons.mp ((DueQueue.tasks_push r.server.queue _).mem_iff.mp hv) with rfl | hv
    · exact .inr ⟨u, r.issued, ih.1, rfl, line⟩
    · exact ih.2 v hv
  | @drop r before scene ih =>
    obtain ⟨-, left⟩ := (before.consistent hc here).dropFirings scene
    refine ⟨?_, fun v hv => ih.2 v (List.mem_filter.mp (left.mem_iff.mp hv)).1⟩
    rw [dropFirings_frame]
    exact ih.1
  | armed before set ih => exact ih
  | request before device c ih => exact ih

/-- The steps of a task leave the children of other tasks in the queue, unless they are timer
firings. -/
theorem Steps.children (h : Steps t.id e r) (hc : Consistent e handed) (here : t ∈ handed)
    {p : Ticket} (other : p ≠ t.id)
    (untimed : ∀ v ∈ e.server.queue.tasks, v.handle.parent = some p → v.body.timer? = none) :
    (r.server.queue.tasks.filter fun v => v.handle.parent = some p).Perm
      (e.server.queue.tasks.filter fun v => v.handle.parent = some p) := by
  induction h with
  | refl => exact .refl _
  | forget before scene ih =>
    rw [forgetPending_frame]
    exact ih
  | @queue r before u line ih =>
    refine ((DueQueue.tasks_push r.server.queue _).filter _).trans ?_
    rw [List.filter_cons_of_neg]
    · exact ih
    · have apart : u.parent ≠ some p := by
        rcases line with none | own
        · rw [none]
          exact (Option.some_ne_none p).symm
        · rw [own]
          exact fun same => other (Option.some.inj same).symm
      exact fun same => apart (of_decide_eq_true same)
  | @drop r before scene ih =>
    obtain ⟨-, left⟩ := (before.consistent hc here).dropFirings scene
    refine (left.filter _).trans (.trans (.of_eq ?_) ih)
    rw [List.filter_filter]
    refine List.filter_congr fun v hv => ?_
    by_cases child : v.handle.parent = some p
    · have old : v ∈ e.server.queue.tasks := by
        have kept : v ∈ r.server.queue.tasks.filter fun v => v.handle.parent = some p :=
          List.mem_filter.mpr ⟨hv, decide_eq_true child⟩
        exact (List.mem_filter.mp (ih.mem_iff.mp kept)).1
      simp [child, untimed v old child]
    · simp [child]
  | armed before set ih => exact ih
  | request before device c ih => exact ih

end Queue

theorem control_within (device : DeviceId) (cs : List Command) (e : Engine) :
    (control device cs).Within (Steps own) e := by
  induction cs generalizing e with
  | nil => trivial
  | cons c cs ih =>
    rw [control, Work.Within]
    split
    · trivial
    · trivial
    · have requested : Steps own e { e with network := (e.network.set device [c] e.now).2 } :=
        Steps.refl.request device c
      split
      · exact fun _ => trivial
      · rename_i set
        rw [set] at requested
        exact ⟨requested, trivial⟩
      · rename_i set
        rw [set] at requested
        exact ⟨requested, ih _⟩

theorem fire_within (h : Handle Ticket) (scene : SceneId) (lineage : List SceneId) (timed : Bool)
    (e : Engine) : (fire h scene lineage timed).Within (Steps h.id) e := by
  refine ⟨.forget .refl scene, ?_⟩
  split
  · trivial
  · refine (acts_within _ timed _).bind fun yes r => ?_
    split
    · refine ⟨?_, trivial⟩
      rw [fanOut_eq]
      refine Steps.refl.enqueueAll fun u hu => .inr ?_
      obtain ⟨a, -, queued⟩ := List.mem_filterMap.mp hu
      obtain ⟨target, -, rfl⟩ := Option.map_eq_some_iff.mp queued
      rfl
    · trivial

theorem runScene_steps (e : Engine) (h : Handle Ticket) (scene : SceneId)
    (lineage : List SceneId) : Steps h.id e (e.runScene h scene lineage).2 := by
  rw [runScene_eq]
  split
  · exact .refl
  · split
    · exact .refl
    · exact .queue .refl (.inr rfl)

/-- The body of a task takes such steps from pause to pause. -/
theorem body_within (d : Duty) (h : Handle Ticket) (e : Engine) :
    (body d h).Within (Steps h.id) e := by
  cases d with
  | fire scene lineage timed => exact fire_within h scene lineage timed e
  | arrange time => exact ⟨.arrange .refl time, trivial⟩
  | act kind lineage =>
    cases kind with
    | control device commands => exact control_within device commands e
    | run scene => exact ⟨runScene_steps e h scene lineage, trivial⟩
    | enable scene => exact ⟨.arm .refl scene, trivial⟩
    | disable scene => exact ⟨.setArmed (.drop .refl scene) scene false, trivial⟩

end HomeScenes.Engine
