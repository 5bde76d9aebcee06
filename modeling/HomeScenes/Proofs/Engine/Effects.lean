import HomeScenes.Engine.Run
import HomeScenes.Engine.Upkeep
import HomeScenes.Proofs.Work

/-!
# What running a task does

Running a task keeps the journal and may talk to devices. Apart from that it does what its
duty says: a firing leaves the index and queues the actions of its scene if the scene acts,
and an action schedules, arms or disarms a scene.
-/

namespace HomeScenes

namespace Work

variable {σ α β : Type}

theorem run_bind (w : Work σ α) (f : α → Work σ β) (s : σ) :
    (w.bind f).run s = (f (w.run s).1).run (w.run s).2 := by
  induction w generalizing s with
  | done a => rfl
  | look next ih => exact ih s s
  | put r next ih => exact ih r
  | pause nanos next ih => exact ih s

/-- Work that leaves the state as it is. -/
def Quiet (w : Work σ α) : Prop :=
  ∀ s, (w.run s).2 = s

theorem Quiet.of_within {w : Work σ α} (within : ∀ s, w.Within Eq s) : w.Quiet :=
  fun s => ((within s).run (fun _ => rfl) fun _ _ _ => Eq.trans).symm

end Work

namespace Engine

section Looking

variable {G : Engine → Engine → Prop}

theorem statusHolds_within (device : DeviceId) (attr : AttributeRef) (comparison : Comparison)
    (expected : AttributeValue) (e : Engine) :
    (statusHolds device attr comparison expected).Within G e := by
  rw [statusHolds, Work.Within]
  split
  · split
    · exact fun _ => trivial
    · trivial
  · trivial

theorem conditionHolds_within (timed : Bool) (c : Condition) (e : Engine) :
    (conditionHolds timed c).Within G e := by
  rw [conditionHolds]
  split
  · trivial
  · exact statusHolds_within _ _ _ _ e

theorem allHold_within (timed : Bool) (cs : List Condition) (e : Engine) :
    (allHold timed cs).Within G e := by
  induction cs generalizing e with
  | nil => trivial
  | cons c cs ih =>
    refine (conditionHolds_within timed c e).bind fun b r => ?_
    cases b with
    | true => exact ih r
    | false => trivial

theorem anyHolds_within (timed : Bool) (cs : List Condition) (e : Engine) :
    (anyHolds timed cs).Within G e := by
  induction cs generalizing e with
  | nil => trivial
  | cons c cs ih =>
    refine (conditionHolds_within timed c e).bind fun b r => ?_
    cases b with
    | true => trivial
    | false => exact ih r

theorem satisfied_within (s : Scene) (now : LocalTime) (timed : Bool) (e : Engine) :
    (satisfied s now timed).Within G e := by
  rw [satisfied]
  split
  · trivial
  · split
    · trivial
    · split
      · exact allHold_within timed s.conditions e
      · exact anyHolds_within timed s.conditions e

/-- Looking at a scene and at conditions makes no step. -/
theorem acts_within (s : Scene) (timed : Bool) (e : Engine) : (acts s timed).Within G e := by
  rw [acts]
  split
  · exact satisfied_within s e.clock timed e
  · trivial

end Looking

theorem acts_quiet (s : Scene) (timed : Bool) : (acts s timed).Quiet :=
  .of_within (acts_within s timed)

/-- The same engine, but for devices and the journal. -/
def Beside (e r : Engine) : Prop :=
  ∃ network journal entries, r = { e with network := network, journal := journal, entries := entries }

theorem Beside.refl (e : Engine) : Beside e e :=
  ⟨e.network, e.journal, e.entries, rfl⟩

theorem Beside.trans {a b c : Engine} (hab : Beside a b) (hbc : Beside b c) : Beside a c := by
  obtain ⟨n, j, es, rfl⟩ := hab
  obtain ⟨n', j', es', rfl⟩ := hbc
  exact ⟨n', j', es', rfl⟩

theorem beside_recordStart (e : Engine) (h : Handle Ticket) (target : Target) :
    Beside e (e.recordStart h target) := by
  rw [recordStart]
  split
  · exact ⟨_, _, _, rfl⟩
  · exact ⟨_, _, _, rfl⟩

theorem beside_recordResult (e : Engine) (h : Handle Ticket) (result : TaskResult) :
    Beside e (e.recordResult h result) := by
  unfold recordResult
  dsimp only
  split
  · exact ⟨_, _, _, rfl⟩
  · split
    · exact ⟨_, _, _, rfl⟩
    · exact ⟨_, _, _, rfl⟩

theorem beside_control (device : DeviceId) (cs : List Command) (e : Engine) :
    Beside e ((control device cs).run e).2 := by
  induction cs generalizing e with
  | nil => exact .refl e
  | cons c cs ih =>
    rw [control, Work.run]
    split
    · exact .refl e
    · exact .refl e
    · split
      · exact .refl e
      · exact ⟨_, _, _, rfl⟩
      · rename_i network _
        have moved : Beside e { e with network := network } := ⟨_, _, _, rfl⟩
        exact moved.trans (ih _)

/-- What a duty does to the engine; `yes` says whether a fired scene acts. -/
def effect (e : Engine) (h : Handle Ticket) (yes : Bool) : Duty → Engine
  | .fire scene lineage _ =>
    match (e.forgetPending scene h.id).loadScene scene with
    | .error _ => e.forgetPending scene h.id
    | .ok s =>
      if yes then fanOut e.now (lineage ++ [scene]) h.id s.actions (e.forgetPending scene h.id)
      else e.forgetPending scene h.id
  | .act (.control ..) _ => e
  | .act (.run scene) lineage => (e.runScene h scene lineage).2
  | .act (.enable scene) _ => (e.arm scene).2
  | .act (.disable scene) _ => (e.disarm scene).2
  | .arrange time => (e.arrange time).2

theorem forgetPending_now (e : Engine) (scene : SceneId) (task : Ticket) :
    (e.forgetPending scene task).now = e.now := by
  rw [forgetPending]
  split <;> rfl

theorem run_body (d : Duty) (h : Handle Ticket) (e : Engine) :
    ∃ yes, Beside (e.effect h yes d) ((body d h).run e).2 := by
  cases d with
  | fire scene lineage timed =>
    rw [body, fire, Work.run, Work.run]
    simp only [effect]
    cases loaded : (e.forgetPending scene h.id).loadScene scene with
    | error failure => exact ⟨true, .refl _⟩
    | ok s =>
      simp only [Work.run_bind, acts_quiet s timed (e.forgetPending scene h.id)]
      refine ⟨((acts s timed).run (e.forgetPending scene h.id)).1, ?_⟩
      split
      · rw [← forgetPending_now e scene h.id]
        exact .refl _
      · exact .refl _
  | act kind lineage =>
    cases kind with
    | control device commands => exact ⟨true, beside_control device commands e⟩
    | run scene => exact ⟨true, .refl _⟩
    | enable scene => exact ⟨true, .refl _⟩
    | disable scene => exact ⟨true, .refl _⟩
  | arrange time => exact ⟨true, .refl _⟩

/-- Running a task runs its body, with the journal kept before and after it. -/
theorem run_perform_body (t : EngineTask) (e : Engine) :
    ∃ start, Beside e start ∧
      ((perform t).run e).1 = ((body t.body t.handle).run start).1 ∧
      Beside ((body t.body t.handle).run start).2 ((perform t).run e).2 := by
  rw [perform, Task.run]
  suffices wrapped : ∀ (ws : List Target) (inner : Task.Run (Work Engine) Ticket),
      (∀ e, ∃ start, Beside e start ∧
        ((inner t.handle).run e).1 = ((body t.body t.handle).run start).1 ∧
        Beside ((body t.body t.handle).run start).2 ((inner t.handle).run e).2) →
      ∀ e, ∃ start, Beside e start ∧
        ((ws.foldl (fun inner w => journaled w inner) inner t.handle).run e).1 =
          ((body t.body t.handle).run start).1 ∧
        Beside ((body t.body t.handle).run start).2
          ((ws.foldl (fun inner w => journaled w inner) inner t.handle).run e).2 from
    wrapped t.wrappers (body t.body) (fun e => ⟨e, .refl e, rfl, .refl _⟩) e
  intro ws
  induction ws with
  | nil => exact fun inner h => h
  | cons w ws ih =>
    intro inner h
    refine ih (journaled w inner) fun e => ?_
    obtain ⟨start, before, result, after⟩ := h (e.recordStart t.handle w)
    rw [journaled, Work.run, Work.run, Work.run_bind]
    exact ⟨start, (beside_recordStart e t.handle w).trans before, result,
      after.trans (beside_recordResult _ t.handle _)⟩

/-- Running a task has the effect of its duty. -/
theorem run_perform (t : EngineTask) (e : Engine) :
    ∃ start yes, Beside e start ∧
      Beside (start.effect t.handle yes t.body) ((perform t).run e).2 := by
  obtain ⟨start, before, -, after⟩ := run_perform_body t e
  obtain ⟨yes, effect⟩ := run_body t.body t.handle start
  exact ⟨start, yes, before, effect.trans after⟩

end Engine

end HomeScenes
