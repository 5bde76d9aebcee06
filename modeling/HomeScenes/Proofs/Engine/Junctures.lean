import HomeScenes.Proofs.Engine.Interleaving

/-!
# What is known at a juncture

Junctures that an engine gets to, whatever turns it took. Tasks may wait in their pauses there, and
others may have been handed out. The index notes the timer firings that are queued, or have been
handed out and have not begun, and no others.
-/

namespace HomeScenes

namespace Engine

structure Forgotten (id : Ticket) (e : Engine) : Prop where
  issued : id < e.issued
  unknown : ∀ scene, id ∉ e.noted scene

variable {id own : Ticket} {e r : Engine} {handed others : List EngineTask} {t : EngineTask}

theorem Forgotten.congr (h : Forgotten id e) (pending : r.pending = e.pending)
    (issued : r.issued = e.issued) : Forgotten id r where
  issued := issued ▸ h.issued
  unknown scene := by
    rw [noted, pending]
    exact h.unknown scene

theorem Forgotten.enqueue (h : Forgotten id e) (u : Errand) : Forgotten id (e.enqueue u) where
  issued := Nat.lt_succ_of_lt h.issued
  unknown scene member := by
    rw [noted_enqueue] at member
    split at member
    · rcases List.mem_append.mp member with old | new
      · exact h.unknown scene old
      · exact Nat.ne_of_lt h.issued (List.mem_singleton.mp new)
    · exact h.unknown scene member

theorem Forgotten.dropFirings (h : Forgotten id e) (scene : SceneId) :
    Forgotten id (e.dropFirings scene).2 := by
  rw [dropFirings_frame]
  refine ⟨h.issued, fun other member => ?_⟩
  simp only [noted, Table.find?_erase] at member
  split at member
  · cases member
  · exact h.unknown other member

theorem Forgotten.forgetPending (h : Forgotten id e) (scene : SceneId) (task : Ticket) :
    Forgotten id (e.forgetPending scene task) where
  issued := by
    rw [forgetPending_frame]
    exact h.issued
  unknown other member := by
    rw [noted_forgetPending] at member
    split at member
    · exact h.unknown other (List.mem_filter.mp member).1
    · exact h.unknown other member

theorem forgotten_rooted (id : Ticket) : Rooted (Forgotten id) where
  drop scene h := h.dropFirings scene
  armed h _ := h.congr rfl rfl
  deleted h _ := h.congr rfl rfl
  aside h _ _ _ _ := h.congr rfl rfl
  root _ h := h.enqueue _

theorem Forgotten.event (h : Forgotten id e) {event : Event} (outer : event.Outer) :
    Forgotten id (Moment.happen ⟨e, handed⟩ event).engine := by
  have happens := happens ⟨e, handed⟩ event
  generalize Moment.happen ⟨e, handed⟩ event = m at happens ⊢
  cases happens with
  | within outer closed kept => exact kept (forgotten_rooted id) h
  | opened outer opens kept => exact (kept (forgotten_rooted id) h).enqueue _
  | around => exact h.congr rfl rfl
  | tick => exact outer.elim
  | run place => exact outer.elim

theorem Forgotten.steps (h : Forgotten id e) (steps : Steps own e r) : Forgotten id r := by
  induction steps with
  | refl => exact h
  | forget before scene ih => exact ih.forgetPending scene own
  | queue before line ih => exact ih.enqueue _
  | drop before scene ih => exact ih.dropFirings scene
  | armed before set ih => exact ih.congr rfl rfl
  | request before device c ih => exact ih.congr rfl rfl

/-- The steps of a task change what is stored by arming and disarming. -/
theorem Storing.steps {P : SceneStore → Prop} {may : Scene → Prop} (storing : Storing P may)
    (h : P e.scenes) (steps : Steps own e r) : P r.scenes := by
  induction steps with
  | refl => exact h
  | forget before scene ih =>
    rw [forgetPending_frame]
    exact ih
  | queue before line ih => exact ih
  | drop before scene ih =>
    rw [dropFirings_frame]
    exact ih
  | armed before set ih => exact storing.armed ih set
  | request before device c ih => exact ih

/-- The first thing that a timer firing does is to leave the index. No other task is in it. -/
theorem Consistent.leaves (h : Consistent e handed) (here : t ∈ handed) :
    ∃ r, Steps t.id e r ∧ Forgotten t.id r ∧
      Steps t.id r ((body t.body t.handle).advance e).2 := by
  have issued : t.id < e.issued := h.issued t (List.mem_append_right _ here)
  cases timed : t.body.timer? with
  | none =>
    refine ⟨e, .refl, ⟨issued, fun scene member => ?_⟩,
      (Steps.of_advance (body_within t.body t.handle e)).1⟩
    obtain ⟨u, hu, same, timer⟩ := h.known scene t.id member
    rw [h.same hu (List.mem_append_right _ here) same, timed] at timer
    cases timer
  | some scene =>
    obtain ⟨lineage, duty⟩ : ∃ lineage, t.body = .fire scene lineage true := by
      cases body : t.body with
      | fire other lineage timed' =>
        cases timed' <;> rw [body] at timed <;> cases timed
        exact ⟨lineage, rfl⟩
      | act kind lineage => rw [body] at timed; cases timed
      | arrange time => rw [body] at timed; cases timed
    have only : ∀ other, t.body.timer? = some other → other = scene :=
      fun other own => Option.some.inj (own.symm.trans timed)
    refine ⟨e.forgetPending scene t.id, .forget .refl scene, ⟨?_, h.not_noted here only⟩, ?_⟩
    · rw [forgetPending_frame]
      exact issued
    · rw [duty]
      exact (Steps.of_advance (fire_within t.handle scene lineage true e).2).1

/-- Tasks that left the index may be let go. -/
theorem Consistent.letGo (h : Consistent e (handed ++ others))
    (left : ∀ t ∈ others, Forgotten t.id e) : Consistent e handed where
  valid := h.valid
  distinct := by
    have sub : List.Sublist (e.server.queue.tasks ++ handed)
        (e.server.queue.tasks ++ (handed ++ others)) :=
      (List.sublist_append_left handed others).append_left _
    exact h.distinct.sublist (sub.map Task.id)
  issued t ht := by
    refine h.issued t ?_
    rw [← List.append_assoc]
    exact List.mem_append_left _ ht
  queued := h.queued
  known scene id member := by
    obtain ⟨t, ht, rfl, timed⟩ := h.known scene id member
    rw [← List.append_assoc] at ht
    rcases List.mem_append.mp ht with here | gone
    · exact ⟨t, here, rfl, timed⟩
    · exact absurd member ((left t gone).unknown scene)

end Engine

namespace Juncture

open Engine

variable {j : Juncture} {t : EngineTask} {id : Ticket}

def AllLeft (j : Juncture) : Prop :=
  ∀ t ∈ j.begun, Forgotten t.id j.engine

theorem begun_goOn (t : EngineTask) (w : Work Engine TaskResult) :
    (j.goOn t w).begun.Perm (t :: j.begun) := by
  rw [goOn]
  split
  · exact end_perm j.waiting j.ended t _
  · rename_i nanos rest e advanced
    have last := List.perm_append_singleton (t, rest) j.waiting
    exact (last.map Prod.fst).append_right _

/-- A task that goes on takes its steps, and tells the journal if it ends. -/
theorem forgotten_goOn {rest : Work Engine TaskResult}
    (h : Forgotten id (rest.advance j.engine).2) :
    Forgotten id (j.goOn t (rest.bind (close t.handle))).engine := by
  rw [goOn, Work.advance_bind]
  generalize rest.advance j.engine = answer at h ⊢
  obtain ⟨result | ⟨nanos, more⟩, e⟩ := answer
  · have closed : Forgotten id (e.recordResult t.handle result) := by
      rw [recordResult_eq]
      exact h.congr rfl rfl
    exact closed
  · exact h

theorem Sound.allLeft_happen (h : j.Sound) (left : j.AllLeft) (turn : Turn) :
    (j.happen perform turn).AllLeft := by
  cases turn with
  | event event outer => exact fun t begun => (left t begun).event outer
  | tick =>
    intro t begun
    have same : Forgotten t.id (Moment.handOut ⟨j.engine, j.handed⟩).engine := by
      rw [Moment.handOut]
      split <;> exact (left t begun).congr rfl rfl
    exact same
  | begin place =>
    rw [Juncture.happen]
    split
    · rename_i t found
      have here : t ∈ j.handed := List.mem_of_getElem? found
      obtain ⟨target, wrapped⟩ := h.wrapped t (List.mem_append_right _ here)
      have started : Consistent (j.engine.recordStart t.handle target) (j.handed ++ j.begun) := by
        rw [recordStart_eq]
        exact h.consistent.congr rfl rfl rfl
      obtain ⟨r, before, gone, after⟩ := started.leaves (List.mem_append_left _ here)
      intro u begun
      rw [perform_eq wrapped]
      refine forgotten_goOn (j := { j with
        engine := j.engine.recordStart t.handle target, handed := j.handed.eraseIdx place }) ?_
      rcases List.mem_cons.mp ((begun_goOn t _).mem_iff.mp begun) with rfl | old
      · exact gone.steps after
      · refine (Forgotten.steps ?_ before).steps after
        refine (left u old).congr ?_ ?_ <;> rw [recordStart_eq]
    · exact left
  | resume place =>
    rw [Juncture.happen]
    split
    · rename_i t w found
      obtain ⟨rest, rfl, within⟩ := h.rests t w (List.mem_of_getElem? found)
      intro u begun
      have known : Forgotten u.id j.engine := by
        refine left u ((begun_perm (picked_perm found)).mem_iff.mpr ?_)
        exact (begun_goOn t _).mem_iff.mp begun
      refine forgotten_goOn (j := { j with waiting := j.waiting.eraseIdx place }) ?_
      exact known.steps (Steps.of_advance (within j.engine)).1
    · exact left

/-- Whatever turns an engine takes, scenes are stored by the operations of the store alone. -/
theorem Sound.storing {P : SceneStore → Prop} {may : Scene → Prop} (h : j.Sound)
    (storing : Storing P may) (holds : P j.engine.scenes) (turns : List Turn)
    (ok : ∀ event outer, .event event outer ∈ turns → ∀ s, event = .move (.save s) → may s) :
    P (turns.foldl (Juncture.happen perform) j).engine.scenes := by
  have kept : ∀ a b : Juncture, a.Sound →
      Passes (fun event => ∀ s, event = .move (.save s) → may s) a b →
      P a.engine.scenes → P b.engine.scenes := by
    intro a b sound passes holds
    cases passes with
    | event outer ok => exact storing.happen holds ok
    | look valid same => exact holds
    | handOut valid taken => exact holds
    | start found wrapped =>
      rw [recordStart_eq]
      exact holds
    | pause waits advanced steps goesOn => exact storing.steps holds steps
    | finish waits advanced steps =>
      have moved := storing.steps holds steps
      rw [recordResult_eq]
      exact moved
  exact (h.run kept holds turns ok).2

inductive Reached : Juncture → Prop where
  | fresh (settings : Engine.Settings) (clock : LocalTime) (scenes : SceneStore)
      (devices : DeviceStore) (network : Network) (journal : Journal Ticket) :
      Reached (fresh settings clock scenes devices network journal)
  | turn {j : Juncture} (before : Reached j) (turn : Turn) : Reached (j.happen perform turn)

theorem Reached.sound (h : j.Reached) : j.Sound := by
  induction h with
  | fresh settings clock scenes devices network journal => exact sound_fresh _ _ _ _ _ _
  | turn before turn ih => exact ih.happen turn

theorem Reached.allLeft (h : j.Reached) : j.AllLeft := by
  induction h with
  | fresh settings clock scenes devices network journal => rintro t ⟨⟩
  | turn before turn ih => exact before.sound.allLeft_happen ih turn

/-- The index notes what is queued or was handed out and has not begun. -/
theorem Reached.consistent (h : j.Reached) : Consistent j.engine j.handed :=
  h.sound.consistent.letGo h.allLeft

end Juncture

end HomeScenes
