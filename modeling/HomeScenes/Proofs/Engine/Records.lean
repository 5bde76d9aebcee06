import HomeScenes.Proofs.Engine.History
import HomeScenes.Proofs.Journal

/-!
# The journal around a task

Every task that is queued is wrapped once, so that the journal is told when it starts and how it
ends. A journal that is out of order misses both.
-/

namespace HomeScenes.Engine

variable {e : Engine} {m : Moment} {past : List (Moment × Event)}

def failureText : TaskResult → Option String
  | .ok _ => none
  | .error failure => some failure.message

/-- The journal is told of a start, and takes it down unless it is out of order. -/
theorem recordStart_eq (e : Engine) (h : Handle Ticket) (target : Target) :
    e.recordStart h target =
      { e with
        journal := match e.outages.journal with
          | some _ => e.journal
          | none => e.journal.start h.id h.parent target e.now
        entries := e.entries ++ [.started h.id h.parent target] } := by
  rw [recordStart]
  cases e.outages.journal <;> rfl

/-- The journal is told of an end, and takes it down unless it is out of order or has no record of
the task. -/
theorem recordResult_eq (e : Engine) (h : Handle Ticket) (result : TaskResult) :
    e.recordResult h result =
      { e with
        journal := match e.outages.journal with
          | some _ => e.journal
          | none => (e.journal.finish? h.id (.ofResult result) (failureText result) e.now).getD
              e.journal
        entries := e.entries ++ [.ended h.id (.ofResult result) (failureText result)] } := by
  unfold recordResult
  dsimp only
  cases e.outages.journal with
  | some failure => rfl
  | none =>
    dsimp only
    split
    · rename_i after finished
      have finished : e.journal.finish? h.id (.ofResult result) (failureText result) e.now =
        some after := finished
      rw [finished]
      rfl
    · rename_i unknown
      have unknown : e.journal.finish? h.id (.ofResult result) (failureText result) e.now =
        none := unknown
      rw [unknown]
      rfl

/-- Keeping the journal for a task leaves the records of other tasks alone. -/
theorem others_recordResult {r : Engine} (h : Handle Ticket) (target : Target) (result : TaskResult)
    (journal : r.journal = (e.recordStart h target).journal) (outages : r.outages = e.outages) :
    e.journal.Others h.id h.parent (r.recordResult h result).journal := by
  rw [recordStart_eq] at journal
  rw [recordResult_eq]
  simp only [journal, outages]
  cases e.outages.journal with
  | some failure => exact .refl _ _ _
  | none =>
    dsimp only
    cases finished : (e.journal.start h.id h.parent target e.now).finish? h.id (.ofResult result)
        (failureText result) r.now with
    | none => exact Journal.others_start _ _ _ _ _
    | some after => exact Journal.others_finish? finished

def WrappedOnce (m : Moment) : Prop :=
  ∀ t ∈ m.engine.server.queue.tasks ++ m.handed, ∃ target, t.wrappers = [target]

theorem WrappedOnce.happen (h : WrappedOnce m) (hc : Consistent m.engine m.handed) (event : Event) :
    WrappedOnce (m.happen event) := by
  intro t ht
  rcases List.mem_append.mp ht with queued | handed
  · rcases (grown_happen hc event).tasks t queued with old | ⟨r, i, -, -, rfl⟩
    · exact h t (List.mem_append_left _ old)
    · exact ⟨r.target, rfl⟩
  · rcases handed_happen hc event t handed with old | ⟨old, -⟩
    · exact h t (List.mem_append_right _ old)
    · exact h t (List.mem_append_left _ old)

theorem wrappedOnce_history {settings : Settings} {clock : LocalTime} {scenes : SceneStore}
    {devices : DeviceStore} {network : Network} {journal : Journal Ticket}
    (history : Moment.History (fun _ _ => True)
      (Moment.fresh settings clock scenes devices network journal) past m) :
    Consistent m.engine m.handed ∧ WrappedOnce m := by
  induction history with
  | begin =>
    refine ⟨consistent_fresh _ _ _ _ _ _, ?_⟩
    rintro t ⟨⟩
  | next before event ok ih => exact ⟨ih.1.happen event, ih.2.happen ih.1 event⟩

end HomeScenes.Engine
