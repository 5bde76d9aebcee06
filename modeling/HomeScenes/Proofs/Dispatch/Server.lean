import HomeScenes.Dispatch.Server
import HomeScenes.Proofs.DueQueue.Operations

/-!
# What the server does to the queued tasks

Each operation of the server, told by its answer: what it says is what happened to the
queued tasks. A look at the queue keeps all tasks unless the earliest one is due.
-/

namespace HomeScenes.Dispatch.Server

variable {κ β ω : Type} [BEq κ] [Hashable κ] [LawfulBEq κ]

theorem remove_true {s r : Server κ β ω} {id : κ} (hv : s.queue.Valid)
    (h : s.remove id = (true, r)) :
    r.queue.Valid ∧ ∃ t : Task κ β ω, t.id = id ∧ s.queue.tasks.Perm (t :: r.queue.tasks) := by
  rw [remove] at h
  cases hr : s.queue.remove? id with
  | none =>
    rw [hr] at h
    cases h
  | some p =>
    obtain ⟨t, rest⟩ := p
    rw [hr] at h
    cases h
    obtain ⟨valid, perm, hid⟩ := DueQueue.remove?_spec hv hr
    exact ⟨valid, t, hid, perm⟩

theorem remove_false {s r : Server κ β ω} {id : κ} (hv : s.queue.Valid)
    (h : s.remove id = (false, r)) : r = s ∧ ∀ t ∈ s.queue.tasks, t.id ≠ id := by
  rw [remove] at h
  cases hr : s.queue.remove? id with
  | none =>
    rw [hr] at h
    cases h
    exact ⟨rfl, (DueQueue.remove?_eq_none_iff hv id).mp hr⟩
  | some p =>
    rw [hr] at h
    cases h

/-- Whatever the answer is, a removal leaves the tasks of the other ids. -/
theorem tasks_remove {s : Server κ β ω} (hv : s.queue.Valid) (id : κ) :
    (s.remove id).2.queue.Valid ∧
      (s.remove id).2.queue.tasks.Perm (s.queue.tasks.filter fun t => t.id != id) := by
  cases hr : s.remove id with
  | mk answer r =>
    cases answer with
    | true =>
      obtain ⟨valid, t, hid, perm⟩ := remove_true hv hr
      refine ⟨valid, ?_⟩
      have left : (t :: r.queue.tasks).filter (fun u => u.id != id) = r.queue.tasks := by
        rw [List.filter_cons_of_neg (by simp [hid]), List.filter_eq_self]
        intro u hu
        have := hv.apart perm u hu
        simpa [← hid] using this
      rw [← left]
      exact (perm.filter _).symm
    | false =>
      obtain ⟨rfl, absent⟩ := remove_false hv hr
      refine ⟨hv, ?_⟩
      rw [List.filter_eq_self.mpr fun u hu => by simpa using absent u hu]

theorem reschedule_true {s r : Server κ β ω} {id : κ} {due : Instant} (hv : s.queue.Valid)
    (h : s.reschedule id due = (true, r)) :
    r.queue.Valid ∧ ∃ (t : Task κ β ω) (rest : List (Task κ β ω)), t.id = id ∧
      s.queue.tasks.Perm (t :: rest) ∧ r.queue.tasks.Perm (t.withDue due :: rest) := by
  rw [reschedule] at h
  cases hr : s.queue.update? id due with
  | none =>
    rw [hr] at h
    cases h
  | some q =>
    rw [hr] at h
    cases h
    exact DueQueue.update?_spec hv hr

omit [LawfulBEq κ] in
theorem reschedule_false {s r : Server κ β ω} {id : κ} {due : Instant}
    (h : s.reschedule id due = (false, r)) : r = s := by
  rw [reschedule] at h
  cases hr : s.queue.update? id due with
  | none =>
    rw [hr] at h
    cases h
    rfl
  | some q =>
    rw [hr] at h
    cases h

omit [LawfulBEq κ] in
/-- A removal does not notify the loop. -/
theorem remove_notified {s r : Server κ β ω} {id : κ} {found : Bool}
    (h : s.remove id = (found, r)) : r.notified = s.notified := by
  rw [remove] at h
  split at h <;> (cases h; rfl)

omit [LawfulBEq κ] in
/-- A move does. -/
theorem reschedule_notified {s r : Server κ β ω} {id : κ} {due : Instant}
    (h : s.reschedule id due = (true, r)) : r.notified = true := by
  rw [reschedule] at h
  split at h
  · cases h
    rfl
  · cases h

/-- What a look at the queue comes to, with all that is left in the queue. -/
inductive Look (s : Server κ β ω) (now : Instant) : Tick κ β ω → Server κ β ω → Prop where
  | idle (empty : s.queue.tasks = []) : Look s now .idle s
  | wait {nanos : Nat} {r : Server κ β ω} (valid : r.queue.Valid)
      (same : r.queue.tasks.Perm s.queue.tasks) (later : ∀ t ∈ s.queue.tasks, now < t.due) :
      Look s now (.wait nanos) r
  | ready {t : Task κ β ω} {r : Server κ β ω} (valid : r.queue.Valid)
      (taken : s.queue.tasks.Perm (t :: r.queue.tasks)) (due : t.due ≤ now)
      (first : ∀ u ∈ s.queue.tasks, t.due ≤ u.due) : Look s now (.ready t) r

theorem look_tick {s : Server κ β ω} (hv : s.queue.Valid) (now : Instant) :
    Look s now (s.tick now).1 (s.tick now).2 := by
  rw [tick]
  cases hp : s.queue.pop? with
  | none => exact .idle (DueQueue.pop?_eq_none_iff.mp hp)
  | some p =>
    obtain ⟨t, rest⟩ := p
    obtain ⟨valid, perm, first⟩ := DueQueue.pop?_spec hv hp
    by_cases early : now < t.due
    · simp only [if_pos early]
      refine .wait (DueQueue.push_valid valid ?_) ?_ ?_
      · exact hv.apart perm
      · exact (DueQueue.tasks_push rest t).trans perm.symm
      · exact fun u hu => Std.lt_of_lt_of_le early (first u hu)
    · simp only [if_neg early]
      exact .ready valid perm (Std.not_lt.mp early) first

end HomeScenes.Dispatch.Server
