import HomeScenes.Journal
import HomeScenes.Proofs.Table

/-!
# What the journal keeps

A task that starts gets a record, and when it ends the record is filled in. Of the records of
other tasks the journal drops the oldest ones when it has no room, and it writes the sum over the
children on the record of the parent. It changes nothing else.
-/

namespace HomeScenes.Journal

/-- What holds of each member of a list and of what comes before it, when a member is added. -/
theorem forall_before_concat {α : Type} {P : List α → α → Prop} {as : List α} {a : α} :
    (∀ before b after, as ++ [a] = before ++ b :: after → P before b) ↔
      (∀ before b after, as = before ++ b :: after → P before b) ∧ P as a := by
  constructor
  · intro all
    refine ⟨fun before b after split => all before b (after ++ [a]) ?_, all as a [] rfl⟩
    rw [split, List.append_assoc, List.cons_append]
  · rintro ⟨all, last⟩ before b after split
    rcases List.eq_nil_or_concat after with rfl | ⟨after, final, rfl⟩
    · obtain ⟨rfl, same⟩ := List.append_inj' split rfl
      obtain rfl := List.singleton_inj.mp same
      exact last
    · rw [List.concat_eq_append, ← List.cons_append, ← List.append_assoc] at split
      obtain ⟨rfl, -⟩ := List.append_inj' split rfl
      exact all before b after rfl

variable {κ : Type} [DecidableEq κ]

/-- What is left when the oldest records were dropped was there before. -/
theorem find?_evict {capacity : Nat} {order : List κ} {records : Table κ (TaskRecord κ)} {task : κ}
    {r : TaskRecord κ} (h : (evict capacity order records).2.find? task = some r) :
    records.find? task = some r := by
  induction order generalizing records with
  | nil => exact h
  | cons oldest order ih =>
    rw [evict] at h
    split at h
    · have left := ih h
      rw [Table.find?_erase] at left
      split at left
      · cases left
      · exact left
    · exact h

/-- Records that fit stay. -/
theorem evict_of_le {capacity : Nat} {order : List κ} (fits : order.length ≤ capacity)
    (records : Table κ (TaskRecord κ)) : evict capacity order records = (order, records) := by
  cases order with
  | nil => rfl
  | cons oldest order =>
    rw [List.length_cons] at fits
    rw [evict, if_neg (by omega)]

variable {j k : Journal κ} {task other : κ} {r : TaskRecord κ} {parent : Option κ}
  {target : Target} {outcome : Outcome} {error : Option String} {now later : Instant}

theorem get?_start (h : (j.start task parent target now).get? other = some r) :
    (if other = task then some (.started task parent target now) else j.get? other) = some r := by
  have set := find?_evict h
  rw [Table.find?_set] at set
  exact set

/-- With room for one more, no record is dropped. -/
theorem get?_start_of_lt (room : j.order.length < j.capacity) :
    (j.start task parent target now).get? other =
      if other = task then some (.started task parent target now) else j.get? other := by
  have fits : (if j.records.contains task then j.order else j.order ++ [task]).length ≤
      j.capacity := by
    split
    · omega
    · rw [List.length_append, List.length_singleton]
      omega
  simp only [get?, start, evict_of_le fits]
  exact Table.find?_set j.records task other _

/-- When a task ends, only the record of its parent changes besides its own, and there only the
sum over the children. -/
theorem get?_finish? (h : j.finish? task outcome error now = some k) (differ : other ≠ task) :
    k.get? other = j.get? other ∨
      (∃ own, j.get? task = some own ∧ own.parent = some other) ∧
        ∃ sum, k.get? other = (j.get? other).map fun r => { r with childrenOutcome := sum } := by
  rw [finish?] at h
  cases found : j.get? task with
  | none =>
    rw [found] at h
    cases h
  | some own =>
    simp only [found] at h
    have finished : (j.records.modify task fun r => r.finish outcome error now).find? other =
        j.get? other := by
      rw [Table.find?_modify, if_neg differ, get?]
    cases line : own.parent with
    | none =>
      rw [line] at h
      cases h
      exact .inl finished
    | some parent =>
      rw [line] at h
      cases h
      let sum := Outcome.summarize
        (childOutcomes (j.records.modify task fun r => r.finish outcome error now) parent)
      by_cases above : other = parent
      · refine .inr ⟨⟨own, rfl, by rw [line, above]⟩, sum, ?_⟩
        rw [← finished]
        exact (Table.find?_modify _ parent other _).trans (if_pos above)
      · refine .inl ?_
        rw [← finished]
        exact (Table.find?_modify _ parent other _).trans (if_neg above)

/-- The records of other tasks are the same for two journals, except that some may be missing in
the second one, for want of room in the first one, and that the parent may have another sum over
its children. -/
structure Others (task : κ) (parent : Option κ) (before after : Journal κ) : Prop where
  known : ∀ other r, other ≠ task → after.get? other = some r → before.get? other = some r ∨
    parent = some other ∧ ∃ old, before.get? other = some old ∧
      r = { old with childrenOutcome := r.childrenOutcome }
  kept : before.order.length < before.capacity → ∀ other, other ≠ task →
    (after.get? other).isSome = (before.get? other).isSome

theorem Others.refl (task : κ) (parent : Option κ) (j : Journal κ) : Others task parent j j where
  known _ _ _ found := .inl found
  kept _ _ _ := rfl

theorem others_start (j : Journal κ) (task : κ) (parent : Option κ) (target : Target)
    (now : Instant) : Others task parent j (j.start task parent target now) := by
  constructor
  · intro other r differ found
    have old := get?_start found
    rw [if_neg differ] at old
    exact .inl old
  · intro room other differ
    rw [get?_start_of_lt room, if_neg differ]

/-- The journal that was told of the start of a task and then of its end. -/
theorem others_finish?
    (h : (j.start task parent target now).finish? task outcome error later = some k) :
    Others task parent j k := by
  have started := others_start j task parent target now
  constructor
  · intro other r differ found
    rcases get?_finish? h differ with same | ⟨⟨own, recorded, line⟩, sum, changed⟩
    · rw [same] at found
      exact started.known other r differ found
    · have line : parent = some other := by
        have own := get?_start recorded
        rw [if_pos rfl] at own
        rw [← line, ← Option.some.inj own]
        rfl
      rw [changed] at found
      obtain ⟨old, before, rfl⟩ := Option.map_eq_some_iff.mp found
      rcases started.known other old differ before with before | ⟨-, older, before, same⟩
      · exact .inr ⟨line, old, before, rfl⟩
      · refine .inr ⟨line, older, before, ?_⟩
        rw [same]
  · intro room other differ
    rw [← started.kept room other differ]
    rcases get?_finish? h differ with same | ⟨-, sum, changed⟩
    · rw [same]
    · rw [changed, Option.isSome_map]

end HomeScenes.Journal
