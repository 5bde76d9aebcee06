import HomeScenes.Outcome
import Mathlib.Tactic.Common
import Mathlib.Tactic.Push

/-!
# Sums of outcomes

The sum of several outcomes does not depend on the order in which they are taken. It is told by
what is among them: whether there are any, whether there is a success, and whether they are all the
same.
-/

namespace HomeScenes.Outcome

variable {outcomes left right : List Outcome} {a b o : Outcome}

/-- The sum with any of the outcomes in place of the first one. -/
theorem summarize_of_mem (h : a ∈ outcomes) : summarize outcomes = some
    (if ∀ o ∈ outcomes, o = success then success else if success ∈ outcomes then partialSuccess
      else if ∀ o ∈ outcomes, o = a then a else failed) := by
  cases outcomes with
  | nil => cases h
  | cons first rest =>
    simp only [summarize, List.all_eq_true, List.any_eq_true, decide_eq_true_eq, exists_eq_right]
    by_cases alike : ∀ o ∈ first :: rest, o = first
    · obtain rfl := alike a h
      rfl
    · have others : ¬ ∀ o ∈ first :: rest, o = a := by
        intro others
        obtain rfl := others first List.mem_cons_self
        exact alike others
      rw [if_neg alike, if_neg others]

theorem summarize_perm (h : left.Perm right) : summarize left = summarize right := by
  cases left with
  | nil => rw [h.nil_eq]
  | cons a as =>
    have own : a ∈ a :: as := List.mem_cons_self
    rw [summarize_of_mem own, summarize_of_mem (h.mem_iff.mp own)]
    simp only [h.mem_iff]

theorem summarize_eq_none_iff : summarize outcomes = none ↔ outcomes = [] := by
  cases outcomes with
  | nil => exact ⟨fun _ => rfl, fun _ => rfl⟩
  | cons a as => simp [summarize]

/-- There are outcomes, and all of them are this one. -/
def Unanimous (outcomes : List Outcome) (o : Outcome) : Prop :=
  o ∈ outcomes ∧ ∀ other ∈ outcomes, other = o

def Mixed (outcomes : List Outcome) : Prop :=
  success ∈ outcomes ∧ ∃ o ∈ outcomes, o ≠ success

theorem Unanimous.unique (h : Unanimous outcomes a) (also : Unanimous outcomes b) : a = b :=
  also.2 a h.1

theorem Unanimous.not_mixed (h : Unanimous outcomes o) : ¬ Mixed outcomes := by
  rintro ⟨good, other, listed, apart⟩
  exact apart ((h.2 other listed).trans (h.2 success good).symm)

theorem Unanimous.summarize (h : Unanimous outcomes o) : summarize outcomes = some o := by
  rw [summarize_of_mem h.1]
  by_cases good : o = success
  · subst good
    rw [if_pos h.2]
  · have bad : success ∉ outcomes := fun own => good (h.2 success own).symm
    have some : ¬ ∀ other ∈ outcomes, other = success := fun every => good (every o h.1)
    rw [if_neg some, if_neg bad, if_pos h.2]

theorem Mixed.summarize (h : Mixed outcomes) : summarize outcomes = some partialSuccess := by
  obtain ⟨own, other, listed, apart⟩ := h
  have some : ¬ ∀ o ∈ outcomes, o = success := fun every => apart (every other listed)
  rw [summarize_of_mem own, if_neg some, if_pos own]

theorem summarize_scattered (any : outcomes ≠ []) (mixed : ¬ Mixed outcomes)
    (scattered : ∀ o, ¬ Unanimous outcomes o) : summarize outcomes = some failed := by
  obtain ⟨a, listed⟩ := List.exists_mem_of_ne_nil outcomes any
  have differ (o : Outcome) (own : o ∈ outcomes) : ¬ ∀ other ∈ outcomes, other = o :=
    fun every => scattered o ⟨own, every⟩
  have bad : success ∉ outcomes := by
    intro own
    have other := differ success own
    push Not at other
    exact mixed ⟨own, other⟩
  have some : ¬ ∀ o ∈ outcomes, o = success := fun every => bad (every a listed ▸ listed)
  rw [summarize_of_mem listed, if_neg some, if_neg bad, if_neg (differ a listed)]

/-- What several outcomes come to, with the reason for it. -/
theorem summarize_cases (outcomes : List Outcome) :
    (outcomes = [] ∧ summarize outcomes = none) ∨
    (∃ o, Unanimous outcomes o ∧ summarize outcomes = some o) ∨
    (Mixed outcomes ∧ summarize outcomes = some partialSuccess) ∨
    (outcomes ≠ [] ∧ ¬ Mixed outcomes ∧ (∀ o, ¬ Unanimous outcomes o) ∧
      summarize outcomes = some failed) := by
  by_cases any : outcomes = []
  · subst any
    exact .inl ⟨rfl, rfl⟩
  by_cases same : ∃ o, Unanimous outcomes o
  · obtain ⟨o, same⟩ := same
    exact .inr (.inl ⟨o, same, same.summarize⟩)
  by_cases mixed : Mixed outcomes
  · exact .inr (.inr (.inl ⟨mixed, mixed.summarize⟩))
  · push Not at same
    exact .inr (.inr (.inr ⟨any, mixed, same, summarize_scattered any mixed same⟩))

/-- An outcome is the sum of outcomes that are all the same, and otherwise only a partial success or
a failure is: the first of a mix with successes in it, the second of any other mix. -/
theorem summarize_eq_some_iff : summarize outcomes = some o ↔
    Unanimous outcomes o ∨ (Mixed outcomes ∧ o = partialSuccess) ∨
      (outcomes ≠ [] ∧ ¬ Mixed outcomes ∧ (∀ other, ¬ Unanimous outcomes other) ∧ o = failed) := by
  constructor
  · intro sum
    rcases summarize_cases outcomes with ⟨-, none⟩ | ⟨other, same, whole⟩ | ⟨mixed, whole⟩ |
      ⟨any, mixed, same, whole⟩
    · cases none.symm.trans sum
    · obtain rfl := Option.some.inj (whole.symm.trans sum)
      exact .inl same
    · exact .inr (.inl ⟨mixed, (Option.some.inj (whole.symm.trans sum)).symm⟩)
    · exact .inr (.inr ⟨any, mixed, same, (Option.some.inj (whole.symm.trans sum)).symm⟩)
  · rintro (same | ⟨mixed, rfl⟩ | ⟨any, mixed, same, rfl⟩)
    · exact same.summarize
    · exact mixed.summarize
    · exact summarize_scattered any mixed same

/-- Outcomes have the same sum in any order. There is none for no outcomes; it is a success for
successes only, a partial success for successes among others and for partial successes only, and a
failure of another kind for failures of this kind only. In every other case it is a plain
failure. -/
theorem sum_ignores_order (outcomes : List Outcome) :
    (∀ other, outcomes.Perm other → summarize other = summarize outcomes) ∧
    (summarize outcomes = none ↔ outcomes = []) ∧
    (summarize outcomes = some success ↔ Unanimous outcomes success) ∧
    (summarize outcomes = some partialSuccess ↔
      Mixed outcomes ∨ Unanimous outcomes partialSuccess) ∧
    (∀ failure, failure ∉ [success, partialSuccess, failed] →
      (summarize outcomes = some failure ↔ Unanimous outcomes failure)) ∧
    (summarize outcomes = some failed ↔
      outcomes ≠ [] ∧ ¬ Mixed outcomes ∧ ∀ o, Unanimous outcomes o → o = failed) := by
  refine ⟨fun other perm => (summarize_perm perm).symm, summarize_eq_none_iff, ?_, ?_,
    fun failure kind => ?_, ?_⟩
  · rw [summarize_eq_some_iff]
    simp
  · rw [summarize_eq_some_iff, or_comm]
    simp
  · rw [summarize_eq_some_iff]
    simp only [List.mem_cons, List.not_mem_nil, or_false, not_or] at kind
    simp [kind]
  · rw [summarize_eq_some_iff]
    constructor
    · rintro (same | ⟨-, other⟩ | ⟨any, mixed, scattered, -⟩)
      · exact ⟨List.ne_nil_of_mem same.1, same.not_mixed, fun o also => also.unique same⟩
      · cases other
      · exact ⟨any, mixed, fun o same => absurd same (scattered o)⟩
    · rintro ⟨any, mixed, only⟩
      by_cases same : Unanimous outcomes failed
      · exact .inl same
      · refine .inr (.inr ⟨any, mixed, fun o also => ?_, rfl⟩)
        obtain rfl := only o also
        exact same also

/-- A success and a failure in both orders, and one failure twice. -/
theorem sum_ignores_order_offline :
    [deviceOffline, success].Perm [success, deviceOffline] ∧
      summarize [success, deviceOffline] = summarize [deviceOffline, success] ∧
      summarize [success, deviceOffline] = some partialSuccess ∧
      deviceOffline ∉ [success, partialSuccess, failed] ∧
      summarize [deviceOffline, deviceOffline] = some deviceOffline := by
  have swapped : [deviceOffline, success].Perm [success, deviceOffline] := .swap _ _ _
  have kind : deviceOffline ∉ [success, partialSuccess, failed] := by decide
  obtain ⟨order, -⟩ := sum_ignores_order [deviceOffline, success]
  obtain ⟨-, -, -, some, -⟩ := sum_ignores_order [success, deviceOffline]
  obtain ⟨-, -, -, -, same, -⟩ := sum_ignores_order [deviceOffline, deviceOffline]
  refine ⟨swapped, order _ swapped, some.mpr (.inl ?_), kind, (same _ kind).mpr ?_⟩
  · exact ⟨by simp, deviceOffline, by simp, by decide⟩
  · exact ⟨by simp, by simp⟩

end HomeScenes.Outcome
