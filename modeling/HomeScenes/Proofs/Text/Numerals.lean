import HomeScenes.Proofs.Text
import HomeScenes.Text.Integer
import Mathlib.Tactic.Common

/-!
# Integers as settings write them

A text is read as a number if, and only if, it is a row of decimal digits with an optional sign that
writes a number of the wanted range. Nothing is rounded and nothing wraps round: a number that is
out of range is refused.
-/

namespace HomeScenes

namespace Text

variable {cs ds : List Char} {n : Nat} {i : Int}

/-- One or more decimal digits, and the number that they write. -/
structure Numeral (ds : List Char) (n : Nat) : Prop where
  any : ds ≠ []
  digits : ∀ c ∈ ds, isDigit c = true
  value : ofDigits ds = n

def Unsigned (cs : List Char) (n : Nat) : Prop :=
  Numeral cs n ∨ ∃ ds, cs = '+' :: ds ∧ Numeral ds n

def Signed (cs : List Char) (i : Int) : Prop :=
  (∃ n : Nat, Unsigned cs n ∧ i = n) ∨ ∃ ds, ∃ n : Nat, cs = '-' :: ds ∧ Numeral ds n ∧ i = -n

theorem ofDigits?_eq_some_iff : ofDigits? ds = some n ↔ Numeral ds n := by
  simp only [ofDigits?]
  constructor
  · intro read
    split at read
    next row =>
      obtain rfl := Option.some.inj read
      exact ⟨row.1, List.all_eq_true.mp row.2, rfl⟩
    next => cases read
  · rintro ⟨any, digits, rfl⟩
    exact if_pos ⟨any, List.all_eq_true.mpr digits⟩

theorem Numeral.not_sign {c : Char} (h : Numeral (c :: ds) n) : c ≠ '+' ∧ c ≠ '-' := by
  have digit := h.digits c List.mem_cons_self
  constructor
  · rintro rfl
    exact absurd digit (by decide)
  · rintro rfl
    exact absurd digit (by decide)

/-- What is taken off a text are its first digits, as many as there is room for. -/
theorem spanDigits_spec (limit : Nat) (cs : List Char) :
    cs = (spanDigits limit cs).1 ++ (spanDigits limit cs).2 ∧
      (∀ c ∈ (spanDigits limit cs).1, isDigit c = true) ∧
      (spanDigits limit cs).1.length ≤ limit := by
  induction limit generalizing cs with
  | zero => simp [spanDigits]
  | succ limit ih =>
    cases cs with
    | nil => simp [spanDigits]
    | cons c cs =>
      obtain ⟨whole, digits, room⟩ := ih cs
      by_cases digit : isDigit c = true
      · simp only [spanDigits, digit, if_true, List.cons_append, List.length_cons,
          List.mem_cons, forall_eq_or_imp, true_and]
        exact ⟨congrArg _ whole, digits, by omega⟩
      · simp [spanDigits, digit]

theorem takeNumber?_spec {limit : Nat} {rest : List Char}
    (h : takeNumber? limit cs = some (n, rest)) :
    ∃ ds, cs = ds ++ rest ∧ Numeral ds n ∧ ds.length ≤ limit := by
  obtain ⟨whole, digits, room⟩ := spanDigits_spec limit cs
  unfold takeNumber? at h
  split at h
  · cases h
  next ds after other span =>
    cases h
    rw [span] at whole digits room
    exact ⟨ds, whole, ⟨other, digits, rfl⟩, room⟩

theorem Numeral.takeNumber? {limit : Nat} {rest : List Char} (h : Numeral ds n)
    (room : ds.length ≤ limit) (stop : ∀ c ∈ rest.head?, isDigit c = false) :
    takeNumber? limit (ds ++ rest) = some (n, rest) := by
  obtain ⟨any, digits, rfl⟩ := h
  have span := spanDigits_append digits room (.inr stop)
  cases ds with
  | nil => exact absurd rfl any
  | cons d ds => simp only [Text.takeNumber?, span]

theorem natOfChars?_eq_some_iff : natOfChars? cs = some n ↔ Unsigned cs n := by
  unfold natOfChars?
  split
  next ds =>
    rw [ofDigits?_eq_some_iff]
    constructor
    · exact fun row => .inr ⟨ds, rfl, row⟩
    · rintro (row | ⟨_, ⟨rfl⟩, row⟩)
      · exact absurd rfl row.not_sign.1
      · exact row
  next plain =>
    rw [ofDigits?_eq_some_iff]
    constructor
    · exact .inl
    · rintro (row | ⟨ds, rfl, -⟩)
      · exact row
      · exact absurd rfl (plain ds)

theorem intOfChars?_eq_some_iff : intOfChars? cs = some i ↔ Signed cs i := by
  unfold intOfChars?
  split
  next ds =>
    simp only [Option.map_eq_some_iff, ofDigits?_eq_some_iff]
    constructor
    · rintro ⟨n, row, rfl⟩
      exact .inr ⟨ds, n, rfl, row, rfl⟩
    · rintro (⟨n, row | ⟨_, ⟨⟩, -⟩, rfl⟩ | ⟨_, n, ⟨rfl⟩, row, rfl⟩)
      · exact absurd rfl row.not_sign.2
      · exact ⟨n, row, rfl⟩
  next plain =>
    simp only [Option.map_eq_some_iff, natOfChars?_eq_some_iff]
    constructor
    · rintro ⟨n, row, rfl⟩
      exact .inl ⟨n, row, rfl⟩
    · rintro (⟨n, row, rfl⟩ | ⟨ds, n, rfl, -⟩)
      · exact ⟨n, row, rfl⟩
      · exact absurd rfl (plain ds)

end Text

/-- A number is in the range of 32 bits with a sign if it is the value of such a word. -/
theorem int32_range_iff {i : Int} {v : Int32} :
    (-2147483648 ≤ i ∧ i < 2147483648) ∧ Int32.ofInt i = v ↔ i = v.toInt := by
  constructor
  · rintro ⟨⟨low, high⟩, rfl⟩
    exact (Int32.toInt_ofInt_of_le low high).symm
  · rintro rfl
    exact ⟨⟨v.le_toInt, v.toInt_lt⟩, v.ofInt_toInt⟩

theorem uint64_range_iff {n : Nat} {v : UInt64} :
    n < 18446744073709551616 ∧ UInt64.ofNat n = v ↔ n = v.toNat := by
  constructor
  · rintro ⟨high, rfl⟩
    exact (UInt64.toNat_ofNat_of_lt' high).symm
  · rintro rfl
    exact ⟨v.toNat_lt, UInt64.ofNat_toNat⟩

namespace Text

theorem uint64OfText?_eq_some_iff {s : String} {v : UInt64} :
    uint64OfText? s = some v ↔ Unsigned s.toList v.toNat := by
  simp only [uint64OfText?, Option.map_eq_some_iff, Option.filter_eq_some_iff,
    natOfChars?_eq_some_iff, decide_eq_true_eq, and_assoc, uint64_range_iff, exists_eq_right]

theorem int32OfText?_eq_some_iff {s : String} {v : Int32} :
    int32OfText? s = some v ↔ Signed s.toList v.toInt := by
  simp only [int32OfText?, Option.map_eq_some_iff, Option.filter_eq_some_iff,
    intOfChars?_eq_some_iff, decide_eq_true_eq, and_assoc (a := Signed _ _), int32_range_iff,
    exists_eq_right]

end Text

end HomeScenes
