import HomeScenes.Attribute
import HomeScenes.Proofs.Double.Rounding

/-!
# Comparing integers

Two integers are compared by the numbers of 53 significant bits nearest to them. Rounding keeps
their order, so that a comparison goes wrong in one way only: two integers that round to the same
number are taken for equal. Large neighbours do; integers up to 2^53, or more than 1024 apart,
do not.
-/

namespace HomeScenes

open Double

theorem natAbs_toInt_le (a : Int64) : a.toInt.natAbs ≤ 2 ^ 63 := by
  have := a.le_toInt
  have := a.toInt_lt
  omega

/-- Integers are ordered as the numbers nearest to them. -/
theorem AttributeValue.order?_int (a b : Int64) :
    ∃ x y, Rounds a.toInt x ∧ Rounds b.toInt y ∧
      (int a).order? (int b) = some (compare x y) :=
  order?_ofInt (Nat.lt_of_le_of_lt (natAbs_toInt_le a) (by decide))
    (Nat.lt_of_le_of_lt (natAbs_toInt_le b) (by decide))

namespace Comparison

open AttributeValue

/-- Between numbers that can be ordered, each comparison asks for one order. -/
theorem holds_of_order? {a b : AttributeValue} {o : Ordering} (h : a.order? b = some o) :
    (greater.holds a b = true ↔ o = .gt) ∧ (less.holds a b = true ↔ o = .lt) ∧
      (equal.holds a b = true ↔ o = .eq) := by
  simp only [holds, h, beq_iff_eq, and_self]

/-- An integer is greater or less than another in a condition exactly if it is so and the two round
to different numbers of 53 bits, and equal exactly if they round to the same one. -/
theorem integers_compared_rounded (a b : Int64) :
    ∃ x y, Rounds a.toInt x ∧ Rounds b.toInt y ∧
      (greater.holds (int a) (int b) = true ↔ b < a ∧ x ≠ y) ∧
      (less.holds (int a) (int b) = true ↔ a < b ∧ x ≠ y) ∧
      (equal.holds (int a) (int b) = true ↔ x = y) ∧
      (a.toInt.natAbs < 2 ^ 53 ∨ b.toInt.natAbs < 2 ^ 53 ∨
          a.toInt.natAbs ≤ 2 ^ 53 ∧ b.toInt.natAbs ≤ 2 ^ 53 ∨
          1024 < (a.toInt - b.toInt).natAbs →
        (x = y ↔ a = b)) := by
  obtain ⟨x, y, hx, hy, order⟩ := order?_int a b
  obtain ⟨gt, lt, eq⟩ := holds_of_order? order
  rw [Int.compare_eq_gt] at gt
  rw [Int.compare_eq_lt] at lt
  rw [Int.compare_eq_eq] at eq
  -- rounding keeps the order, so the rounded numbers are in the order of the integers or equal
  have up := hx.mono hy
  have down := hy.mono hx
  refine ⟨x, y, hx, hy, ?_, ?_, eq, fun apart => ?_⟩
  · rw [gt, Int64.lt_iff_toInt_lt]
    omega
  · rw [lt, Int64.lt_iff_toInt_lt]
    omega
  · rw [hx.eq_iff hy (natAbs_toInt_le a) (natAbs_toInt_le b) apart, Int64.toInt_inj]

/-- Two times in nanoseconds, two microseconds apart, are told apart. -/
theorem integers_compared_rounded_microseconds :
    greater.holds (int 1715000000000002000) (int 1715000000000000000) = true ∧
      equal.holds (int 1715000000000002000) (int 1715000000000000000) = false := by
  obtain ⟨x, y, -, -, gt, -, eq, same⟩ :=
    integers_compared_rounded 1715000000000002000 1715000000000000000
  have differ : x ≠ y := fun h => absurd ((same (by decide)).1 h) (by decide)
  exact ⟨gt.2 ⟨by decide, differ⟩, Bool.eq_false_iff.2 fun h => differ (eq.1 h)⟩

/-- The first integer that needs 54 bits is taken for its neighbour. -/
theorem neighbours_taken_for_equal :
    (9007199254740992 : Int64) < 9007199254740993 ∧
      greater.holds (int 9007199254740993) (int 9007199254740992) = false ∧
      equal.holds (int 9007199254740993) (int 9007199254740992) = true := by
  decide +kernel

end Comparison

end HomeScenes
