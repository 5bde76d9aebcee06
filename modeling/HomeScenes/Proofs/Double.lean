import Mathlib.Algebra.Group.Nat.Defs
import HomeScenes.Double

/-!
# Numbers that stay finite

An integer of 64 bits has a nearest floating-point number that is finite, and an operation
that rounds once never gives the not-a-number.
-/

namespace HomeScenes

theorem roundHalfEven_le (num den : Nat) : roundHalfEven num den ≤ num / den + 1 := by
  unfold roundHalfEven
  dsimp only
  split <;> omega

namespace Double

def IsFinite (d : Double) : Prop :=
  ∃ negative m, d = finite negative m

theorem isFinite_finite (negative : Bool) (m : Magnitude) : (finite negative m).IsFinite :=
  ⟨negative, m, rfl⟩

theorem stepsPerOne_eq : stepsPerOne = 2 ^ stepBits := by
  delta stepsPerOne
  rw [Nat.pow_eq]

theorem sizeLimit_eq : sizeLimit = 2 ^ sizeBits := by
  delta sizeLimit
  rw [Nat.pow_eq]

/-- A quotient rounded once is never the not-a-number. -/
theorem ofRatio_cases (negative : Bool) (num den : Nat) :
    (ofRatio negative num den).IsFinite ∨ ofRatio negative num den = infinite negative := by
  rw [ofRatio]
  generalize Magnitude.ofRatio? num den = size
  cases size with
  | none => exact .inr rfl
  | some m => exact .inl (isFinite_finite _ _)

/-- Rounding to 53 bits may reach the next power of two and goes no further. -/
theorem rounded_le {scaled k : Nat} (h : scaled < 2 ^ k) :
    roundHalfEven scaled (2 ^ (k - 53)) ≤ 2 ^ 53 := by
  have split : 2 ^ k ≤ 2 ^ (k - 53) * 2 ^ 53 := by
    rw [← Nat.pow_add]
    exact Nat.pow_le_pow_right (by decide) (by omega)
  have quotient : scaled / 2 ^ (k - 53) < 2 ^ 53 :=
    Nat.div_lt_of_lt_mul (Nat.lt_of_lt_of_le h split)
  exact Nat.le_trans (roundHalfEven_le _ _) quotient

/-- A size whose steps are fewer than a power of two below the limit is not too large. -/
theorem ofRatio?_isSome {num k : Nat} (h : num * stepsPerOne < 2 ^ k) (small : k + 53 < sizeBits) :
    (Magnitude.ofRatio? num 1).isSome = true := by
  have bits : (num * stepsPerOne).log2 + 1 ≤ k + 1 := by
    rcases Nat.eq_zero_or_pos (num * stepsPerOne) with zero | pos
    · rw [zero, Nat.log2_zero]
      omega
    · have := (Nat.log2_lt (Nat.ne_of_gt pos)).2 h
      omega
  have rounded := rounded_le (Nat.lt_log2_self : num * stepsPerOne < _)
  have size : roundHalfEven (num * stepsPerOne) (2 ^ ((num * stepsPerOne).log2 + 1 - 53)) *
      2 ^ ((num * stepsPerOne).log2 + 1 - 53) < sizeLimit := by
    generalize num * stepsPerOne = scaled at bits rounded
    refine Nat.lt_of_le_of_lt (Nat.mul_le_mul_right _ rounded) ?_
    rw [← Nat.pow_add, sizeLimit_eq]
    generalize sizeBits = limit at small
    exact Nat.pow_lt_pow_right (by decide) (by omega)
  rw [Magnitude.ofRatio?]
  simp only [Nat.div_one, Nat.one_mul, Nat.pow_eq]
  rw [dif_pos ⟨size, rounded⟩, Option.isSome_some]

theorem ofRatio_isFinite {num : Nat} (h : num < 2 ^ 64) (negative : Bool) :
    (ofRatio negative num 1).IsFinite := by
  have scaled : num * stepsPerOne < 2 ^ (64 + stepBits) := by
    rw [Nat.pow_add, stepsPerOne_eq]
    generalize stepBits = bits
    exact Nat.mul_lt_mul_of_pos_right h (Nat.two_pow_pos bits)
  have found := ofRatio?_isSome scaled (by decide)
  rw [ofRatio]
  generalize Magnitude.ofRatio? num 1 = size at found
  cases size with
  | none => cases found
  | some m => exact isFinite_finite _ _

theorem ofInt_isFinite {i : Int} (h : i.natAbs < 2 ^ 64) : (ofInt i).IsFinite :=
  ofRatio_isFinite h _

end Double

end HomeScenes
