import Mathlib.Algebra.Order.Ring.Int
import Mathlib.Tactic.ByContra
import HomeScenes.Proofs.Double

/-!
# Integers rounded to 53 bits

The number that an integer becomes, told without the algorithm: of the integers with 53
significant bits it is the nearest, a tie going to the even one. There is exactly one such
number, it keeps the order of the integers, and it is the integer itself up to 2^53.
-/

namespace HomeScenes

/-- The rounded quotient is off by half of the divisor at most, and by exactly a half only if it is
even. -/
theorem roundHalfEven_spec (num : Nat) {den : Nat} (pos : 0 < den) :
    2 * ((num : Int) - roundHalfEven num den * den).natAbs ≤ den ∧
      (2 * ((num : Int) - roundHalfEven num den * den).natAbs = den →
        2 ∣ (roundHalfEven num den : Int)) := by
  have whole := Nat.div_add_mod' num den
  have rest := Nat.mod_lt num pos
  unfold roundHalfEven
  dsimp only
  split
  · rw [Int.natCast_add, Int.add_mul]
    omega
  · omega

theorem roundHalfEven_mul_mul (num den : Nat) {c : Nat} (pos : 0 < c) :
    roundHalfEven (num * c) (den * c) = roundHalfEven num den := by
  have beyond : den * c < 2 * (num % den * c) ↔ den < 2 * (num % den) := by
    rw [← Nat.mul_assoc]
    exact Nat.mul_lt_mul_right pos
  have half : 2 * (num % den * c) = den * c ↔ 2 * (num % den) = den := by
    rw [← Nat.mul_assoc]
    exact Nat.mul_left_inj (Nat.ne_of_gt pos)
  simp only [roundHalfEven, Nat.mul_div_mul_right _ _ pos, Nat.mul_mod_mul_right, beyond, half]

namespace Double

def Short (x : Int) : Prop :=
  ∃ (m : Int) (e : Nat), m.natAbs < 2 ^ 53 ∧ x = m * 2 ^ e

/-- No integer of 53 bits is nearer to `i` than `x` is, and where another is as near, `x` is the
even one of the two: an even multiple of the gap between them. Fractions need no mention: around an
integer where 53 bits leave room for them, the integer itself has 53 bits. -/
structure Rounds (i x : Int) : Prop where
  short : Short x
  nearest : ∀ y, Short y → (i - x).natAbs ≤ (i - y).natAbs
  even : ∀ y, Short y → y ≠ x → (i - y).natAbs = (i - x).natAbs → 2 * (x - y) ∣ x

theorem short_mul_pow {m : Int} (h : m.natAbs ≤ 2 ^ 53) (e : Nat) : Short (m * 2 ^ e) := by
  rcases Nat.lt_or_eq_of_le h with below | top
  · exact ⟨m, e, below, rfl⟩
  · refine ⟨m / 2, e + 1, by omega, ?_⟩
    rw [Int.pow_succ', ← Int.mul_assoc, Int.ediv_mul_cancel (by omega)]

theorem short_of_le {x : Int} (h : x.natAbs ≤ 2 ^ 53) : Short x := by
  simpa using short_mul_pow h 0

theorem Short.neg {x : Int} (h : Short x) : Short (-x) := by
  obtain ⟨m, e, small, rfl⟩ := h
  exact ⟨-m, e, by rwa [Int.natAbs_neg], (Int.neg_mul _ _).symm⟩

/-- A number of 53 bits is a multiple of `2 ^ e`, or lies below the multiples of `2 ^ e` that need
all of the 53 bits. -/
theorem Short.on_grid {y : Int} (h : Short y) (e : Nat) :
    (2 : Int) ^ e ∣ y ∨ e ≠ 0 ∧ y < 2 ^ 52 * 2 ^ e := by
  obtain ⟨m, f, small, rfl⟩ := h
  rcases Nat.lt_or_ge f e with below | above
  · refine .inr ⟨Nat.ne_of_gt (Nat.zero_lt_of_lt below), ?_⟩
    calc m * 2 ^ f < 2 ^ 53 * 2 ^ f :=
          Int.mul_lt_mul_of_pos_right (by omega) (Int.pow_pos (by decide))
      _ = 2 ^ 52 * 2 ^ (f + 1) := by rw [← pow_add, ← pow_add, Nat.add_comm f, ← Nat.add_assoc]
      _ ≤ 2 ^ 52 * 2 ^ e :=
          Int.mul_le_mul_of_nonneg_left (pow_le_pow_right₀ (by decide) below) (by decide)
  · exact .inl (Int.dvd_trans (pow_dvd_pow 2 above) (Int.dvd_mul_left _ _))

namespace Rounds

variable {i j x y : Int}

theorem unique (hx : Rounds i x) (hy : Rounds i y) : x = y := by
  by_contra differ
  have tie : (i - y).natAbs = (i - x).natAbs :=
    Nat.le_antisymm (hy.nearest x hx.short) (hx.nearest y hy.short)
  -- both are even multiples of the gap between them, and so is the gap itself
  have evenX : 2 * (x - y) ∣ x := hx.even y hy.short (Ne.symm differ) tie
  have evenY : 2 * (x - y) ∣ y := by
    have := hy.even x hx.short differ tie.symm
    rwa [← Int.neg_sub x y, Int.mul_neg, Int.neg_dvd] at this
  have gap := Int.eq_zero_of_dvd_of_natAbs_lt_natAbs (Int.dvd_sub evenX evenY) (by omega)
  omega

theorem mono (hx : Rounds i x) (hy : Rounds j y) (le : i ≤ j) : x ≤ y := by
  by_contra above
  have nearX := hx.nearest y hy.short
  have nearY := hy.nearest x hx.short
  -- `i` is not below the middle of the two and `j` is not above it: both are the middle
  obtain rfl : i = j := by omega
  exact above (Int.le_of_eq (hx.unique hy))

theorem eq_self (h : Rounds i x) (short : Short i) : x = i := by
  have := h.nearest i short
  omega

theorem neg (h : Rounds i x) : Rounds (-i) (-x) where
  short := h.short.neg
  nearest y short := by
    have := h.nearest (-y) short.neg
    omega
  even y short differ tie := by
    have := h.even (-y) short.neg (by omega) (by omega)
    rwa [show 2 * (-x - y) = -(2 * (x - -y)) by omega, Int.neg_dvd, Int.dvd_neg]

/-- In the range of 64 bits the numbers of 53 bits are no more than 1024 apart. -/
theorem near (h : Rounds i x) (range : i.natAbs ≤ 2 ^ 63) : (i - x).natAbs ≤ 512 := by
  have := h.nearest ((i + 512) / 1024 * 2 ^ 10) (short_mul_pow (by omega) 10)
  omega

/-- Nothing else rounds to a small integer: its neighbours have 53 bits and one is nearer. -/
theorem eq_of_small (hx : Rounds i x) (hy : Rounds j x) (small : i.natAbs < 2 ^ 53) : i = j := by
  obtain rfl := hx.eq_self (short_of_le (Nat.le_of_lt small))
  have above := hy.nearest (x + 1) (short_of_le (by omega))
  have below := hy.nearest (x - 1) (short_of_le (by omega))
  omega

/-- Integers of 64 bits round to different numbers if they differ and one of them is small, or
neither is large, or they are far apart. -/
theorem eq_iff (hx : Rounds i x) (hy : Rounds j y) (rangeI : i.natAbs ≤ 2 ^ 63)
    (rangeJ : j.natAbs ≤ 2 ^ 63)
    (apart : i.natAbs < 2 ^ 53 ∨ j.natAbs < 2 ^ 53 ∨ i.natAbs ≤ 2 ^ 53 ∧ j.natAbs ≤ 2 ^ 53 ∨
      1024 < (i - j).natAbs) :
    x = y ↔ i = j := by
  refine ⟨?_, fun same => (same ▸ hx).unique hy⟩
  rintro rfl
  rcases apart with small | small | ⟨smallI, smallJ⟩ | far
  · exact hx.eq_of_small hy small
  · exact (hy.eq_of_small hx small).symm
  · exact (hx.eq_self (short_of_le smallI)).symm.trans (hy.eq_self (short_of_le smallJ))
  · have nearI := hx.near rangeI
    have nearJ := hy.near rangeJ
    omega

end Rounds

/-- A natural number rounded to 53 bits. -/
def rounded (n : Nat) : Nat :=
  roundHalfEven n (2 ^ (n.log2 + 1 - 53)) * 2 ^ (n.log2 + 1 - 53)

/-- The grid of 53 bits at `n` begins at or below `n`, where it is coarser than the integers. -/
theorem grid_le {n : Nat} (coarse : n.log2 + 1 - 53 ≠ 0) : 2 ^ 52 * 2 ^ (n.log2 + 1 - 53) ≤ n := by
  have pos : n ≠ 0 := by
    rintro rfl
    exact coarse rfl
  rw [← Nat.pow_add, show 52 + (n.log2 + 1 - 53) = n.log2 by omega]
  exact Nat.log2_self_le pos

/-- A multiple of `d` within half of `d`, an even one where it is off by exactly a half, is the
nearest multiple of `d`. -/
theorem multiple_nearest {i x y d : Int} (close : 2 * (i - x).natAbs ≤ d.natAbs)
    (even : 2 * (i - x).natAbs = d.natAbs → 2 * d ∣ x) (dx : d ∣ x) (dy : d ∣ y) :
    (i - x).natAbs ≤ (i - y).natAbs ∧
      (y ≠ x → (i - y).natAbs = (i - x).natAbs → 2 * (x - y) ∣ x) := by
  have gap (differ : y ≠ x) : d.natAbs ≤ (x - y).natAbs :=
    Nat.le_of_dvd (by omega) (Int.natAbs_dvd_natAbs.2 (Int.dvd_sub dx dy))
  refine ⟨by omega, fun differ tie => ?_⟩
  have apart := gap differ
  rcases Int.natAbs_eq_natAbs_iff.1 (show (x - y).natAbs = d.natAbs by omega) with same | opposite
  · rw [same]
    exact even (by omega)
  · rw [opposite, Int.mul_neg, Int.neg_dvd]
    exact even (by omega)

theorem rounds_rounded (n : Nat) : Rounds n (rounded n) := by
  have low := grid_le (n := n)
  have bits : roundHalfEven n (2 ^ (n.log2 + 1 - 53)) ≤ 2 ^ 53 := rounded_le Nat.lt_log2_self
  rw [rounded]
  generalize n.log2 + 1 - 53 = e at low bits
  obtain ⟨close, even⟩ := roundHalfEven_spec n (Nat.two_pow_pos e)
  generalize roundHalfEven n (2 ^ e) = m at bits close even
  rw [Int.natCast_mul, Int.natCast_pow]
  have nearest {y : Int} (onGrid : (2 : Int) ^ e ∣ y) := by
    refine multiple_nearest (i := n) (x := m * 2 ^ e) ?_ (fun half => ?_) (Int.dvd_mul_left _ _)
      onGrid
    · simpa using close
    · exact Int.mul_dvd_mul (even (by simpa using half)) (Int.dvd_refl _)
  -- what is not on the grid of `n` is below the first number of the grid, and that is below `n`
  have farther {y : Int} (coarse : e ≠ 0) (below : y < 2 ^ 52 * 2 ^ e) :
      ((n : Int) - m * 2 ^ e).natAbs < ((n : Int) - y).natAbs := by
    have first := (nearest (Int.dvd_mul_left (2 ^ 52) (2 ^ e))).1
    have : (2 : Int) ^ 52 * 2 ^ e ≤ n := by exact_mod_cast low coarse
    omega
  refine ⟨short_mul_pow (by omega) e, fun y short => ?_, fun y short differ tie => ?_⟩
  · rcases short.on_grid e with onGrid | ⟨coarse, below⟩
    · exact (nearest onGrid).1
    · exact Nat.le_of_lt (farther coarse below)
  · rcases short.on_grid e with onGrid | ⟨coarse, below⟩
    · exact (nearest onGrid).2 differ tie
    · exact absurd tie (Nat.ne_of_gt (farther coarse below))

theorem log2_mul_pow {n : Nat} (pos : 0 < n) (j : Nat) : (n * 2 ^ j).log2 = n.log2 + j := by
  obtain ⟨lower, upper⟩ := (Nat.log2_eq_iff (Nat.ne_of_gt pos)).1 rfl
  have scaled : 0 < n * 2 ^ j := Nat.mul_pos pos (Nat.two_pow_pos j)
  refine (Nat.log2_eq_iff (Nat.ne_of_gt scaled)).2 ⟨?_, ?_⟩
  · rw [Nat.pow_add]
    exact Nat.mul_le_mul_right _ lower
  · rw [Nat.add_right_comm, Nat.pow_add]
    exact Nat.mul_lt_mul_of_pos_right upper (Nat.two_pow_pos j)

/-- Rounding to 53 bits commutes with scaling by a power of two. -/
theorem rounded_mul_pow (n j : Nat) : rounded (n * 2 ^ j) = rounded n * 2 ^ j := by
  rcases Nat.lt_or_ge n (2 ^ 53) with short | long
  · -- with 53 bits at most there is nothing to round, before the scaling or after it
    have scaled : Short (n * 2 ^ j : Nat) := by
      simpa using short_mul_pow (m := n) (by omega) j
    have before := (rounds_rounded n).eq_self (short_of_le (by omega))
    have after := (rounds_rounded (n * 2 ^ j)).eq_self scaled
    rw [Int.natCast_inj.1 before, Int.natCast_inj.1 after]
  · have pos : 0 < n := Nat.lt_of_lt_of_le (by decide) long
    have large : 53 ≤ n.log2 := (Nat.le_log2 (Nat.ne_of_gt pos)).2 long
    rw [rounded, rounded, log2_mul_pow pos,
      show n.log2 + j + 1 - 53 = n.log2 + 1 - 53 + j by omega, Nat.pow_add,
      roundHalfEven_mul_mul _ _ (Nat.two_pow_pos j), Nat.mul_assoc]

theorem units_ofRatio? {num : Nat} {m : Magnitude} (h : Magnitude.ofRatio? num 1 = some m) :
    m.units = rounded num * stepsPerOne := by
  obtain ⟨steps, scaled⟩ : ∃ steps, steps = num * stepsPerOne := ⟨_, rfl⟩
  have same : rounded steps = rounded num * stepsPerOne := by
    rw [scaled, stepsPerOne_eq]
    exact rounded_mul_pow num stepBits
  rw [Magnitude.ofRatio?] at h
  simp only [Nat.div_one, Nat.one_mul, Nat.pow_eq, ← scaled] at h
  split at h
  · rw [← same, ← Option.some.inj h, rounded]
  · cases h

/-- An integer of 64 bits becomes the number of 53 bits nearest to it. -/
theorem rank?_ofInt {i : Int} (small : i.natAbs < 2 ^ 64) :
    ∃ x, Rounds i x ∧ (ofInt i).rank? = some (x * stepsPerOne) := by
  obtain ⟨negative, m, found⟩ := ofInt_isFinite small
  have size := rounds_rounded i.natAbs
  rw [ofInt, ofRatio] at found ⊢
  cases rounding : Magnitude.ofRatio? i.natAbs 1 with
  | none => simp [rounding] at found
  | some m =>
    rw [Option.elim_some, rank?, units_ofRatio? rounding, Int.natCast_mul]
    rcases Int.lt_or_le i 0 with below | above
    · have opposite := size.neg
      rw [show -(i.natAbs : Int) = i by omega] at opposite
      exact ⟨_, opposite, by rw [decide_eq_true below, if_pos rfl, Int.neg_mul]⟩
    · rw [show (i.natAbs : Int) = i by omega] at size
      exact ⟨_, size, by rw [decide_eq_false (Int.not_lt.2 above), if_neg Bool.false_ne_true]⟩

theorem stepsPerOne_pos : 0 < (stepsPerOne : Int) := by
  rw [stepsPerOne_eq]
  exact Int.natCast_pos.2 (Nat.two_pow_pos stepBits)

theorem compare_mul (x y : Int) {c : Int} (pos : 0 < c) :
    compare (x * c) (y * c) = compare x y := by
  simp only [compare, compareOfLessAndEq, Int.mul_lt_mul_right pos,
    Int.mul_eq_mul_right_iff (Int.ne_of_gt pos)]

/-- Integers of 64 bits are ordered as the numbers of 53 bits nearest to them. -/
theorem order?_ofInt {i j : Int} (smallI : i.natAbs < 2 ^ 64) (smallJ : j.natAbs < 2 ^ 64) :
    ∃ x y, Rounds i x ∧ Rounds j y ∧ (ofInt i).order? (ofInt j) = some (compare x y) := by
  obtain ⟨x, hx, rankX⟩ := rank?_ofInt smallI
  obtain ⟨y, hy, rankY⟩ := rank?_ofInt smallJ
  refine ⟨x, y, hx, hy, ?_⟩
  rw [order?, rankX, rankY, ← compare_mul x y stepsPerOne_pos]

end Double

end HomeScenes
