/-!
# Binary floating-point numbers

Numbers with 53 significant bits, infinities and a not-a-number. A finite number is
a sign and a count of steps of 2^-1074, so that comparing two of them is comparing
integers. All arithmetic is exact on natural numbers with one rounding at the end:
to the nearest, a tie to the even neighbour.
-/

namespace HomeScenes

/-- The quotient rounded to the nearest integer, a half going to the even neighbour. -/
def roundHalfEven (num den : Nat) : Nat :=
  let q := num / den
  let r := num % den
  if den < 2 * r ∨ (2 * r = den ∧ q % 2 = 1) then q + 1 else q

namespace Double

/-- The power of two by which a step is smaller than one. -/
def stepBits : Nat := 1074

/-- The power of two, in steps, that lies beyond all finite numbers. -/
def sizeBits : Nat := 2098

/-- Steps in the number one. -/
def stepsPerOne : Nat :=
  Nat.pow 2 stepBits

def sizeLimit : Nat :=
  Nat.pow 2 sizeBits

theorem pow_two_pos (n : Nat) : 0 < Nat.pow 2 n :=
  Nat.two_pow_pos n

theorem sizeLimit_pos : 0 < sizeLimit := by
  unfold sizeLimit
  exact pow_two_pos sizeBits

/-- A number of steps that 53 significant bits can hold and that is below the limit. -/
def Representable (units : Nat) : Prop :=
  units < sizeLimit ∧ ∃ m e, m ≤ 9007199254740992 ∧ units = m * Nat.pow 2 e

/-- A finite size, in steps of 2^-1074. -/
structure Magnitude where
  units : Nat
  representable : Representable units
deriving DecidableEq

theorem representable_zero : Representable 0 :=
  ⟨sizeLimit_pos, 0, 0, Nat.zero_le _, (Nat.zero_mul _).symm⟩

def Magnitude.zero : Magnitude :=
  ⟨0, representable_zero⟩

/-- The representable size nearest to a quotient, or nothing when it is too large. The grid at a
size of more than 53 bits is coarser by the power of two of the bits in excess. -/
def Magnitude.ofRatio? (num den : Nat) : Option Magnitude :=
  let scaled := num * stepsPerOne
  let e := (scaled / den).log2 + 1 - 53
  let m := roundHalfEven scaled (den * Nat.pow 2 e)
  if h : m * Nat.pow 2 e < sizeLimit ∧ m ≤ 9007199254740992 then
    some ⟨m * Nat.pow 2 e, h.1, m, e, h.2, rfl⟩
  else none

end Double

inductive Double where
  | nan
  | infinite (negative : Bool)
  | finite (negative : Bool) (magnitude : Double.Magnitude)
deriving DecidableEq

namespace Double

/-- The number nearest to a quotient with a sign; sizes beyond the largest become infinite. -/
def ofRatio (negative : Bool) (num den : Nat) : Double :=
  (Magnitude.ofRatio? num den).elim (infinite negative) (finite negative)

/-- The size of a number that has one. -/
def magnitude? : Double → Option Magnitude
  | finite _ m => some m
  | _ => none

def ofInt (i : Int) : Double :=
  ofRatio (i < 0) i.natAbs 1

/-- Place on the number line in steps of 2^-1074, with the infinities one power above all finite
numbers. The two zeros share a place and the not-a-number has none. -/
def rank? : Double → Option Int
  | nan => none
  | infinite negative => some (if negative then -(sizeLimit : Int) else sizeLimit)
  | finite negative m => some (if negative then -(m.units : Int) else m.units)

def order? (a b : Double) : Option Ordering :=
  match a.rank?, b.rank? with
  | some i, some j => some (compare i j)
  | _, _ => none

/-- Numeric equality: zeros are equal whatever their sign, a not-a-number equals nothing. -/
def same (a b : Double) : Bool :=
  a.order? b == some .eq

/-- The product rounded once. -/
def mulMagnitude (negative : Bool) (a b : Magnitude) : Double :=
  ofRatio negative (a.units * b.units) (stepsPerOne * stepsPerOne)

/-- The quotient rounded once, for a divisor above zero. -/
def divMagnitude (negative : Bool) (a b : Magnitude) : Double :=
  ofRatio negative a.units b.units

/-- The number nearest to `significand * 10 ^ exponent`. Exponents far outside the range are
answered without building the power. -/
def ofDecimal (negative : Bool) (significand : Nat) (exponent : Int) : Double :=
  if significand = 0 then finite negative Magnitude.zero
  else if 310 < exponent then infinite negative
  else if exponent + (Nat.toDigits 10 significand).length < -330 then finite negative Magnitude.zero
  else if 0 ≤ exponent then ofRatio negative (significand * Nat.pow 10 exponent.toNat) 1
  else ofRatio negative significand (Nat.pow 10 (-exponent).toNat)

end Double

end HomeScenes
