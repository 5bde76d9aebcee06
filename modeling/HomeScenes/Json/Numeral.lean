import HomeScenes.Double.Decimal

/-!
# Numbers in JSON text

A number without point and exponent that fits 64 bits is an integer; minus zero and
all others are floating-point numbers. Their value is taken from at most 64 bits of
leading digits, rounded, and then multiplied or divided by a rounded power of ten, so
that the last bit may differ from the nearest number when there are many digits.
-/

namespace HomeScenes.Json

inductive Numeral where
  | int (i : Int)
  | float (d : Double)
deriving DecidableEq

namespace Numeral

open Double

/-- First natural number that 64 bits cannot hold. -/
def wordLimit : Nat := 18446744073709551616

/-- Digits taken as a number and the power of ten it still has to be multiplied by. -/
structure Significand where
  value : Nat
  exponent : Int

/-- Digits in front of the point: those that no longer fit count as powers of ten. -/
def Significand.ofWhole (ds : List Char) : Significand :=
  let step := fun (s : Significand × Bool) d =>
    let next := 10 * s.1.value + Text.digitValue d
    if s.2 || wordLimit ≤ next then (⟨s.1.value, s.1.exponent + 1⟩, true)
    else (⟨next, s.1.exponent⟩, false)
  (ds.foldl step (⟨0, 0⟩, false)).1

/-- Digits behind the point: they are taken up to the first that does not fit. -/
def Significand.addFraction : Significand → List Char → Significand
  | s, [] => s
  | s, d :: ds =>
    let next := 10 * s.value + Text.digitValue d
    if wordLimit ≤ next then s else addFraction ⟨next, s.exponent - 1⟩ ds

/-- The double nearest to a power of ten. -/
def powerOfTen (n : Nat) : Magnitude :=
  (Magnitude.ofRatio? (Nat.pow 10 n) 1).getD Magnitude.zero

/-- Multiply or divide by a power of ten in rounded steps of at most 308 places. Nothing is left
after three divisions, so the steps are counted down. -/
def scale (negative : Bool) : Nat → Magnitude → Int → Option Double
  | 0, _, _ => some (finite negative Magnitude.zero)
  | steps + 1, m, e =>
    if e.natAbs ≤ 308 then
      let r := if 0 ≤ e then mulMagnitude negative m (powerOfTen e.natAbs)
        else divMagnitude negative m (powerOfTen e.natAbs)
      r.magnitude?.map (finite negative)
    else if m.units = 0 then some (finite negative m)
    else if 0 ≤ e then none
    else (divMagnitude negative m (powerOfTen 308)).magnitude?.bind fun q =>
      scale negative steps q (e + 308)

/-- The value of a significand, or nothing when it is too large for a finite number. -/
def Significand.toDouble? (negative : Bool) (s : Significand) : Option Double :=
  (Magnitude.ofRatio? s.value 1).bind fun m => scale negative 3 m s.exponent

/-- The value of a number without point and exponent. -/
def ofWhole? (negative : Bool) (ds : List Char) : Option Numeral :=
  let n := Text.ofDigits ds
  if n < wordLimit then
    if !negative then some (int n)
    else if n = 0 then some (float (finite true Magnitude.zero))
    else if n ≤ 9223372036854775808 then some (int (-(n : Int)))
    else some (float (ofRatio true n 1))
  else ((Significand.ofWhole ds).toDouble? negative).map float

/-- Whole digits as the grammar wants them: at least one, and no zero in front of others. -/
def wholeOk : List Char → Bool
  | [] => false
  | [_] => true
  | c :: _ => c != '0'

/-- A number by the grammar of JSON. The outer answer says whether the text is a number at all,
the inner one gives its value unless that is out of range. -/
def ofChars? (cs : List Char) : Option (Option Numeral) :=
  let (negative, cs) := match cs with
    | '-' :: r => (true, r)
    | r => (false, r)
  let whole := cs.takeWhile Text.isDigit
  let rest := cs.dropWhile Text.isDigit
  if !wholeOk whole then none
  else if rest.isEmpty then some (ofWhole? negative whole)
  else
    let fraction? := match rest with
      | '.' :: r =>
        let ds := r.takeWhile Text.isDigit
        if ds.isEmpty then none else some (ds, r.dropWhile Text.isDigit)
      | r => some ([], r)
    match fraction? with
    | none => none
    | some (fraction, rest) =>
      let exponent? := match rest with
        | [] => some 0
        | c :: r => if c = 'e' ∨ c = 'E' then readExponent? r else none
      match exponent? with
      | none => none
      | some e =>
        let s := (Significand.ofWhole whole).addFraction fraction
        some ((Significand.toDouble? negative ⟨s.value, s.exponent + e⟩).map float)

end Numeral

end HomeScenes.Json
