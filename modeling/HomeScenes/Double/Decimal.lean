import HomeScenes.Double
import HomeScenes.Text.Digits

/-!
# Decimal text of floating-point numbers

The digits written are the fewest that read back as the same number, and of those
the nearest to it. Two layouts use them: the plain one never has an exponent, and
the one of JSON text always shows that the number is no integer type.
-/

namespace HomeScenes

/-- A row of digits after "0." times a power of ten, without zeros at its end. -/
structure Decimal where
  digits : List Char
  point : Int
deriving DecidableEq

namespace Double

/-- The power of ten at which the first digit of a positive size stands. -/
def Magnitude.leadingExponent (m : Magnitude) : Int :=
  if stepsPerOne ≤ m.units then
    ((Text.digits (m.units / stepsPerOne)).length : Int) - 1
  else
    let d := (Text.digits (stepsPerOne / m.units)).length
    if stepsPerOne ≤ m.units * Nat.pow 10 (d - 1) then -((d : Int) - 1) else -(d : Int)

/-- Numerator and denominator of a size counted in units of `10 ^ scale`. -/
def Magnitude.ratioAt (m : Magnitude) (scale : Int) : Nat × Nat :=
  if 0 ≤ scale then (m.units, stepsPerOne * Nat.pow 10 scale.toNat)
  else (m.units * Nat.pow 10 (-scale).toNat, stepsPerOne)

def Magnitude.ofScaled? (c : Nat) (scale : Int) : Option Magnitude :=
  if 0 ≤ scale then ofRatio? (c * Nat.pow 10 scale.toNat) 1
  else ofRatio? c (Nat.pow 10 (-scale).toNat)

/-- Of the two neighbours of a size on the grid `10 ^ scale`, the nearer one that reads back. -/
def Magnitude.neighbour? (m : Magnitude) (scale : Int) : Option Nat :=
  let (num, den) := m.ratioAt scale
  let below := num / den
  let nearer := roundHalfEven num den
  let farther := if nearer = below then below + 1 else below
  [nearer, farther].find? fun c => ofScaled? c scale = some m

def dropTrailingZeros (ds : List Char) : List Char :=
  (ds.reverse.dropWhile (· == '0')).reverse

def Decimal.ofScaled (c : Nat) (scale : Int) : Decimal :=
  let ds := Text.digits c
  ⟨dropTrailingZeros ds, scale + ds.length⟩

/-- The fewest digits, at most seventeen, that read back as the given positive size. -/
def Magnitude.shortest (m : Magnitude) : Decimal :=
  let k := m.leadingExponent
  let found := (List.range 17).findSome? fun (n : Nat) =>
    let scale := k - (n : Int)
    (m.neighbour? scale).map fun c => Decimal.ofScaled c scale
  let (num, den) := m.ratioAt (k - 16)
  found.getD (Decimal.ofScaled (roundHalfEven num den) (k - 16))

end Double

namespace Decimal

def zeros (n : Int) : List Char :=
  List.replicate n.toNat '0'

/-- Digits with a point where it belongs, and no point in a whole number. -/
def positional (d : Decimal) : List Char :=
  let n : Int := d.digits.length
  if d.point ≤ 0 then '0' :: '.' :: zeros (-d.point) ++ d.digits
  else if n ≤ d.point then d.digits ++ zeros (d.point - n)
  else d.digits.take d.point.toNat ++ '.' :: d.digits.drop d.point.toNat

/-- One digit before the point and a signed power of ten. -/
def scientific (d : Decimal) : List Char :=
  let e := d.point - 1
  let mantissa := match d.digits with
    | [] => []
    | [c] => [c]
    | c :: cs => c :: '.' :: cs
  mantissa ++ 'e' :: (if e < 0 then '-' else '+') :: Text.digits e.natAbs

end Decimal

namespace Double

def signText (negative : Bool) : List Char :=
  if negative then ['-'] else []

/-- Positional digits at any size; a zero keeps its sign. -/
def plainText : Double → String
  | nan => "NaN"
  | infinite negative => if negative then "-inf" else "inf"
  | finite negative m =>
    String.ofList (signText negative ++
      if m.units = 0 then ['0'] else m.shortest.positional)

instance : ToString Double := ⟨plainText⟩

/-- Smallest and first excluded power of ten that JSON text writes without an exponent. -/
def positionalExponents : Int × Int :=
  (-5, 16)

/-- A sign of being no integer always shows: ".0" or an exponent. Only finite numbers have a
form. -/
def jsonText? : Double → Option (List Char)
  | finite negative m =>
    let body :=
      if m.units = 0 then ['0', '.', '0']
      else
        let d := m.shortest
        let e := d.point - 1
        if positionalExponents.1 ≤ e ∧ e < positionalExponents.2 then
          if (d.digits.length : Int) ≤ d.point then d.positional ++ ['.', '0'] else d.positional
        else d.scientific
    some (signText negative ++ body)
  | _ => none

/-- The parts of a decimal text: digits before and after the point, and the power of ten. -/
structure Parts where
  whole : List Char
  fraction : List Char
  exponent : Int

def readExponent? (cs : List Char) : Option Int :=
  let (negative, ds) := match cs with
    | '-' :: r => (true, r)
    | '+' :: r => (false, r)
    | r => (false, r)
  if ds ≠ [] ∧ ds.all Text.isDigit then
    some (if negative then -(Text.ofDigits ds : Int) else Text.ofDigits ds)
  else none

/-- Digits with an optional point and an optional power of ten; at least one digit stands before
or after the point. -/
def readParts? (cs : List Char) : Option Parts :=
  let whole := cs.takeWhile Text.isDigit
  let afterWhole := cs.dropWhile Text.isDigit
  let (fraction, rest) := match afterWhole with
    | '.' :: r => (r.takeWhile Text.isDigit, r.dropWhile Text.isDigit)
    | r => ([], r)
  if whole = [] ∧ fraction = [] then none
  else match rest with
    | [] => some ⟨whole, fraction, 0⟩
    | c :: r =>
      if c = 'e' ∨ c = 'E' then (readExponent? r).map fun e => ⟨whole, fraction, e⟩
      else none

def ofParts (negative : Bool) (p : Parts) : Double :=
  ofDecimal negative (Text.ofDigits (p.whole ++ p.fraction)) (p.exponent - p.fraction.length)

/-- The number nearest to a decimal text with an optional sign; the names of the infinities and of
the not-a-number are read in any case. -/
def ofText? (s : String) : Option Double :=
  let (negative, cs) := match s.toList with
    | '-' :: r => (true, r)
    | '+' :: r => (false, r)
    | r => (false, r)
  match (String.ofList cs).toLower with
  | "nan" => some nan
  | "inf" | "infinity" => some (infinite negative)
  | _ => (readParts? cs).map (ofParts negative)

end Double

end HomeScenes
