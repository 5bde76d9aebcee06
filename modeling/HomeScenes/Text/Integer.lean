import HomeScenes.Text.Digits

/-!
# Integers in settings

Decimal digits with an optional sign and nothing else: no blanks and no separators. A
minus is read for signed numbers only, also in front of zero.
-/

namespace HomeScenes.Text

/-- One or more digits. -/
def ofDigits? (ds : List Char) : Option Nat :=
  if ds ≠ [] ∧ ds.all isDigit then some (ofDigits ds) else none

def natOfChars? : List Char → Option Nat
  | '+' :: ds => ofDigits? ds
  | ds => ofDigits? ds

def intOfChars? : List Char → Option Int
  | '-' :: ds => (ofDigits? ds).map fun n : Nat => -(n : Int)
  | cs => (natOfChars? cs).map fun n : Nat => (n : Int)

/-- An unsigned number of 64 bits. -/
def uint64OfText? (s : String) : Option UInt64 :=
  ((natOfChars? s.toList).filter (· < 18446744073709551616)).map UInt64.ofNat

/-- A signed number of 32 bits. -/
def int32OfText? (s : String) : Option Int32 :=
  ((intOfChars? s.toList).filter fun i => -2147483648 ≤ i ∧ i < 2147483648).map Int32.ofInt

end HomeScenes.Text
