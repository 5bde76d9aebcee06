import HomeScenes.Calendar.Date
import HomeScenes.Toml
import HomeScenes.Text.Digits
import HomeScenes.Text.Reading
import HomeScenes.Uuid

/-!
# Numbers, moments and truth values in TOML

A single underscore may stand between two digits. Integers have 64 bits and may be
written to the bases 2, 8 and 16. A floating-point number above the largest finite one
is refused.
-/

namespace HomeScenes.Toml

open HomeScenes.Text (Reading many readMark? readWord? isDigit spanDigits ofDigits)

/-- A digit, or an underscore and a digit. -/
def readLaterDigit? (isDigit : Char → Bool) : Reading Char
  | '_' :: c :: cs => if isDigit c then some (c, cs) else none
  | c :: cs => if isDigit c then some (c, cs) else none
  | [] => none

/-- One or more digits. -/
def readDigits? (isDigit : Char → Bool) : Reading (List Char)
  | [] => none
  | c :: cs =>
    if isDigit c then
      let (ds, rest) := many (readLaterDigit? isDigit) cs
      some (c :: ds, rest)
    else none

/-- Digits without a zero in front of others. -/
def readWhole? : Reading (List Char)
  | '0' :: cs => some (['0'], cs)
  | cs => readDigits? isDigit cs

/-- An optional sign, true for the minus. -/
def readSign : List Char → Bool × List Char
  | '-' :: cs => (true, cs)
  | '+' :: cs => (false, cs)
  | cs => (false, cs)

def readPoint? : Reading (List Char)
  | '.' :: cs => readDigits? isDigit cs
  | _ => none

def readPower? : Reading Int
  | [] => none
  | c :: cs =>
    if c = 'e' ∨ c = 'E' then
      let (negative, cs) := readSign cs
      (readDigits? isDigit cs).map fun (ds, rest) =>
        (if negative then -(ofDigits ds : Int) else ofDigits ds, rest)
    else none

/-- What follows the whole digits of a floating-point number: a fraction, a power, or both. -/
def readFloatEnd? : Reading (List Char × Int) := fun cs =>
  match readPoint? cs with
  | some (fraction, rest) =>
    match readPower? rest with
    | some (power, rest) => some ((fraction, power), rest)
    | none => some ((fraction, 0), rest)
  | none => (readPower? cs).map fun (power, rest) => (([], power), rest)

def readNamedFloat? (negative : Bool) (cs : List Char) : Option (Item × List Char) :=
  match readWord? ['i', 'n', 'f'] cs with
  | some rest => some (.float (.infinite negative), rest)
  | none => (readWord? ['n', 'a', 'n'] cs).map fun rest => (.float .nan, rest)

def readFloat? : Reading Item := fun cs =>
  let (negative, cs) := readSign cs
  let counted : Option (Item × List Char) := do
    let (whole, cs) ← readWhole? cs
    let ((fraction, power), rest) ← readFloatEnd? cs
    let d := Double.ofDecimal negative (ofDigits (whole ++ fraction)) (power - fraction.length)
    if d = .infinite false then none else some (.float d, rest)
  counted.orElse fun _ => readNamedFloat? negative cs

def isInt64 (i : Int) : Bool :=
  -9223372036854775808 ≤ i && i ≤ 9223372036854775807

/-- The number that digits write to a base. -/
def ofBase (base : Nat) (ds : List Char) : Int :=
  (ds.foldl (fun n d => base * n + (Uuid.hexValue? d).getD 0) 0 : Nat)

def isDigitOf (base : Nat) (c : Char) : Bool :=
  match Uuid.hexValue? c with
  | some d => d < base
  | none => false

def readBased? (base : Nat) : Reading Item := fun cs => do
  let (ds, rest) ← readDigits? (isDigitOf base) cs
  let i := ofBase base ds
  if isInt64 i then some (.int i, rest) else none

def readInt? : Reading Item
  | '0' :: 'x' :: cs => readBased? 16 cs
  | '0' :: 'o' :: cs => readBased? 8 cs
  | '0' :: 'b' :: cs => readBased? 2 cs
  | cs => do
    let (negative, cs) := readSign cs
    let (ds, rest) ← readWhole? cs
    let i : Int := if negative then -(ofDigits ds : Int) else ofDigits ds
    if isInt64 i then some (.int i, rest) else none

/-- A number of exactly so many digits. -/
def readFixed? (width : Nat) : Reading Nat := fun cs =>
  match spanDigits width cs with
  | (ds, rest) => if ds.length = width then some (ofDigits ds, rest) else none

/-- Two digits that write a number up to a limit. -/
def readTwo? (limit : Nat) : Reading Nat := fun cs =>
  (readFixed? 2 cs).filter fun r => r.1 ≤ limit

/-- A date; the rest of the text is what counts. -/
def skipDate? (cs : List Char) : Option (List Char) := do
  let (year, cs) ← readFixed? 4 cs
  let cs ← readMark? '-' cs
  let (month, cs) ← readTwo? 12 cs
  let cs ← readMark? '-' cs
  let (day, cs) ← readTwo? 31 cs
  if Date.isValid ⟨year, month, day⟩ then some cs else none

/-- A fraction of a second, if there is one. -/
def skipFraction (cs : List Char) : List Char :=
  match cs with
  | '.' :: d :: rest => if isDigit d then rest.dropWhile isDigit else cs
  | _ => cs

def skipTime? (cs : List Char) : Option (List Char) := do
  let (_, cs) ← readTwo? 23 cs
  let cs ← readMark? ':' cs
  let (_, cs) ← readTwo? 59 cs
  let cs ← readMark? ':' cs
  let (_, cs) ← readTwo? 60 cs
  return skipFraction cs

/-- An offset from universal time. -/
def skipOffset? : List Char → Option (List Char)
  | 'Z' :: cs => some cs
  | 'z' :: cs => some cs
  | c :: cs =>
    if c = '+' ∨ c = '-' then do
      let (_, cs) ← readTwo? 23 cs
      let cs ← readMark? ':' cs
      let (_, cs) ← readTwo? 59 cs
      return cs
    else none
  | [] => none

/-- A time of day after a date. -/
def skipTimeOfDate? : List Char → Option (List Char)
  | [] => none
  | c :: cs =>
    if c = 'T' ∨ c = 't' ∨ c = ' ' then
      (skipTime? cs).map fun rest => (skipOffset? rest).getD rest
    else none

/-- A date, a date with a time of day, or a time of day. -/
def readMoment? : Reading Item := fun cs =>
  match skipDate? cs with
  | some rest => some (.moment, (skipTimeOfDate? rest).getD rest)
  | none => (skipTime? cs).map fun rest => (.moment, rest)

def readBool? : Reading Item := fun cs =>
  match readWord? ['t', 'r', 'u', 'e'] cs with
  | some rest => some (.bool true, rest)
  | none => (readWord? ['f', 'a', 'l', 's', 'e'] cs).map fun rest => (.bool false, rest)

end HomeScenes.Toml
