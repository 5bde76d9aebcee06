import HomeScenes.Failure
import HomeScenes.Text.Digits

/-!
# Weekdays on which a scene repeats

A set of weekdays, 1 for Monday to 7 for Sunday, written as a row of distinct digits.
A set is never empty.
-/

namespace HomeScenes

/-- Bit `d - 1` stands for weekday `d`. -/
structure Weekdays where
  mask : BitVec 7
  nonempty : mask ≠ 0#7
deriving DecidableEq

namespace Weekdays

def everyDay : Weekdays := ⟨0b1111111#7, by decide⟩

def workdays : Weekdays := ⟨0b0011111#7, by decide⟩

instance : Inhabited Weekdays := ⟨everyDay⟩

def contains (w : Weekdays) (day : Nat) : Bool :=
  1 ≤ day && day ≤ 7 && w.mask.getLsbD (day - 1)

/-- The weekday a digit stands for. -/
def ofDigit? (c : Char) : Option Nat :=
  if '1' ≤ c && c ≤ '7' then some (c.toNat - '0'.toNat) else none

/-- Add the weekday of one more digit, which must be a new one. -/
def addDigit? (mask : BitVec 7) (c : Char) : Option (BitVec 7) :=
  match ofDigit? c with
  | some day =>
    if mask.getLsbD (day - 1) then none else some (mask ||| (1#7 <<< (day - 1)))
  | none => none

def ofChars? (cs : List Char) : Option Weekdays :=
  match cs.foldlM addDigit? 0#7 with
  | some mask => if h : mask ≠ 0#7 then some ⟨mask, h⟩ else none
  | none => none

/-- The set written by a row of digits. -/
def parse (s : String) : Except Invalid Weekdays :=
  match ofChars? s.toList with
  | some w => .ok w
  | none => .error (.repeatDays s)

/-- The digits in ascending order. -/
def chars (w : Weekdays) : List Char :=
  ((List.range 8).filter w.contains).flatMap Text.digits

def text (w : Weekdays) : String :=
  String.ofList w.chars

instance : ToString Weekdays := ⟨text⟩

end Weekdays

/-- How the weekdays of a scene were chosen. -/
inductive Recurrence where
  | daily
  | workdays
  | custom
deriving DecidableEq, Inhabited

namespace Recurrence

def text : Recurrence → String
  | daily => "daily"
  | workdays => "workdays"
  | custom => "custom"

instance : ToString Recurrence := ⟨text⟩

def ofText? (s : String) : Option Recurrence :=
  [daily, workdays, custom].find? fun r => r.text = s

/-- The weekdays that a choice stands for; a custom choice stands for none in particular. -/
def implied? : Recurrence → Option Weekdays
  | daily => some .everyDay
  | workdays => some .workdays
  | custom => none

/-- The weekdays have to be those that the choice stands for. -/
def check (r : Recurrence) (w : Weekdays) : Except Invalid Unit :=
  match r.implied? with
  | none => .ok ()
  | some expected =>
    if w = expected then .ok () else .error (.repeatMismatch r.text w.text)

end Recurrence

end HomeScenes
