import HomeScenes.Calendar.TimeOfDay
import HomeScenes.Calendar.Date

/-!
# Instants

A day and a time of it in coordinated universal time. Instants are ordered by day and
then by time, a leap second after the second it belongs to. Arithmetic is on unbounded
days; the checked forms answer nothing outside the years that can be stored.
-/

namespace HomeScenes

structure Instant where
  day : Int
  time : TimeOfDay
deriving DecidableEq

namespace Instant

instance : Inhabited Instant := ⟨⟨0, TimeOfDay.midnight⟩⟩

def rank (t : Instant) : Int :=
  t.day * 172800000000000 + t.time.rank

instance : LT Instant := ⟨fun a b => a.rank < b.rank⟩
instance : LE Instant := ⟨fun a b => a.rank ≤ b.rank⟩
instance (a b : Instant) : Decidable (a < b) := inferInstanceAs (Decidable (a.rank < b.rank))
instance (a b : Instant) : Decidable (a ≤ b) := inferInstanceAs (Decidable (a.rank ≤ b.rank))

def isStorable (t : Instant) : Bool :=
  Date.firstDay ≤ t.day && t.day ≤ Date.lastDay

/-- Move by a duration in nanoseconds. -/
def shift (t : Instant) (d : Int) : Instant :=
  let (days, time) := t.time.shift d
  ⟨t.day + days, time⟩

/-- Longest duration, in nanoseconds: as many milliseconds as 63 bits can count. -/
def longestDuration : Int := 9223372036854775807000000

/-- Move by a duration; nothing when the duration or the result is out of range. -/
def shift? (t : Instant) (d : Int) : Option Instant :=
  let r := t.shift d
  if d.natAbs ≤ longestDuration.natAbs ∧ r.isStorable then some r else none

/-- Nanoseconds from one instant to another. -/
def since (a b : Instant) : Int :=
  (a.day - b.day) * nanosPerDay + a.time.since b.time

/-- The instant a number of microseconds after the start of 1970. -/
def ofMicros (us : Int) : Instant :=
  let (day, time) := TimeOfDay.ofNanos (us * 1000)
  ⟨day, time⟩

/-- Microseconds since the start of 1970; what is finer is cut off. -/
def toMicros (t : Instant) : Int :=
  (t.day * secondsPerDay + t.time.second) * 1000000 + t.time.nano / 1000

/-- Date and time with a `T` between them. -/
def chars (t : Instant) : List Char :=
  (Date.ofDayNumber t.day).chars ++ 'T' :: t.time.chars

/-- The form with the mark `Z` of coordinated universal time. -/
def text (t : Instant) : String :=
  String.ofList (t.chars ++ ['Z'])

open Text in
/-- A year of at most four digits, or of any length after a sign. -/
def readYear? (cs : List Char) : Option (Int × List Char) :=
  match trimStart cs with
  | '-' :: r => (takeNumber? r.length r).map fun (n, rest) => (-(n : Int), rest)
  | '+' :: r => (takeNumber? r.length r).map fun (n, rest) => ((n : Int), rest)
  | r => (takeNumber? 4 r).map fun (n, rest) => ((n : Int), rest)

open Text TimeOfDay in
def readDate? (cs : List Char) : Option (Int × List Char) := do
  let (year, cs) ← readYear? cs
  let cs ← readMark? '-' (trimStart cs)
  let (month, cs) ← readNumber? 2 cs
  let cs ← readMark? '-' (trimStart cs)
  let (day, cs) ← readNumber? 2 cs
  let date : Date := ⟨year, month, day⟩
  let n := date.toDayNumber
  if date.isValid ∧ Date.firstDay ≤ n ∧ n ≤ Date.lastDay then some (n, cs) else none

/-- Date and time of day, separated by `T`, `t` or a space, and the rest of the text. -/
def readDateTime? (cs : List Char) : Option (Instant × List Char) := do
  let (day, cs) ← readDate? cs
  match cs with
  | [] => none
  | c :: cs =>
    if c = 'T' ∨ c = 't' ∨ c = ' ' then
      let (time, cs) ← TimeOfDay.readFull? cs
      return (⟨day, time⟩, cs)
    else none

/-- The two digits of the minutes of an offset. -/
def readOffsetMinutes? : List Char → Option (Nat × List Char)
  | a :: b :: cs =>
    if '0' ≤ a ∧ a ≤ '5' ∧ Text.isDigit b then
      some (10 * Text.digitValue a + Text.digitValue b, cs)
    else none
  | _ => none

/-- Offset from universal time in seconds: `Z`, the letters UTC, or a sign with two digits of
hours and two of minutes, which colons and blanks may separate. The sign may be the minus of
typesetting. -/
def readOffset? (cs : List Char) : Option (Int × List Char) :=
  if (cs.take 3).map Char.toUpper = ['U', 'T', 'C'] then some (0, cs.drop 3)
  else match cs with
    | 'Z' :: r => some (0, r)
    | 'z' :: r => some (0, r)
    | sign :: a :: b :: r =>
      if (sign = '+' ∨ sign = '-' ∨ sign = '\u2212') ∧ Text.isDigit a ∧ Text.isDigit b then do
        let hours := 10 * Text.digitValue a + Text.digitValue b
        let (minutes, rest) ← readOffsetMinutes? (r.dropWhile fun c => c == ':' || Text.isBlank c)
        let seconds : Int := (hours * 3600 + minutes * 60 : Nat)
        if seconds < secondsPerDay then
          return (if sign = '+' then seconds else -seconds, rest)
        else none
      else none
    | _ => none

/-- Move a clock reading by whole seconds, keeping a leap second as it is. -/
def turn (t : Instant) (seconds : Int) : Instant :=
  let s := (t.time.second : Int) + seconds
  ⟨t.day + s / 86400, ⟨(s % 86400).toNat, t.time.nano, by omega, t.time.nano_lt⟩⟩

/-- The instant written by date, time and offset. -/
def ofChars? (cs : List Char) : Option Instant := do
  let (wall, cs) ← readDateTime? cs
  let (offset, cs) ← readOffset? (Text.trimStart cs)
  let utc := wall.turn (-offset)
  if (Text.trimStart cs).isEmpty ∧ utc.isStorable then some utc else none

def ofText? (s : String) : Option Instant :=
  ofChars? s.toList

end Instant

end HomeScenes
