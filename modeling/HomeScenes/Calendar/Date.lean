import HomeScenes.Text.Digits

/-!
# Calendar dates

Dates of the Gregorian calendar, extended to all years, against the number of days
since the first of January 1970. Years start in March here, so that the leap day is
the last day of its year and a cycle of 400 years has 146097 days.
-/

namespace HomeScenes

structure Date where
  year : Int
  month : Nat
  day : Nat
deriving DecidableEq

namespace Date

def isLeapYear (year : Int) : Bool :=
  year % 4 == 0 && (year % 100 != 0 || year % 400 == 0)

def daysInMonth (year : Int) (month : Nat) : Nat :=
  match month with
  | 2 => if isLeapYear year then 29 else 28
  | 4 | 6 | 9 | 11 => 30
  | _ => 31

def isValid (d : Date) : Bool :=
  1 ≤ d.month && d.month ≤ 12 && 1 ≤ d.day && d.day ≤ daysInMonth d.year d.month

/-- Days in the 719468 days from the first of March of year zero to the first of January 1970
and on to the date. -/
def toDayNumber (d : Date) : Int :=
  let y := if d.month ≤ 2 then d.year - 1 else d.year
  let m := if d.month ≤ 2 then d.month + 9 else d.month - 3
  let yearOfCycle := y % 400
  let dayOfYear : Int := (153 * m + 2) / 5 + d.day - 1
  y / 400 * 146097 + (yearOfCycle * 365 + yearOfCycle / 4 - yearOfCycle / 100 + dayOfYear) - 719468

def ofDayNumber (n : Int) : Date :=
  let z := n + 719468
  let dayOfCycle := (z % 146097).toNat
  let yearOfCycle :=
    (dayOfCycle - dayOfCycle / 1460 + dayOfCycle / 36524 - dayOfCycle / 146096) / 365
  let dayOfYear := dayOfCycle - (365 * yearOfCycle + yearOfCycle / 4 - yearOfCycle / 100)
  let m := (5 * dayOfYear + 2) / 153
  let month := if m < 10 then m + 3 else m - 9
  let year : Int := yearOfCycle + z / 146097 * 400
  ⟨if month ≤ 2 then year + 1 else year, month, dayOfYear - (153 * m + 2) / 5 + 1⟩

/-- Number of the weekday, 1 for Monday to 7 for Sunday; day zero was a Thursday. -/
def weekday (dayNumber : Int) : Nat :=
  ((dayNumber + 3) % 7).toNat + 1

/-- Day numbers of the first and the last date that can be stored, in the years -262143 and
262142. -/
def firstDay : Int := toDayNumber ⟨-262143, 1, 1⟩

def lastDay : Int := toDayNumber ⟨262142, 12, 31⟩

open Text in
/-- Four digits for the years 0 to 9999, else a sign and at least four digits. -/
def yearText (year : Int) : List Char :=
  if 0 ≤ year ∧ year ≤ 9999 then padded 4 year.toNat
  else (if year < 0 then '-' else '+') :: padded 4 year.natAbs

open Text in
def chars (d : Date) : List Char :=
  yearText d.year ++ '-' :: padded 2 d.month ++ '-' :: padded 2 d.day

end Date

end HomeScenes
