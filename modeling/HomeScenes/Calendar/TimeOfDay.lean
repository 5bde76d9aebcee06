import HomeScenes.Text.Digits
import HomeScenes.Text.Blank
import HomeScenes.Text.Reading

/-!
# Times of day

A second of the day and the nanoseconds in it. A second may last two thousand million
nanoseconds: the second half of that range is a leap second, shown as second 60.
Moving a time by a duration leaves a leap second behind unless it stays within it.
-/

namespace HomeScenes

/-- Nanoseconds in a second that is no leap second. -/
def nanosPerSecond : Nat := 1000000000

def secondsPerDay : Nat := 86400

def nanosPerDay : Nat := 86400000000000

structure TimeOfDay where
  second : Nat
  nano : Nat
  second_lt : second < 86400
  nano_lt : nano < 2000000000
deriving DecidableEq

namespace TimeOfDay

def midnight : TimeOfDay :=
  ⟨0, 0, by decide, by decide⟩

instance : Inhabited TimeOfDay := ⟨midnight⟩

def isLeap (t : TimeOfDay) : Bool :=
  nanosPerSecond ≤ t.nano

/-- Place among all times of a day. -/
def rank (t : TimeOfDay) : Nat :=
  t.second * 2000000000 + t.nano

instance : LT TimeOfDay := ⟨fun a b => a.rank < b.rank⟩
instance : LE TimeOfDay := ⟨fun a b => a.rank ≤ b.rank⟩
instance (a b : TimeOfDay) : Decidable (a < b) := inferInstanceAs (Decidable (a.rank < b.rank))
instance (a b : TimeOfDay) : Decidable (a ≤ b) := inferInstanceAs (Decidable (a.rank ≤ b.rank))

/-- The time shown by hour, minute, second and nanosecond; second 60 is the leap second of its
minute. -/
def ofParts? (hour minute second nano : Nat) : Option TimeOfDay :=
  if h : hour < 24 ∧ minute < 60 ∧ second ≤ 60 ∧ nano < 1000000000 then
    let start := hour * 3600 + minute * 60
    if second = 60 then some ⟨start + 59, nano + 1000000000, by omega, by omega⟩
    else if hs : second < 60 then some ⟨start + second, nano, by omega, by omega⟩
    else none
  else none

/-- The day, counted from day zero, and the time of it that lie a number of nanoseconds after
midnight of day zero, with no leap second counted. -/
def ofNanos (n : Int) : Int × TimeOfDay :=
  let r := (n % 86400000000000).toNat
  (n / 86400000000000, ⟨r / 1000000000, r % 1000000000, by omega, by omega⟩)

/-- Move a time by a duration in nanoseconds, with the days it passes over. A move that leaves a
leap second forward starts from the second before it, one that leaves it backward from the
second after it. -/
def shift (t : TimeOfDay) (d : Int) : Int × TimeOfDay :=
  let start : Int := t.second * 1000000000 + t.nano
  if _h : t.nano < 1000000000 then ofNanos (start + d)
  else if d.tdiv 1000000000 > 0 ∨
      (d.tmod 1000000000 > 0 ∧ t.nano + d.tmod 1000000000 ≥ 2000000000) then
    ofNanos (start - 1000000000 + d)
  else if d.tdiv 1000000000 < 0 then ofNanos (start + d)
  else if h : (t.nano + d.tmod 1000000000).toNat < 2000000000 then
    (0, ⟨t.second, (t.nano + d.tmod 1000000000).toNat, t.second_lt, h⟩)
  else (0, t)

/-- Nanoseconds from one time to a later one of the same day; a leap second lies after the second
it belongs to and is counted once it is over. -/
def since (a b : TimeOfDay) : Int :=
  let leap : Int :=
    if b.second < a.second ∧ b.isLeap then 1
    else if a.second < b.second ∧ a.isLeap then -1
    else 0
  ((a.second : Int) - b.second + leap) * 1000000000 + ((a.nano : Int) - b.nano)

def hour (t : TimeOfDay) : Nat := t.second / 3600

def minute (t : TimeOfDay) : Nat := t.second / 60 % 60

/-- The full minute that a time lies in. -/
def startOfMinute (t : TimeOfDay) : TimeOfDay :=
  ⟨t.second - t.second % 60, 0, Nat.lt_of_le_of_lt (Nat.sub_le _ _) t.second_lt, by decide⟩

/-- The second as shown, 60 in a leap second. -/
def shownSecond (t : TimeOfDay) : Nat :=
  t.second % 60 + t.nano / nanosPerSecond

def shownNano (t : TimeOfDay) : Nat :=
  t.nano % nanosPerSecond

open Text in
/-- Three, six or nine digits after a point, the fewest that are exact, or nothing. -/
def fractionText (nano : Nat) : List Char :=
  if nano = 0 then []
  else if nano % 1000000 = 0 then '.' :: padded 3 (nano / 1000000)
  else if nano % 1000 = 0 then '.' :: padded 6 (nano / 1000)
  else '.' :: padded 9 nano

open Text in
def hourMinuteChars (t : TimeOfDay) : List Char :=
  padded 2 t.hour ++ ':' :: padded 2 t.minute

open Text in
def hourMinuteSecondChars (t : TimeOfDay) : List Char :=
  t.hourMinuteChars ++ ':' :: padded 2 t.shownSecond

/-- Hours and minutes; all that is finer is left out. -/
def hourMinuteText (t : TimeOfDay) : String :=
  String.ofList t.hourMinuteChars

/-- Hours, minutes and seconds; fractions are left out. -/
def hourMinuteSecondText (t : TimeOfDay) : String :=
  String.ofList t.hourMinuteSecondChars

/-- The exact form. -/
def chars (t : TimeOfDay) : List Char :=
  t.hourMinuteSecondChars ++ fractionText t.shownNano

def text (t : TimeOfDay) : String :=
  String.ofList t.chars

instance : ToString TimeOfDay := ⟨text⟩

open Text in
/-- A number with blanks in front of it. -/
def readNumber? (limit : Nat) (cs : List Char) : Option (Nat × List Char) :=
  takeNumber? limit (trimStart cs)

open Text in
/-- A fraction of a second after a point, in nanoseconds; digits after the ninth are dropped, and
a text that does not go on with a point has the fraction zero. -/
def readFraction? : List Char → Option (Nat × List Char)
  | '.' :: cs =>
    match spanDigits 9 cs with
    | ([], _) => none
    | (ds, rest) => some (ofDigits ds * Nat.pow 10 (9 - ds.length), rest.dropWhile isDigit)
  | cs => some (0, cs)

open Text in
/-- Hours, minutes and seconds with a fraction; blanks may stand around the numbers. -/
def readFull? (cs : List Char) : Option (TimeOfDay × List Char) := do
  let (hour, cs) ← readNumber? 2 cs
  let cs ← readMark? ':' (trimStart cs)
  let (minute, cs) ← readNumber? 2 cs
  let cs ← readMark? ':' (trimStart cs)
  let (second, cs) ← readNumber? 2 cs
  let (nano, cs) ← readFraction? cs
  let time ← ofParts? hour minute second nano
  return (time, trimStart cs)

open Text in
def readHourMinute? (cs : List Char) : Option (TimeOfDay × List Char) := do
  let (hour, cs) ← readNumber? 2 cs
  let cs ← readMark? ':' (trimStart cs)
  let (minute, cs) ← readNumber? 2 cs
  let time ← ofParts? hour minute 0 0
  return (time, trimStart cs)

/-- A time of day written with or without seconds. -/
def ofChars? (cs : List Char) : Option TimeOfDay :=
  match readFull? cs with
  | some (t, []) => some t
  | _ =>
    match readHourMinute? cs with
    | some (t, []) => some t
    | _ => none

def ofText? (s : String) : Option TimeOfDay :=
  ofChars? s.toList

open Text in
/-- The plainer form of settings: no fraction, and blanks only in front of a number. -/
def ofPlainText? (s : String) : Option TimeOfDay := do
  let (hour, cs) ← readNumber? 2 s.toList
  let cs ← readMark? ':' cs
  let (minute, cs) ← readNumber? 2 cs
  match cs with
  | [] => ofParts? hour minute 0 0
  | cs =>
    let cs ← readMark? ':' cs
    let (second, cs) ← readNumber? 2 cs
    if cs.isEmpty then ofParts? hour minute second 0 else none

end TimeOfDay

end HomeScenes
