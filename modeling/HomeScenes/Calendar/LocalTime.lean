import HomeScenes.Calendar.Instant

/-!
# Local time

An instant together with the offset of the wall clock it is read on. "Today", weekdays
and times of day are those of the wall clock.
-/

namespace HomeScenes

structure LocalTime where
  utc : Instant
  /-- Seconds by which the wall clock is ahead of universal time. -/
  offset : Int
deriving DecidableEq, Inhabited

namespace LocalTime

/-- What the wall clock shows. -/
def wall (t : LocalTime) : Instant :=
  t.utc.turn t.offset

def ofWall (wall : Instant) (offset : Int) : LocalTime :=
  ⟨wall.turn (-offset), offset⟩

def day (t : LocalTime) : Int :=
  t.wall.day

def time (t : LocalTime) : TimeOfDay :=
  t.wall.time

/-- Number of the weekday, 1 for Monday to 7 for Sunday. -/
def weekday (t : LocalTime) : Nat :=
  Date.weekday t.day

instance : LT LocalTime := ⟨fun a b => a.utc < b.utc⟩
instance : LE LocalTime := ⟨fun a b => a.utc ≤ b.utc⟩
instance (a b : LocalTime) : Decidable (a < b) := inferInstanceAs (Decidable (a.utc < b.utc))
instance (a b : LocalTime) : Decidable (a ≤ b) := inferInstanceAs (Decidable (a.utc ≤ b.utc))

/-- The instant of a time of day on the local day of `t`: that date and time, moved back by the
offset. -/
def onSameDay (t : LocalTime) (time : TimeOfDay) : LocalTime :=
  ⟨Instant.shift ⟨t.day, time⟩ (-t.offset * nanosPerSecond), t.offset⟩

def shift (t : LocalTime) (d : Int) : LocalTime :=
  ⟨t.utc.shift d, t.offset⟩

def addDays (t : LocalTime) (days : Int) : LocalTime :=
  t.shift (days * nanosPerDay)

/-- The same move, or nothing when it leaves the range of dates. -/
def addDays? (t : LocalTime) (days : Int) : Option LocalTime :=
  (t.utc.shift? (days * nanosPerDay)).map fun utc => ⟨utc, t.offset⟩

def text (t : LocalTime) : String :=
  String.ofList t.wall.chars

/-- The local time written by date and time of day, at a given offset. -/
def ofText? (s : String) (offset : Int) : Option LocalTime :=
  match Instant.readDateTime? s.toList with
  | some (wall, []) => some (ofWall wall offset)
  | _ => none

end LocalTime

end HomeScenes
