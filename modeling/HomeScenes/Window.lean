import HomeScenes.Calendar.TimeOfDay
import HomeScenes.Failure

/-!
# Effect windows

The part of the day in which a scene is in effect. A window starts at its first time
and ends before its last; one that ends before it starts goes on past midnight.
-/

namespace HomeScenes

inductive Window where
  | allDay
  | between (start stop : TimeOfDay)
deriving DecidableEq, Inhabited

namespace Window

def contains : Window → TimeOfDay → Bool
  | allDay, _ => true
  | between start stop, t =>
    if start ≤ stop then start ≤ t && t < stop else start ≤ t || t < stop

def validate : Window → Except Invalid Unit
  | allDay => .ok ()
  | between start stop => if start = stop then .error .emptyWindow else .ok ()

/-- Seconds and fractions are left out. -/
def text : Window → String
  | allDay => "all_day"
  | between start stop => start.hourMinuteText ++ ".." ++ stop.hourMinuteText

instance : ToString Window := ⟨text⟩

end Window

end HomeScenes
