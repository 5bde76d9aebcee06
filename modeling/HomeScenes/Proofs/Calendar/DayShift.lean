import HomeScenes.Proofs.Calendar.Dates
import HomeScenes.Proofs.Calendar.Days

/-!
# Moving by whole days

A local time moved by a number of days shows the same time of day on the same clock, on the date
that many dates later, or earlier. Moves add up, and it does not matter whether a time of day is
looked up before or after a move. All this is for ordinary times: a leap second is left behind by
any move.
-/

namespace HomeScenes.LocalTime

variable {t : LocalTime} {time : TimeOfDay}

def date (t : LocalTime) : Date :=
  Date.ofDayNumber t.day

theorem addDays_time_ordinary (h : t.utc.time.Ordinary) (days : Int) :
    (t.addDays days).utc.time.Ordinary := by
  rw [addDays_ordinary h]
  exact h

theorem wall_addDays (h : t.utc.time.Ordinary) (days : Int) :
    (t.addDays days).wall = ⟨t.day + days, t.time⟩ := by
  rw [addDays_ordinary h, wall, Instant.turn_turn, Int.add_comm, ← Instant.turn_turn,
    Instant.turn_days]
  rfl

theorem addDays_addDays (h : t.utc.time.Ordinary) (a b : Int) :
    (t.addDays a).addDays b = t.addDays (a + b) := by
  rw [addDays_ordinary (addDays_time_ordinary h a), addDays_ordinary h, addDays_ordinary h,
    Instant.turn_turn, Int.add_mul]

/-- Between two times that can be stored there are no more days than a duration can count. -/
theorem days_le_longestDuration {u v : Instant} {days : Int} (stored : u.isStorable = true)
    (also : v.isStorable = true) (apart : v.day = u.day + days) :
    (days * nanosPerDay).natAbs ≤ Instant.longestDuration.natAbs := by
  have span : (Date.lastDay - Date.firstDay) * nanosPerDay ≤ Instant.longestDuration := by decide
  simp only [Instant.isStorable, Bool.and_eq_true, decide_eq_true_eq] at stored also
  rw [nanosPerDay] at span ⊢
  omega

/-- The checked move is the move itself, as long as the moved time can be stored. -/
theorem addDays?_eq (h : t.utc.time.Ordinary) (stored : t.utc.isStorable = true) (days : Int) :
    t.addDays? days =
      if (t.addDays days).utc.isStorable then some (t.addDays days) else none := by
  have apart : (t.addDays days).utc.day = t.utc.day + days := by
    rw [addDays_ordinary h, Instant.turn_days]
  have moved : t.utc.shift (days * nanosPerDay) = (t.addDays days).utc := rfl
  rw [addDays?, Instant.shift?, moved]
  by_cases also : (t.addDays days).utc.isStorable = true
  · rw [if_pos ⟨days_le_longestDuration stored also apart, also⟩, if_pos also]
    rfl
  · rw [if_neg fun both => also both.2, if_neg also]
    rfl

/-- Moved by a number of days, an ordinary local time is shown on the same clock at the same time of
day and that many dates later, on the weekday that many weekdays later. Two moves are one move by
the sum, and the instant of an ordinary time of day on the day moved to is the instant of that time
on the day itself, moved. A time that can be stored is moved unless the moved time cannot be
stored. -/
theorem day_shift_coherent (ordinary : t.time.Ordinary) (also : time.Ordinary) (a b : Int) :
    (t.addDays a).offset = t.offset ∧ (t.addDays a).time = t.time ∧
    (t.addDays a).day = t.day + a ∧ Date.After a t.date (t.addDays a).date ∧
    ((t.addDays a).weekday : Int) = ((t.weekday : Int) - 1 + a) % 7 + 1 ∧
    (t.addDays a).addDays b = t.addDays (a + b) ∧
    (t.addDays a).onSameDay time = (t.onSameDay time).addDays a ∧
    (t.utc.isStorable = true → t.addDays? a =
      if (t.addDays a).utc.isStorable then some (t.addDays a) else none) := by
  have wall := wall_addDays ordinary a
  have day : (t.addDays a).day = t.day + a := congrArg Instant.day wall
  have same : (t.addDays a).time = t.time := by rw [LocalTime.time, wall]
  refine ⟨rfl, same, day, ?_, ?_, addDays_addDays ordinary a b, ?_, fun stored =>
    addDays?_eq ordinary stored a⟩
  · rw [date, date, day]
    exact Date.after_ofDayNumber t.day a
  · rw [weekday, weekday, day, Date.weekday, Date.weekday]
    omega
  · rw [onSameDay_eq, onSameDay_eq, day, addDays_onDay also]
    rfl

/-- From half past eleven on the evening of a Wednesday, 2024-02-28, two hours ahead of universal
time, to the Friday two days later, over the leap day, and back over the turn of the year. -/
theorem day_shift_coherent_leap_year :
    let t : LocalTime := ⟨⟨19781, ⟨77400, 0, by decide, by decide⟩⟩, 7200⟩
    let morning : TimeOfDay := ⟨26100, 0, by decide, by decide⟩
    t.time.Ordinary ∧ morning.Ordinary ∧ t.utc.isStorable = true ∧
      t.date = ⟨2024, 2, 28⟩ ∧ Date.After 2 t.date (t.addDays 2).date ∧
      (t.addDays 2).date = ⟨2024, 3, 1⟩ ∧
      ((t.addDays 2).weekday : Int) = ((t.weekday : Int) - 1 + 2) % 7 + 1 ∧
      (t.addDays 2).addDays (-61) = t.addDays (-59) ∧ (t.addDays (-59)).date = ⟨2023, 12, 31⟩ ∧
      (t.addDays 2).onSameDay morning = (t.onSameDay morning).addDays 2 ∧
      t.addDays? 2 = some (t.addDays 2) := by
  intro t morning
  have ordinary : t.time.Ordinary := (by decide : 0 < 1000000000)
  have also : morning.Ordinary := (by decide : 0 < 1000000000)
  obtain ⟨-, -, -, dates, weekdays, sum, looked, checked⟩ :=
    day_shift_coherent ordinary also 2 (-61)
  exact ⟨ordinary, also, by decide, by decide, dates, by decide, weekdays, sum, by decide, looked,
    (checked (by decide)).trans (if_pos (by decide))⟩

end HomeScenes.LocalTime
