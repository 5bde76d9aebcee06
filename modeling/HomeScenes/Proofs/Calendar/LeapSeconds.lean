import HomeScenes.Proofs.Calendar.Days

/-!
# Leap seconds on the wall clock

What a wall clock shows at the instant of a time of day. An ordinary time comes out as it was asked
for, and so does a leap second where the clock shows universal time. On any other clock the leap
second is lost: a clock that is behind shows the ordinary second before it, and one that is ahead
shows the second after it, which after the last minute of a day belongs to the day that follows.
-/

namespace HomeScenes.LocalTime

variable {time : TimeOfDay} {offset day seconds : Int}

theorem shift_zero (t : Instant) : t.shift 0 = t :=
  congrArg LocalTime.utc (addDays_zero ⟨t, 0⟩)

/-- A move forward leaves a leap second for the ordinary second before it, and a move backward for
the second after it, from where it goes on. -/
theorem shift_leap (leap : ¬ time.Ordinary) (moved : seconds ≠ 0) :
    Instant.shift ⟨day, time⟩ (seconds * nanosPerSecond) =
      Instant.turn ⟨day, time.unleaped⟩ (if 0 < seconds then seconds else seconds + 1) := by
  obtain ⟨second, nano, hs, hn⟩ := time
  have leap : ¬ nano < 1000000000 := leap
  have quotient : (seconds * (nanosPerSecond : Int)).tdiv 1000000000 = seconds :=
    Int.mul_tdiv_cancel seconds (by decide)
  have remainder : (seconds * (nanosPerSecond : Int)).tmod 1000000000 = 0 :=
    Int.mul_tmod_left seconds 1000000000
  simp only [Instant.shift, TimeOfDay.shift, dif_neg leap, quotient, remainder]
  by_cases forward : 0 < seconds
  · simp only [gt_iff_lt, forward, true_or, if_true, TimeOfDay.ofNanos, Instant.turn,
      TimeOfDay.unleaped, if_neg leap, nanosPerSecond, Instant.mk.injEq, TimeOfDay.mk.injEq]
    omega
  · have backward : seconds < 0 := by omega
    simp only [gt_iff_lt, forward, Int.lt_irrefl, false_and, or_self, if_false, backward, if_true,
      TimeOfDay.ofNanos, Instant.turn, TimeOfDay.unleaped, if_neg leap, nanosPerSecond,
      Instant.mk.injEq, TimeOfDay.mk.injEq]
    omega

theorem wall_onDay_leap (leap : ¬ time.Ordinary) (moved : offset ≠ 0) :
    (onDay offset day time).wall =
      Instant.turn ⟨day, time.unleaped⟩ (if 0 < offset then 1 else 0) := by
  have utc : (onDay offset day time).utc = Instant.turn ⟨day, time.unleaped⟩
      (if 0 < -offset then -offset else -offset + 1) := shift_leap leap (by omega)
  rw [wall, utc, onDay_offset, Instant.turn_turn]
  congr 1
  split <;> split <;> omega

/-- On a clock that shows universal time nothing is moved. -/
theorem wall_onDay_utc (day : Int) (time : TimeOfDay) : (onDay 0 day time).wall = ⟨day, time⟩ := by
  rw [wall, onDay, Int.neg_zero, Int.zero_mul, shift_zero, Instant.turn_zero]

/-- The instant of a time of day on the day of a local time, on the same clock. The clock shows that
day and that time there if, and only if, the time is no leap second or the clock shows universal
time. A leap second on another clock becomes the ordinary second before it, on the same day, if the
clock is behind, and the second after it if the clock is ahead, which is on the next day for the
leap second that ends a day, and for no other time. -/
theorem onSameDay_exact (t : LocalTime) (time : TimeOfDay) :
    let r := t.onSameDay time
    r.offset = t.offset ∧
    r.wall = (if time.isLeap ∧ t.offset ≠ 0
      then Instant.turn ⟨t.day, time.unleaped⟩ (if 0 < t.offset then 1 else 0)
      else ⟨t.day, time⟩) ∧
    (r.day = t.day ∧ r.weekday = t.weekday ∧ r.time = time ↔ ¬ (time.isLeap ∧ t.offset ≠ 0)) ∧
    (r.day = t.day ↔ ¬ (time.isLeap ∧ 0 < t.offset ∧ time.second = 86399)) := by
  intro r
  have leap_iff : time.isLeap = true ↔ ¬ time.Ordinary := by
    rw [TimeOfDay.isLeap, TimeOfDay.Ordinary, decide_eq_true_iff, Nat.not_lt]
    rfl
  have wall : r.wall = if time.isLeap ∧ t.offset ≠ 0
      then Instant.turn ⟨t.day, time.unleaped⟩ (if 0 < t.offset then 1 else 0)
      else ⟨t.day, time⟩ := by
    split
    next lost => exact wall_onDay_leap (leap_iff.mp lost.1) lost.2
    next kept =>
      by_cases leap : time.Ordinary
      · exact wall_onDay leap
      · have utc : t.offset = 0 := by
          by_contra moved
          exact kept ⟨leap_iff.mpr leap, moved⟩
        rw [show r = onDay t.offset t.day time from rfl, utc, wall_onDay_utc]
  refine ⟨rfl, wall, ?_, ?_⟩
  · constructor
    · rintro ⟨-, -, same⟩ ⟨leap, moved⟩
      rw [LocalTime.time, wall, if_pos ⟨leap, moved⟩] at same
      have ordinary : (Instant.turn ⟨t.day, time.unleaped⟩
          (if 0 < t.offset then 1 else 0)).time.Ordinary := time.unleaped_ordinary
      rw [same] at ordinary
      exact leap_iff.mp leap ordinary
    · intro kept
      rw [weekday, LocalTime.day, LocalTime.time, wall, if_neg kept]
      exact ⟨rfl, rfl, rfl⟩
  · have early := time.second_lt
    rw [LocalTime.day, wall]
    split
    next lost =>
      have second : time.unleaped.second = time.second := rfl
      simp only [Instant.turn, second, lost.1, true_and]
      split <;> omega
    next kept =>
      refine ⟨fun _ lost => kept ⟨lost.1, ?_⟩, fun _ => rfl⟩
      have ahead := lost.2.1
      omega

/-- The leap second at the end of a Monday, which both readers of times of day take, on a clock one
hour ahead of universal time: it comes out as the first second of the Tuesday. -/
theorem leap_second_on_next_day :
    let monday : LocalTime := ⟨⟨19849, ⟨32400, 0, by decide, by decide⟩⟩, 3600⟩
    ∃ time, TimeOfDay.ofText? "23:59:60" = some time ∧
      TimeOfDay.ofPlainText? "23:59:60" = some time ∧
      monday.weekday = 1 ∧ (monday.onSameDay time).weekday = 2 ∧
      (monday.onSameDay time).day = monday.day + 1 ∧
      (monday.onSameDay time).time = TimeOfDay.midnight := by
  refine ⟨⟨86399, 1000000000, by decide, by decide⟩, ?_, ?_, ?_, ?_, ?_, ?_⟩
  · rfl
  · rfl
  · decide
  · decide
  · decide
  · decide

end HomeScenes.LocalTime
