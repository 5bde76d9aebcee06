import HomeScenes.Proofs.Calendar.Order

/-!
# Days on the wall clock

The local time at which a clock shows a time of day on a day. An ordinary time of day is
shown on that very day; a leap second that is moved to another offset becomes an ordinary
second, and may be shown on the day after.
-/

namespace HomeScenes

def TimeOfDay.Ordinary (t : TimeOfDay) : Prop :=
  t.nano < 1000000000

/-- The same time, or that of the second before if it is a leap second. -/
def TimeOfDay.unleaped (t : TimeOfDay) : TimeOfDay :=
  ⟨t.second, if t.nano < 1000000000 then t.nano else t.nano - 1000000000, t.second_lt, by
    have := t.nano_lt
    split <;> omega⟩

theorem TimeOfDay.Ordinary.unleaped {t : TimeOfDay} (h : t.Ordinary) : t.unleaped = t := by
  have h : t.nano < 1000000000 := h
  simp only [TimeOfDay.unleaped, if_pos h]

theorem TimeOfDay.unleaped_ordinary (t : TimeOfDay) : t.unleaped.Ordinary := by
  have := t.nano_lt
  simp only [TimeOfDay.Ordinary, TimeOfDay.unleaped]
  split <;> omega

theorem TimeOfDay.unleaped_le (t : TimeOfDay) : t.unleaped ≤ t := by
  show t.second * 2000000000 + t.unleaped.nano ≤ t.second * 2000000000 + t.nano
  simp only [TimeOfDay.unleaped]
  split <;> omega

namespace LocalTime

def onDay (offset day : Int) (time : TimeOfDay) : LocalTime :=
  ⟨Instant.shift ⟨day, time⟩ (-offset * nanosPerSecond), offset⟩

theorem onSameDay_eq (t : LocalTime) (time : TimeOfDay) :
    t.onSameDay time = onDay t.offset t.day time := rfl

@[simp] theorem onDay_offset (offset day : Int) (time : TimeOfDay) :
    (onDay offset day time).offset = offset := rfl

theorem le_def {a b : LocalTime} : a ≤ b ↔ a.utc ≤ b.utc := Iff.rfl

theorem lt_def {a b : LocalTime} : a < b ↔ a.utc < b.utc := Iff.rfl

theorem shift_ordinary {t : Instant} (h : t.time.Ordinary) (seconds : Int) :
    t.shift (seconds * nanosPerSecond) = t.turn seconds := by
  obtain ⟨day, ⟨second, nano, hs, hn⟩⟩ := t
  have h : nano < 1000000000 := h
  simp only [Instant.shift, TimeOfDay.shift, dif_pos h, TimeOfDay.ofNanos, Instant.turn,
    nanosPerSecond, Instant.mk.injEq, TimeOfDay.mk.injEq]
  omega

theorem utc_onDay {offset day : Int} {time : TimeOfDay} (h : time.Ordinary) :
    (onDay offset day time).utc = Instant.turn ⟨day, time⟩ (-offset) :=
  shift_ordinary h (-offset)

theorem wall_onDay {offset day : Int} {time : TimeOfDay} (h : time.Ordinary) :
    (onDay offset day time).wall = ⟨day, time⟩ := by
  rw [wall, utc_onDay h, onDay_offset, Instant.turn_turn, Int.add_left_neg, Instant.turn_zero]

theorem day_onDay {offset day : Int} {time : TimeOfDay} (h : time.Ordinary) :
    (onDay offset day time).day = day := by
  rw [LocalTime.day, wall_onDay h]

theorem onDay_injective {offset d e : Int} {t u : TimeOfDay} (ht : t.Ordinary) (hu : u.Ordinary)
    (h : (onDay offset d t).utc = (onDay offset e u).utc) : d = e ∧ t = u := by
  have walls : (onDay offset d t).wall = (onDay offset e u).wall := by
    rw [wall, wall, h]
    rfl
  rw [wall_onDay ht, wall_onDay hu] at walls
  injection walls with hd ht
  exact ⟨hd, ht⟩

theorem day_le_of_utc_le {a b : LocalTime} (offset : a.offset = b.offset) (h : a.utc ≤ b.utc) :
    a.day ≤ b.day := by
  apply Instant.day_le_of_le
  rw [wall, wall, offset]
  exact Instant.turn_le_turn.mpr h

theorem utc_lt_of_day_lt {a b : LocalTime} (offset : a.offset = b.offset) (h : a.day < b.day) :
    a.utc < b.utc := by
  have walls : a.wall < b.wall := Instant.lt_of_day_lt h
  rw [wall, wall, offset] at walls
  exact Instant.turn_lt_turn.mp walls

/-- Also a leap second is not shown before its day. -/
theorem le_day_onDay (offset day : Int) (time : TimeOfDay) : day ≤ (onDay offset day time).day := by
  obtain ⟨second, nano, hs, hn⟩ := time
  have quotient : (-offset * (nanosPerSecond : Int)).tdiv 1000000000 = -offset :=
    Int.mul_tdiv_cancel (-offset) (by decide)
  have remainder : (-offset * (nanosPerSecond : Int)).tmod 1000000000 = 0 :=
    Int.mul_tmod_left (-offset) 1000000000
  simp only [LocalTime.day, wall, onDay, Instant.shift, TimeOfDay.shift, quotient, remainder]
  simp only [nanosPerSecond]
  split
  · simp only [TimeOfDay.ofNanos, Instant.turn]
    omega
  · split
    · simp only [TimeOfDay.ofNanos, Instant.turn]
      omega
    · split
      · simp only [TimeOfDay.ofNanos, Instant.turn]
        omega
      · split
        · simp only [Instant.turn]
          omega
        · simp only [Instant.turn]
          omega

@[simp] theorem addDays_zero (t : LocalTime) : t.addDays 0 = t := by
  obtain ⟨⟨day, ⟨second, nano, hs, hn⟩⟩, offset⟩ := t
  by_cases h : nano < 1000000000
  · simp only [addDays, shift, Instant.shift, TimeOfDay.shift, dif_pos h, TimeOfDay.ofNanos,
      LocalTime.mk.injEq, Instant.mk.injEq, TimeOfDay.mk.injEq, and_true]
    omega
  · simp [addDays, shift, Instant.shift, TimeOfDay.shift, dif_neg h, hn]

/-- Days later, at the same time: a leap second is left behind. -/
theorem addDays_pos (t : LocalTime) {days : Int} (pos : 0 < days) :
    t.addDays days = ⟨⟨t.utc.day + days, t.utc.time.unleaped⟩, t.offset⟩ := by
  obtain ⟨⟨day, ⟨second, nano, hs, hn⟩⟩, offset⟩ := t
  by_cases h : nano < 1000000000
  · simp only [addDays, shift, Instant.shift, TimeOfDay.shift, dif_pos h, TimeOfDay.ofNanos,
      TimeOfDay.unleaped, if_pos h, nanosPerDay, LocalTime.mk.injEq, Instant.mk.injEq,
      TimeOfDay.mk.injEq, and_true]
    omega
  · have forward : (days * (nanosPerDay : Int)).tdiv 1000000000 > 0 := by
      have whole : days * (nanosPerDay : Int) = days * 86400 * 1000000000 := by
        rw [nanosPerDay]
        omega
      rw [whole, Int.mul_tdiv_cancel _ (by decide)]
      omega
    simp only [addDays, shift, Instant.shift, TimeOfDay.shift, dif_neg h,
      if_pos (Or.inl forward), TimeOfDay.ofNanos, TimeOfDay.unleaped, if_neg h,
      LocalTime.mk.injEq, Instant.mk.injEq, TimeOfDay.mk.injEq, and_true]
    rw [nanosPerDay]
    omega

theorem addDays_addDays_one (t : LocalTime) (k : Nat) :
    (t.addDays k).addDays 1 = t.addDays (k + 1 : Nat) := by
  cases k with
  | zero => rw [Int.natCast_zero, addDays_zero, Nat.zero_add, Int.natCast_one]
  | succ k =>
    rw [addDays_pos t (by omega), addDays_pos _ (by decide), addDays_pos t (by omega)]
    simp only [t.utc.time.unleaped_ordinary.unleaped, LocalTime.mk.injEq, Instant.mk.injEq,
      and_true]
    omega

theorem addDays_one (t : LocalTime) : ∃ time : TimeOfDay, time ≤ t.utc.time ∧
    (t.utc.time.Ordinary → time = t.utc.time) ∧ time.second = t.utc.time.second ∧
    t.addDays 1 = ⟨⟨t.utc.day + 1, time⟩, t.offset⟩ :=
  ⟨t.utc.time.unleaped, t.utc.time.unleaped_le, fun h => h.unleaped, rfl,
    addDays_pos t (by decide)⟩

theorem addDays_offset (t : LocalTime) (days : Int) : (t.addDays days).offset = t.offset := rfl

theorem day_addDays_one (t : LocalTime) : (t.addDays 1).day = t.day + 1 := by
  obtain ⟨time, -, -, second, next⟩ := addDays_one t
  simp only [next, LocalTime.day, wall, Instant.turn, second]
  omega

/-- Days before or after an ordinary time, at the same time. -/
theorem addDays_ordinary {t : LocalTime} (h : t.utc.time.Ordinary) (days : Int) :
    t.addDays days = ⟨t.utc.turn (days * 86400), t.offset⟩ := by
  have whole : days * (nanosPerDay : Int) = days * 86400 * nanosPerSecond := by
    rw [nanosPerDay, nanosPerSecond]
    omega
  rw [addDays, shift, whole, shift_ordinary h]

theorem addDays_onDay {offset day : Int} {time : TimeOfDay} (h : time.Ordinary) (days : Int) :
    (onDay offset day time).addDays days = onDay offset (day + days) time := by
  have ordinary : (onDay offset day time).utc.time.Ordinary := by
    rw [utc_onDay h]
    exact h
  rw [addDays_ordinary ordinary, utc_onDay h, Instant.turn_turn, Int.add_comm,
    ← Instant.turn_turn, Instant.turn_days, ← utc_onDay h]
  rfl

theorem utc_onDay_mono {offset d e : Int} (time : TimeOfDay) (h : d ≤ e) :
    (onDay offset d time).utc ≤ (onDay offset e time).utc := by
  simp only [onDay, Instant.shift, Instant.le_def, Instant.rank]
  omega

/-- A day after a time that is not past some time of day, the same holds on the next day. -/
theorem utc_addDays_one_le {t : LocalTime} {time : TimeOfDay}
    (h : t.utc ≤ (onDay t.offset t.day time).utc) :
    (t.addDays 1).utc ≤ (onDay t.offset (t.addDays 1).day time).utc := by
  obtain ⟨later, earlier, -, -, next⟩ := addDays_one t
  rw [day_addDays_one, next]
  simp only [onDay, Instant.shift, Instant.le_def, Instant.rank] at h ⊢
  have earlier : later.rank ≤ t.utc.time.rank := earlier
  omega

end LocalTime

end HomeScenes
