import HomeScenes.Window
import Mathlib.Tactic.Common

/-!
# Windows round the clock

A window holds the times that are met from its start on, going round the clock one time after the
other, until its end is met. Windows that follow each other round the clock therefore join without
a gap and without a time in common, and a window and the one from its end to its start share out
the day. Leap seconds are times like all others here: each follows the second that it belongs to.
-/

namespace HomeScenes

namespace TimeOfDay

variable {a b c start stop t : TimeOfDay}

theorem rank_injective (h : a.rank = b.rank) : a = b := by
  obtain ⟨sa, na, hsa, hna⟩ := a
  obtain ⟨sb, nb, hsb, hnb⟩ := b
  simp only [rank] at h
  have second : sa = sb := by omega
  have nano : na = nb := by omega
  subst second nano
  rfl

/-- Times on the clock. -/
def perDay : Nat := 172800000000000

theorem rank_lt (t : TimeOfDay) : t.rank < perDay := by
  have second := t.second_lt
  have nano := t.nano_lt
  simp only [rank, perDay]
  omega

theorem exists_rank {n : Nat} (h : n < perDay) : ∃ t : TimeOfDay, t.rank = n := by
  simp only [perDay] at h
  refine ⟨⟨n / 2000000000, n % 2000000000, by omega, by omega⟩, ?_⟩
  simp only [rank]
  omega

/-- The time that comes next on the clock; midnight comes after the last one. -/
def next (t : TimeOfDay) : TimeOfDay :=
  if later : t.nano + 1 < 2000000000 then ⟨t.second, t.nano + 1, t.second_lt, later⟩
  else if later : t.second + 1 < 86400 then ⟨t.second + 1, 0, later, midnight.nano_lt⟩
  else midnight

/-- The times that are met, going round the clock from `start`, before `stop` is met. -/
inductive MetBefore (start stop : TimeOfDay) : TimeOfDay → Prop
  | start : start ≠ stop → MetBefore start stop start
  | next {t : TimeOfDay} : MetBefore start stop t → t.next ≠ stop → MetBefore start stop t.next

def stepsTo (a b : TimeOfDay) : Nat :=
  if a.rank ≤ b.rank then b.rank - a.rank else perDay - a.rank + b.rank

theorem rank_next (t : TimeOfDay) :
    t.next.rank = if t.rank + 1 < perDay then t.rank + 1 else 0 := by
  have second := t.second_lt
  have nano := t.nano_lt
  have all : perDay = 172800000000000 := rfl
  have own : t.rank = t.second * 2000000000 + t.nano := rfl
  simp only [next]
  split
  · rw [if_pos (by omega), own]
    exact (Nat.add_assoc _ _ _).symm
  · split
    · rw [if_pos (by omega), own]
      simp only [rank]
      omega
    · rw [if_neg (by omega)]
      rfl

theorem exists_next (t : TimeOfDay) : ∃ before : TimeOfDay, before.next = t := by
  have bound := t.rank_lt
  obtain ⟨before, place⟩ : ∃ before : TimeOfDay,
      before.rank = if t.rank = 0 then perDay - 1 else t.rank - 1 := by
    apply exists_rank
    split <;> omega
  refine ⟨before, rank_injective ?_⟩
  rw [rank_next, place]
  split <;> split <;> omega

theorem stepsTo_self (a : TimeOfDay) : a.stepsTo a = 0 := by
  simp [stepsTo]

theorem stepsTo_injective (h : a.stepsTo b = a.stepsTo c) : b = c := by
  have hb := b.rank_lt
  have hc := c.rank_lt
  apply rank_injective
  simp only [stepsTo] at h
  split at h <;> split at h <;> omega

theorem stepsTo_pos (h : a ≠ b) : 0 < a.stepsTo b := by
  rcases Nat.eq_zero_or_pos (a.stepsTo b) with none | some
  · exact absurd (stepsTo_injective ((stepsTo_self a).trans none.symm)) h
  · exact some

/-- One more step, unless it leads back to where the way began. -/
theorem stepsTo_next (a t : TimeOfDay) :
    a.stepsTo t.next = if t.next = a then 0 else a.stepsTo t + 1 := by
  split
  next back => rw [back, stepsTo_self]
  next onward =>
    have bound := t.rank_lt
    have from_ := a.rank_lt
    have moved := rank_next t
    have apart : t.next.rank ≠ a.rank := fun same => onward (rank_injective same)
    simp only [stepsTo]
    split at moved <;> split <;> split <;> omega

theorem metBefore_iff : MetBefore start stop t ↔ start.stepsTo t < start.stepsTo stop := by
  constructor
  · intro met
    induction met with
    | start apart =>
      rw [stepsTo_self]
      exact stepsTo_pos apart
    | @next t _ onward ih =>
      have other : start.stepsTo t.next ≠ start.stepsTo stop :=
        fun same => onward (stepsTo_injective same)
      have step := stepsTo_next start t
      split at step <;> omega
  · -- By induction on the steps, backwards from the time to the start.
    generalize steps : start.stepsTo t = n
    intro early
    induction n generalizing t with
    | zero =>
      obtain rfl : start = t := stepsTo_injective ((stepsTo_self start).trans steps.symm)
      refine .start fun same => ?_
      rw [same, stepsTo_self] at early
      omega
    | succ n ih =>
      obtain ⟨before, rfl⟩ := exists_next t
      rw [stepsTo_next] at steps
      split at steps
      · omega
      next onward =>
        refine .next (ih (by omega) (by omega)) fun same => ?_
        rw [← same, stepsTo_next, if_neg onward] at early
        omega

theorem stepsTo_lt (a b : TimeOfDay) : a.stepsTo b < perDay := by
  have first := a.rank_lt
  have last := b.rank_lt
  simp only [stepsTo]
  split <;> omega

/-- The way over a third time is the straight way, or that and once more round the clock. -/
theorem stepsTo_add (a b c : TimeOfDay) :
    a.stepsTo b + b.stepsTo c = if a.stepsTo b ≤ a.stepsTo c then a.stepsTo c
      else a.stepsTo c + perDay := by
  have ha := a.rank_lt
  have hb := b.rank_lt
  have hc := c.rank_lt
  simp only [stepsTo]
  split <;> split <;> split <;> split <;> omega

/-- On the way from one time to another are the times that are not on the way back. -/
theorem stepsTo_lt_iff_back (h : a ≠ b) (t : TimeOfDay) :
    a.stepsTo t < a.stepsTo b ↔ ¬ b.stepsTo t < b.stepsTo a := by
  have far := stepsTo_pos h
  have round := stepsTo_add a b a
  have through := stepsTo_add a b t
  have bound := stepsTo_lt a t
  rw [stepsTo_self, if_neg (by omega)] at round
  split at through <;> omega

/-- A time on the way divides it into two ways. -/
theorem stepsTo_lt_iff_stage (met : a.stepsTo b < a.stepsTo c) (t : TimeOfDay) :
    (a.stepsTo t < a.stepsTo c ↔ a.stepsTo t < a.stepsTo b ∨ b.stepsTo t < b.stepsTo c) ∧
    ¬ (a.stepsTo t < a.stepsTo b ∧ b.stepsTo t < b.stepsTo c) := by
  have stage := stepsTo_add a b c
  have through := stepsTo_add a b t
  have bound := stepsTo_lt a c
  rw [if_pos (by omega)] at stage
  split at through <;> omega

end TimeOfDay

namespace Window

open TimeOfDay (MetBefore metBefore_iff stepsTo_self stepsTo_pos stepsTo_lt_iff_back
  stepsTo_lt_iff_stage)

variable {start stop : TimeOfDay}

theorem contains_between_iff (t : TimeOfDay) :
    (between start stop).contains t = true ↔ start.stepsTo t < start.stepsTo stop := by
  have first := start.rank_lt
  have last := stop.rank_lt
  have own := t.rank_lt
  have since : start ≤ t ↔ start.rank ≤ t.rank := Iff.rfl
  have until_ : t < stop ↔ t.rank < stop.rank := Iff.rfl
  simp only [contains, TimeOfDay.stepsTo]
  split
  next ordered =>
    have ordered : start.rank ≤ stop.rank := ordered
    rw [if_pos ordered, Bool.and_eq_true, decide_eq_true_eq, decide_eq_true_eq, since, until_]
    split <;> omega
  next wraps =>
    have wraps : ¬ start.rank ≤ stop.rank := wraps
    rw [if_neg wraps, Bool.or_eq_true, decide_eq_true_eq, decide_eq_true_eq, since, until_]
    split <;> omega

theorem contains_start (h : start ≠ stop) : (between start stop).contains start = true := by
  rw [contains_between_iff, stepsTo_self]
  exact stepsTo_pos h

theorem contains_stop (start stop : TimeOfDay) : (between start stop).contains stop = false := by
  rw [Bool.eq_false_iff, Ne, contains_between_iff]
  exact Nat.lt_irrefl _

theorem contains_back (h : start ≠ stop) (t : TimeOfDay) :
    (between stop start).contains t = !(between start stop).contains t := by
  rw [Bool.eq_iff_iff, Bool.not_eq_true', Bool.eq_false_iff, Ne, contains_between_iff,
    contains_between_iff]
  exact stepsTo_lt_iff_back h.symm t

theorem validate_ok_iff : (between start stop).validate = .ok () ↔ start ≠ stop := by
  simp only [validate]
  split <;> simp [*]

theorem validate_self (time : TimeOfDay) :
    (between time time).validate = .error .emptyWindow :=
  if_pos rfl

/-- A window from one time to another holds the times that are met between them going round the
clock, the first of the two and not the second. It and the window the other way round hold every
time once between them, and the two windows into which a time in a window divides it hold the times
of that window once between them. A window between two times is refused if, and only if, it holds no
time, and one that is accepted does not hold them all. -/
theorem windows_go_round_the_clock :
    (∀ start stop, start ≠ stop →
      (∀ t, (between start stop).contains t = true ↔ MetBefore start stop t) ∧
      (between start stop).contains start = true ∧ (between start stop).contains stop = false ∧
      ∀ t, (between stop start).contains t = !(between start stop).contains t) ∧
    (∀ a b c, MetBefore a c b → ∀ t,
      ((between a c).contains t = true ↔
        (between a b).contains t = true ∨ (between b c).contains t = true) ∧
      ¬ ((between a b).contains t = true ∧ (between b c).contains t = true)) ∧
    ∀ start stop,
      ((between start stop).validate = .ok () →
        (∃ t, (between start stop).contains t = true) ∧
        ∃ t, (between start stop).contains t = false) ∧
      ∀ cause, (between start stop).validate = .error cause →
        cause = .emptyWindow ∧ ∀ t, (between start stop).contains t = false := by
  refine ⟨fun start stop apart => ⟨fun t => ?_, contains_start apart, contains_stop start stop,
    contains_back apart⟩, fun a b c met t => ?_, fun start stop => ⟨fun valid => ?_,
    fun cause refused => ?_⟩⟩
  · rw [contains_between_iff, metBefore_iff]
  · simp only [contains_between_iff]
    exact stepsTo_lt_iff_stage (metBefore_iff.mp met) t
  · have apart := validate_ok_iff.mp valid
    exact ⟨⟨start, contains_start apart⟩, ⟨stop, contains_stop start stop⟩⟩
  · by_cases same : start = stop
    · subst same
      rw [validate_self] at refused
      refine ⟨(Except.error.inj refused).symm, fun t => ?_⟩
      rw [Bool.eq_false_iff, Ne, contains_between_iff, stepsTo_self]
      exact Nat.not_lt_zero _
    · rw [validate_ok_iff.mpr same] at refused
      cases refused

/-- The night, divided within the leap second at the end of a day. -/
theorem windows_go_round_the_clock_night :
    let evening : TimeOfDay := ⟨79200, 0, by decide, by decide⟩
    let leap : TimeOfDay := ⟨86399, 1500000000, by decide, by decide⟩
    let morning : TimeOfDay := ⟨21600, 0, by decide, by decide⟩
    evening ≠ morning ∧ MetBefore evening morning leap ∧
      MetBefore evening morning TimeOfDay.midnight ∧
      (between morning evening).contains TimeOfDay.midnight = false ∧
      ((between evening leap).contains leap = true ∨ (between leap morning).contains leap = true) ∧
      (between evening morning).validate = .ok () ∧
      ∃ t, (between evening morning).contains t = false := by
  intro evening leap morning
  obtain ⟨round, stage, valid⟩ := windows_go_round_the_clock
  have apart : evening ≠ morning := by decide
  obtain ⟨met, -, -, back⟩ := round evening morning apart
  have within : MetBefore evening morning leap := (met leap).mp (by decide)
  have accepted : (between evening morning).validate = .ok () := by decide
  refine ⟨apart, within, (met _).mp (by decide), ?_, ?_, accepted, ?_⟩
  · rw [back]
    decide
  · exact (stage evening leap morning within leap).1.mp (by decide)
  · exact ((valid evening morning).1 accepted).2

end Window

end HomeScenes
