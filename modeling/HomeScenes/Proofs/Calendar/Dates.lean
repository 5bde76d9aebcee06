import Mathlib.Logic.Function.Iterate
import Mathlib.Tactic.IntervalCases
import HomeScenes.Calendar.Date

/-!
# Dates and their numbers

The date of a day is a date of the calendar and has the number of that day, and no other date of the
calendar has it. The number of the date that follows, by the lengths of months and years, is one
higher, so that adding days to a number is counting dates.
-/

namespace HomeScenes.Date

/-- A day of a cycle of 400 years by centuries, groups of four years, years and days: only the
last year of a group may have a leap day, and the last group of a century only in the last one. -/
theorem cycle_split {d : Nat} (hd : d < 146097) :
    ∃ c q k r, d = 36524 * c + 1461 * q + 365 * k + r ∧ c ≤ 3 ∧ q ≤ 24 ∧ k ≤ 3 ∧ r ≤ 365 ∧
      (r = 365 → k = 3 ∧ (q = 24 → c = 3)) := by
  obtain ⟨c, d', h, hc, hd', hlast⟩ : ∃ c d', d = 36524 * c + d' ∧ c ≤ 3 ∧ d' ≤ 36524 ∧
      (d' = 36524 → c = 3) :=
    ⟨min 3 (d / 36524), d - 36524 * min 3 (d / 36524), by omega, by omega, by omega, by omega⟩
  obtain ⟨k, r, hk, hk3, hr⟩ : ∃ k r, d' % 1461 = 365 * k + r ∧ k ≤ 3 ∧ r ≤ 365 ∧
      (r = 365 → k = 3) :=
    ⟨min 3 (d' % 1461 / 365), d' % 1461 - 365 * min 3 (d' % 1461 / 365),
      by omega, by omega, by omega, by omega⟩
  exact ⟨c, d' / 1461, k, r, by omega, hc, by omega, hk3, hr.1, fun leap => by omega⟩

/-- The year of the cycle is found by taking the leap days before it off and dividing. -/
theorem year_of_cycle {d c q k r : Nat} (h : d = 36524 * c + 1461 * q + 365 * k + r) (hc : c ≤ 3)
    (hq : q ≤ 24) (hk : k ≤ 3) (hr : r ≤ 365) (leap : r = 365 → k = 3 ∧ (q = 24 → c = 3)) :
    (d - d / 1460 + d / 36524 - d / 146096) / 365 = 100 * c + 4 * q + k := by
  have centuries : d / 36524 - d / 146096 = c ∧ d / 146096 ≤ d / 36524 := by omega
  obtain ⟨e, he, gap⟩ : ∃ e, d / 1460 = 25 * c + q + e ∧ e ≤ r ∧ r - e < 365 := by
    by_cases late : 24 * c + q + 365 * k + r < 1460
    · exact ⟨0, by omega, by omega, by omega⟩
    · exact ⟨1, by omega, by omega, by omega⟩
  generalize d / 1460 = g at *
  generalize d / 36524 = f at *
  generalize d / 146096 = j at *
  have rest : d - g + f - j = 365 * (100 * c + 4 * q + k) + (r - e) := by omega
  omega

/-- A day of a year that starts in March, by its month and the day of that. -/
theorem month_spec {r : Nat} (h : r ≤ 365) :
    (5 * r + 2) / 153 ≤ 11 ∧ (153 * ((5 * r + 2) / 153) + 2) / 5 ≤ r := by
  omega

/-- The parts of the date of a day: the year and the day of a year that starts in March. -/
theorem ofDayNumber_eq (n : Int) :
    ∃ cycle : Int, ∃ y r : Nat,
      n = cycle * 146097 + (365 * y + y / 4 - y / 100 + r : Nat) - 719468 ∧ y < 400 ∧ r ≤ 365 ∧
      (r = 365 → isLeapYear (cycle * 400 + y + 1) = true) ∧
      ofDayNumber n =
        ⟨if (5 * r + 2) / 153 < 10 then cycle * 400 + y else cycle * 400 + y + 1,
          if (5 * r + 2) / 153 < 10 then (5 * r + 2) / 153 + 3 else (5 * r + 2) / 153 - 9,
          r - (153 * ((5 * r + 2) / 153) + 2) / 5 + 1⟩ := by
  have hd : ((n + 719468) % 146097).toNat < 146097 := by omega
  obtain ⟨c, q, k, r, split, hc, hq, hk, hr, leap⟩ := cycle_split hd
  have leapDays : (100 * c + 4 * q + k) / 4 = 25 * c + q ∧ (100 * c + 4 * q + k) / 100 = c := by
    omega
  have start : ((n + 719468) % 146097).toNat - (365 * (100 * c + 4 * q + k) +
      (100 * c + 4 * q + k) / 4 - (100 * c + 4 * q + k) / 100) = r := by omega
  refine ⟨(n + 719468) / 146097, 100 * c + 4 * q + k, r, by omega, by omega, hr, ?_, ?_⟩
  · intro last
    simp only [isLeapYear, Bool.and_eq_true, Bool.or_eq_true, beq_iff_eq, bne_iff_ne]
    have := leap last
    omega
  · have month := month_spec hr
    simp only [ofDayNumber, year_of_cycle split hc hq hk hr leap, start, Date.mk.injEq, and_true]
    split <;> omega

theorem toDayNumber_ofDayNumber (n : Int) : (ofDayNumber n).toDayNumber = n := by
  obtain ⟨cycle, y, r, hn, hy, hr, -, date⟩ := ofDayNumber_eq n
  have month := month_spec hr
  rw [date]
  simp only [toDayNumber]
  generalize hm : (5 * r + 2) / 153 = m at *
  by_cases early : m < 10
  · simp only [if_pos early, if_neg (show ¬ m + 3 ≤ 2 by omega)]
    omega
  · simp only [if_neg early, if_pos (show m - 9 ≤ 2 by omega)]
    omega

/-- The days of a month of a year that starts in March, of which only the last month depends on
the year. -/
theorem le_daysInMonth {r m : Nat} (hr : r ≤ 365) (hm : (5 * r + 2) / 153 = m) (year : Int)
    (leap : r = 365 → 10 ≤ m → isLeapYear year = true) :
    r - (153 * m + 2) / 5 + 1 ≤ daysInMonth year (if m < 10 then m + 3 else m - 9) := by
  have last : m ≤ 11 := by omega
  by_cases february : m = 11
  · subst february
    by_cases h : r = 365
    · simp [daysInMonth, leap h (by decide), h]
    · have : 28 ≤ daysInMonth year 2 := by
        simp only [daysInMonth]
        split <;> omega
      refine Nat.le_trans ?_ this
      omega
  · interval_cases m <;> simp only [daysInMonth, reduceIte, Nat.reduceLT, Nat.reduceAdd,
      Nat.reduceSub] <;> omega

theorem isValid_ofDayNumber (n : Int) : (ofDayNumber n).isValid = true := by
  obtain ⟨cycle, y, r, -, -, hr, leap, date⟩ := ofDayNumber_eq n
  have month := month_spec hr
  have days := fun year => le_daysInMonth hr rfl year
  rw [date]
  simp only [isValid, Bool.and_eq_true, decide_eq_true_eq]
  generalize (5 * r + 2) / 153 = m at *
  refine ⟨⟨⟨?_, ?_⟩, Nat.le_add_left 1 _⟩, days _ fun last late => ?_⟩
  · split <;> omega
  · split <;> omega
  · rw [if_neg (by omega)]
    exact leap last

def next (d : Date) : Date :=
  if d.day < daysInMonth d.year d.month then ⟨d.year, d.month, d.day + 1⟩
  else if d.month < 12 then ⟨d.year, d.month + 1, 1⟩
  else ⟨d.year + 1, 1, 1⟩

/-- The second date is reached from the first by counting a number of dates, forward or backward. -/
def After (days : Int) (d e : Date) : Prop :=
  next^[days.toNat] d = next^[(-days).toNat] e

/-- Days before a year that starts in March. -/
def yearStart (year : Int) : Int :=
  year * 365 + year / 4 - year / 100 + year / 400

/-- Days of a year that starts in March: its leap day is one of the next year. -/
def yearLength (year : Int) : Nat :=
  if isLeapYear (year + 1) then 366 else 365

theorem yearStart_succ (year : Int) : yearStart (year + 1) = yearStart year + yearLength year := by
  have leap : isLeapYear (year + 1) = true ↔
      (year + 1) % 4 = 0 ∧ ((year + 1) % 100 ≠ 0 ∨ (year + 1) % 400 = 0) := by
    simp [isLeapYear]
  simp only [yearStart, yearLength, leap]
  split <;> omega

theorem yearStart_mono {y z : Int} (h : y ≤ z) : yearStart y ≤ yearStart z := by
  simp only [yearStart]
  omega

def marchYear (d : Date) : Int :=
  if d.month ≤ 2 then d.year - 1 else d.year

/-- The month of a date, 0 for March to 11 for February. -/
def marchMonth (d : Date) : Nat :=
  if d.month ≤ 2 then d.month + 9 else d.month - 3

def monthStart (month : Nat) : Nat :=
  (153 * month + 2) / 5

variable {d e : Date}

theorem toDayNumber_eq (d : Date) :
    d.toDayNumber = yearStart d.marchYear + monthStart d.marchMonth + d.day - 719469 := by
  simp only [toDayNumber, yearStart, marchYear, monthStart, marchMonth]
  generalize (if d.month ≤ 2 then d.year - 1 else d.year) = y
  generalize (if d.month ≤ 2 then d.month + 9 else d.month - 3) = m
  omega

theorem toDayNumber_first (year : Int) (month : Nat) :
    toDayNumber ⟨year, month, 1⟩ = yearStart (marchYear ⟨year, month, 1⟩) +
      monthStart (marchMonth ⟨year, month, 1⟩) - 719468 := by
  rw [toDayNumber_eq]
  exact Int.add_sub_add_right _ 1 719468

theorem isValid_iff : d.isValid = true ↔
    (1 ≤ d.month ∧ d.month ≤ 12) ∧ 1 ≤ d.day ∧ d.day ≤ daysInMonth d.year d.month := by
  simp only [isValid, Bool.and_eq_true, decide_eq_true_eq, and_assoc]

/-- The days of a month reach up to the next one, and those of February up to the next year. -/
theorem monthStart_add_daysInMonth (first : 1 ≤ d.month) (last : d.month ≤ 12) :
    monthStart d.marchMonth + daysInMonth d.year d.month =
      if d.month = 2 then yearLength d.marchYear else monthStart (d.marchMonth + 1) := by
  obtain ⟨year, month, day⟩ := d
  interval_cases month <;> simp [monthStart, marchMonth, daysInMonth, marchYear, yearLength]
  split <;> rfl

theorem monthStart_mono {m n : Nat} (h : m ≤ n) : monthStart m ≤ monthStart n :=
  Nat.div_le_div_right (by omega)

theorem marchMonth_le (valid : d.isValid = true) : d.marchMonth ≤ 11 := by
  obtain ⟨month, -⟩ := isValid_iff.mp valid
  rw [marchMonth]
  split <;> omega

/-- A date lies before the next month and in its year. -/
theorem monthStart_add_day_le (valid : d.isValid = true) :
    monthStart d.marchMonth + d.day ≤ monthStart (d.marchMonth + 1) ∧
      monthStart d.marchMonth + d.day ≤ yearLength d.marchYear := by
  obtain ⟨⟨first, last⟩, -, day⟩ := isValid_iff.mp valid
  have whole := monthStart_add_daysInMonth first last
  have within := marchMonth_le valid
  by_cases february : d.month = 2
  · have month : d.marchMonth = 11 := by rw [marchMonth, february]; rfl
    rw [if_pos february] at whole
    rw [month] at whole ⊢
    have next : monthStart (11 + 1) = 367 := rfl
    have long : yearLength d.marchYear ≤ 366 := by
      unfold yearLength
      split <;> decide
    omega
  · have month : d.marchMonth ≤ 10 := by
      rw [marchMonth]
      split <;> omega
    rw [if_neg february] at whole
    have early : monthStart (d.marchMonth + 1) ≤ monthStart 11 := monthStart_mono (by omega)
    have last : monthStart 11 = 337 := rfl
    have long : 365 ≤ yearLength d.marchYear := by
      unfold yearLength
      split <;> decide
    omega

theorem isValid_next (valid : d.isValid = true) : d.next.isValid = true := by
  obtain ⟨⟨first, last⟩, day⟩ := isValid_iff.mp valid
  have some (year : Int) (month : Nat) : 1 ≤ daysInMonth year month := by
    unfold daysInMonth
    split
    · split <;> decide
    all_goals decide
  rw [next]
  split
  next early => exact isValid_iff.mpr ⟨⟨first, last⟩, by simp, early⟩
  next =>
    split
    next more => exact isValid_iff.mpr ⟨⟨by simp, more⟩, by simp, some _ _⟩
    next => exact isValid_iff.mpr ⟨⟨by simp, by simp⟩, by simp, some _ _⟩

theorem toDayNumber_next (valid : d.isValid = true) : d.next.toDayNumber = d.toDayNumber + 1 := by
  obtain ⟨⟨first, last⟩, -, day⟩ := isValid_iff.mp valid
  have whole := monthStart_add_daysInMonth first last
  have year := yearStart_succ d.marchYear
  rw [next, toDayNumber_eq d]
  split
  next early =>
    rw [toDayNumber_eq]
    show yearStart d.marchYear + monthStart d.marchMonth + ((d.day + 1 : Nat) : Int) - 719469 = _
    omega
  next late =>
    have full : d.day = daysInMonth d.year d.month := by omega
    rw [← full] at whole
    split
    next more =>
      rw [toDayNumber_first]
      by_cases february : d.month = 2
      · have turned : marchYear ⟨d.year, d.month + 1, 1⟩ = d.marchYear + 1 := by
          simp [marchYear, february]
        have march : marchMonth ⟨d.year, d.month + 1, 1⟩ = 0 := by
          simp [marchMonth, february]
        have start : monthStart 0 = 0 := rfl
        rw [if_pos february] at whole
        rw [turned, march, start, year]
        omega
      · have same : marchYear ⟨d.year, d.month + 1, 1⟩ = d.marchYear := by
          simp only [marchYear]
          split <;> split <;> omega
        have later : marchMonth ⟨d.year, d.month + 1, 1⟩ = d.marchMonth + 1 := by
          simp only [marchMonth]
          split <;> split <;> omega
        rw [if_neg february] at whole
        rw [same, later]
        omega
    next december =>
      have month : d.month = 12 := by omega
      have same : marchYear ⟨d.year + 1, 1, 1⟩ = d.marchYear := by
        simp [marchYear, month]
      have later : marchMonth ⟨d.year + 1, 1, 1⟩ = d.marchMonth + 1 := by
        simp [marchMonth, month]
      rw [if_neg (by omega)] at whole
      rw [toDayNumber_first, same, later]
      omega

theorem toDayNumber_lt_of_marchYear (hd : d.isValid = true) (he : e.isValid = true)
    (h : d.marchYear < e.marchYear) : d.toDayNumber < e.toDayNumber := by
  have within := (monthStart_add_day_le hd).2
  have year := yearStart_succ d.marchYear
  have later : yearStart (d.marchYear + 1) ≤ yearStart e.marchYear := yearStart_mono h
  obtain ⟨-, day, -⟩ := isValid_iff.mp he
  rw [toDayNumber_eq, toDayNumber_eq]
  omega

theorem toDayNumber_lt_of_marchMonth (hd : d.isValid = true) (he : e.isValid = true)
    (same : d.marchYear = e.marchYear) (h : d.marchMonth < e.marchMonth) :
    d.toDayNumber < e.toDayNumber := by
  have within := (monthStart_add_day_le hd).1
  have later : monthStart (d.marchMonth + 1) ≤ monthStart e.marchMonth := monthStart_mono h
  obtain ⟨-, day, -⟩ := isValid_iff.mp he
  rw [toDayNumber_eq, toDayNumber_eq, same]
  omega

/-- Two dates of the calendar have different numbers. -/
theorem toDayNumber_injective (hd : d.isValid = true) (he : e.isValid = true)
    (same : d.toDayNumber = e.toDayNumber) : d = e := by
  have years : d.marchYear = e.marchYear := by
    rcases Int.lt_trichotomy d.marchYear e.marchYear with before | equal | after
    · have := toDayNumber_lt_of_marchYear hd he before
      omega
    · exact equal
    · have := toDayNumber_lt_of_marchYear he hd after
      omega
  have months : d.marchMonth = e.marchMonth := by
    rcases Nat.lt_trichotomy d.marchMonth e.marchMonth with before | equal | after
    · have := toDayNumber_lt_of_marchMonth hd he years before
      omega
    · exact equal
    · have := toDayNumber_lt_of_marchMonth he hd years.symm after
      omega
  have days : d.day = e.day := by
    rw [toDayNumber_eq, toDayNumber_eq, years, months] at same
    omega
  obtain ⟨month, -⟩ := isValid_iff.mp hd
  obtain ⟨also, -⟩ := isValid_iff.mp he
  obtain ⟨year, m, day⟩ := d
  obtain ⟨year', m', day'⟩ := e
  simp only [marchYear, marchMonth] at years months days month also
  obtain rfl : m = m' := by
    split at months <;> split at months <;> omega
  obtain rfl : year = year' := by
    split at years <;> omega
  rw [days]

/-- The date of the day after is the date that follows. -/
theorem ofDayNumber_succ (n : Int) : ofDayNumber (n + 1) = (ofDayNumber n).next := by
  have valid := isValid_ofDayNumber n
  refine toDayNumber_injective (isValid_ofDayNumber _) (isValid_next valid) ?_
  rw [toDayNumber_next valid, toDayNumber_ofDayNumber, toDayNumber_ofDayNumber]

theorem ofDayNumber_add (n : Int) (k : Nat) :
    ofDayNumber (n + k) = next^[k] (ofDayNumber n) := by
  induction k with
  | zero => rw [Int.natCast_zero, Int.add_zero, Function.iterate_zero, id]
  | succ k ih =>
    rw [Function.iterate_succ_apply', ← ih, ← ofDayNumber_succ, Int.natCast_succ, Int.add_assoc]

/-- Adding to the number of a day is counting dates. -/
theorem after_ofDayNumber (n days : Int) : After days (ofDayNumber n) (ofDayNumber (n + days)) := by
  rw [After, ← ofDayNumber_add, ← ofDayNumber_add]
  congr 1
  omega

end HomeScenes.Date
