import HomeScenes.Proofs.Calendar.Dates
import HomeScenes.Proofs.Calendar.Order
import HomeScenes.Proofs.Text

/-!
# Times and dates read back from their text

A time of day is read back from its text unless it is a leap second that ends no minute,
and an instant in the years 0 to 9999 is read back unless its time is such a second. The
text of a year with a sign is not looked at here.
-/

namespace HomeScenes

open Text

namespace TimeOfDay

/-- A time that its text tells apart from all others: a leap second ends a minute. -/
def Showable (t : TimeOfDay) : Prop :=
  t.nano < nanosPerSecond ∨ t.second % 60 = 59

theorem readNumber?_padded {width n : Nat} (pos : 0 < width) (h : n < 10 ^ width)
    (rest : List Char) : readNumber? width (padded width n ++ rest) = some (n, rest) := by
  rw [readNumber?, trimStart_padded, takeNumber?_padded pos h]

/-- The mark between two numbers. -/
theorem readMark?_trimStart {mark : Char} (h : isBlank mark = false) (rest : List Char) :
    readMark? mark (trimStart (mark :: rest)) = some rest := by
  rw [trimStart_eq_self (by simpa using h), readMark?_cons]

/-- What may follow a time of day: the time does not go on with it. -/
def Ends (rest : List Char) : Prop :=
  ∀ c ∈ rest.head?, isDigit c = false ∧ c ≠ '.' ∧ isBlank c = false

theorem readFraction?_padded {width n : Nat} (pos : 0 < width) (small : width ≤ 9)
    (h : n < 10 ^ width) {rest : List Char} (ends : Ends rest) :
    readFraction? ('.' :: (padded width n ++ rest)) = some (n * 10 ^ (9 - width), rest) := by
  have size := length_padded pos h
  have span : spanDigits 9 (padded width n ++ rest) = (padded width n, rest) :=
    spanDigits_append (fun _ => isDigit_of_mem_padded) (by omega) (.inr fun c hc => (ends c hc).1)
  have stop : rest.dropWhile isDigit = rest := by
    cases rest with
    | nil => rfl
    | cons c rest => simp [(ends c rfl).1]
  cases row : padded width n with
  | nil => rw [row] at size; simp at size; omega
  | cons d ds =>
    rw [row] at span size
    simp only [readFraction?, span, stop, size]
    rw [← row, ofDigits_padded]
    rfl

theorem readFraction?_fractionText {nano : Nat} (h : nano < 1000000000) {rest : List Char}
    (ends : Ends rest) : readFraction? (fractionText nano ++ rest) = some (nano, rest) := by
  unfold fractionText
  split
  · rename_i zero
    subst zero
    cases rest with
    | nil => rfl
    | cons c rest =>
      have point := (ends c rfl).2.1
      simp [readFraction?, point]
  · split
    · rename_i thousands
      refine (readFraction?_padded (by decide) (by decide) (by omega) ends).trans ?_
      simp only [Option.some.injEq, Prod.mk.injEq, and_true]
      omega
    · split
      · refine (readFraction?_padded (by decide) (by decide) (by omega) ends).trans ?_
        simp only [Option.some.injEq, Prod.mk.injEq, and_true]
        omega
      · refine (readFraction?_padded (by decide) (by decide) (by omega) ends).trans ?_
        simp

theorem hour_lt (t : TimeOfDay) : t.hour < 24 := by
  have := t.second_lt
  simp only [hour]
  omega

theorem minute_lt (t : TimeOfDay) : t.minute < 60 :=
  Nat.mod_lt _ (by decide)

theorem shownSecond_le (t : TimeOfDay) : t.shownSecond ≤ 60 := by
  have := t.nano_lt
  simp only [shownSecond, nanosPerSecond]
  omega

theorem shownNano_lt (t : TimeOfDay) : t.shownNano < 1000000000 :=
  Nat.mod_lt _ (by decide)

theorem ofParts?_shown {t : TimeOfDay} (h : t.Showable) :
    ofParts? t.hour t.minute t.shownSecond t.shownNano = some t := by
  have leap : t.shownSecond = 60 ↔ nanosPerSecond ≤ t.nano := by
    have := t.nano_lt
    simp only [Showable, shownSecond, nanosPerSecond] at h ⊢
    omega
  have within : t.hour * 3600 + t.minute * 60 + t.second % 60 = t.second := by
    simp only [hour, minute]
    omega
  have bound := t.nano_lt
  rw [ofParts?, dif_pos ⟨t.hour_lt, t.minute_lt, t.shownSecond_le, t.shownNano_lt⟩]
  obtain ⟨second, nano, hs, hn⟩ := t
  simp only [Showable, nanosPerSecond] at h leap within bound
  by_cases last : shownSecond ⟨second, nano, hs, hn⟩ = 60
  · simp only [if_pos last, Option.some.injEq, TimeOfDay.mk.injEq]
    simp only [shownNano, nanosPerSecond]
    omega
  · have plain : shownSecond ⟨second, nano, hs, hn⟩ = second % 60 ∧
        shownNano ⟨second, nano, hs, hn⟩ = nano := by
      simp only [shownSecond, shownNano, nanosPerSecond]
      omega
    simp only [if_neg last, dif_pos (show shownSecond ⟨second, nano, hs, hn⟩ < 60 by omega),
      Option.some.injEq, TimeOfDay.mk.injEq]
    omega

theorem ofParts?_showable {hour minute second nano : Nat} {t : TimeOfDay}
    (h : ofParts? hour minute second nano = some t) : t.Showable := by
  unfold ofParts? at h
  split at h
  · rename_i parts
    dsimp only at h
    split at h
    · cases h
      right
      show (hour * 3600 + minute * 60 + 59) % 60 = 59
      omega
    · split at h
      · cases h
        left
        show nano < nanosPerSecond
        simp only [nanosPerSecond]
        omega
      · cases h
  · cases h

theorem readFull?_chars {t : TimeOfDay} (h : t.Showable) {rest : List Char} (ends : Ends rest) :
    readFull? (t.chars ++ rest) = some (t, rest) := by
  have hour : t.hour < 10 ^ 2 := Nat.lt_trans t.hour_lt (by decide)
  have minute : t.minute < 10 ^ 2 := Nat.lt_trans t.minute_lt (by decide)
  have second : t.shownSecond < 10 ^ 2 := Nat.lt_of_le_of_lt t.shownSecond_le (by decide)
  have colon : isBlank ':' = false := by decide
  have row : t.chars ++ rest = padded 2 t.hour ++ ':' :: (padded 2 t.minute ++ ':' ::
      (padded 2 t.shownSecond ++ (fractionText t.shownNano ++ rest))) := by
    simp only [chars, hourMinuteSecondChars, hourMinuteChars, List.append_assoc, List.cons_append]
  simp only [readFull?, row, readNumber?_padded (by decide) hour, readMark?_trimStart colon,
    readNumber?_padded (by decide) minute, readNumber?_padded (by decide) second,
    readFraction?_fractionText t.shownNano_lt ends, ofParts?_shown h,
    trimStart_eq_self fun c hc => (ends c hc).2.2, Option.bind_eq_bind, Option.bind_some,
    Option.pure_def]

theorem readFull?_showable {cs rest : List Char} {t : TimeOfDay}
    (h : readFull? cs = some (t, rest)) : t.Showable := by
  simp only [readFull?, Option.bind_eq_bind, Option.bind_eq_some_iff, Option.pure_def,
    Option.some.injEq, Prod.mk.injEq] at h
  obtain ⟨_, -, _, -, _, -, _, -, _, -, _, -, time, parts, rfl, -⟩ := h
  exact ofParts?_showable parts

theorem ofText?_showable {s : String} {t : TimeOfDay} (h : ofText? s = some t) : t.Showable := by
  unfold ofText? ofChars? at h
  split at h
  · rename_i full
    cases h
    exact readFull?_showable full
  · split at h
    · rename_i short
      cases h
      simp only [readHourMinute?, Option.bind_eq_bind, Option.bind_eq_some_iff, Option.pure_def,
        Option.some.injEq, Prod.mk.injEq] at short
      obtain ⟨_, -, _, -, _, -, time, parts, rfl, -⟩ := short
      exact ofParts?_showable parts
    · cases h

theorem ofText?_text {t : TimeOfDay} (h : t.Showable) : ofText? t.text = some t := by
  have full : readFull? (t.chars ++ []) = some (t, []) := readFull?_chars h (by simp [Ends])
  rw [List.append_nil] at full
  rw [ofText?, text, String.toList_ofList, ofChars?, full]

end TimeOfDay

namespace Instant

def year (t : Instant) : Int := (Date.ofDayNumber t.day).year

def Showable (t : Instant) : Prop :=
  0 ≤ t.year ∧ t.year ≤ 9999 ∧ t.time.Showable

theorem readYear?_yearText {year : Int} (low : 0 ≤ year) (high : year ≤ 9999)
    (rest : List Char) : readYear? (Date.yearText year ++ rest) = some (year, rest) := by
  have taken : takeNumber? 4 (padded 4 year.toNat ++ rest) = some (year.toNat, rest) :=
    takeNumber?_padded (by decide) (by omega) rest
  rw [Date.yearText, if_pos ⟨low, high⟩, readYear?, trimStart_padded]
  split
  · rename_i r row
    have := padded_head rest (row ▸ rfl : '-' ∈ (padded 4 year.toNat ++ rest).head?)
    exact absurd this (by decide)
  · rename_i r row
    have := padded_head rest (row ▸ rfl : '+' ∈ (padded 4 year.toNat ++ rest).head?)
    exact absurd this (by decide)
  · simp only [taken, Option.map_some, Int.toNat_of_nonneg low]

/-- The days of the years 0 to 9999 can be stored. -/
theorem storable_of_year {day : Int} (low : 0 ≤ (Date.ofDayNumber day).year)
    (high : (Date.ofDayNumber day).year ≤ 9999) : Date.firstDay ≤ day ∧ day ≤ Date.lastDay := by
  obtain ⟨cycle, y, r, hn, hy, hr, -, date⟩ := Date.ofDayNumber_eq day
  rw [date] at low high
  have first : Date.firstDay ≤ -719893 := by decide
  have last : 2933262 ≤ Date.lastDay := by decide
  simp only at low high
  split at low <;> split at high <;> omega

theorem readDate?_chars {day : Int} (low : 0 ≤ (Date.ofDayNumber day).year)
    (high : (Date.ofDayNumber day).year ≤ 9999) (rest : List Char) :
    readDate? ((Date.ofDayNumber day).chars ++ rest) = some (day, rest) := by
  have valid := Date.isValid_ofDayNumber day
  have parts := valid
  simp only [Date.isValid, Bool.and_eq_true, decide_eq_true_eq] at parts
  have days : (Date.ofDayNumber day).day ≤ 31 := by
    refine parts.2.trans ?_
    unfold Date.daysInMonth
    split <;> (try split) <;> decide
  have row : (Date.ofDayNumber day).chars ++ rest =
      Date.yearText (Date.ofDayNumber day).year ++ ('-' ::
        (padded 2 (Date.ofDayNumber day).month ++ '-' ::
          (padded 2 (Date.ofDayNumber day).day ++ rest))) := by
    simp only [Date.chars, List.append_assoc, List.cons_append]
  have hyphen : isBlank '-' = false := by decide
  have month : (Date.ofDayNumber day).month < 10 ^ 2 := by omega
  have dayOfMonth : (Date.ofDayNumber day).day < 10 ^ 2 := by omega
  simp only [readDate?, row, readYear?_yearText low high, TimeOfDay.readMark?_trimStart hyphen,
    TimeOfDay.readNumber?_padded (by decide) month,
    TimeOfDay.readNumber?_padded (by decide) dayOfMonth, Option.bind_eq_bind, Option.bind_some]
  have same : (⟨(Date.ofDayNumber day).year, (Date.ofDayNumber day).month,
      (Date.ofDayNumber day).day⟩ : Date) = Date.ofDayNumber day := rfl
  rw [same, Date.toDayNumber_ofDayNumber, if_pos ⟨valid, storable_of_year low high⟩]

theorem ofText?_text {t : Instant} (h : t.Showable) : ofText? t.text = some t := by
  obtain ⟨low, high, time⟩ := h
  have clock : TimeOfDay.readFull? (t.time.chars ++ ['Z']) = some (t.time, ['Z']) :=
    TimeOfDay.readFull?_chars time (by rintro c ⟨⟩; decide)
  have date := readDate?_chars low high ('T' :: (t.time.chars ++ ['Z']))
  have row : t.chars ++ ['Z'] =
      (Date.ofDayNumber t.day).chars ++ ('T' :: (t.time.chars ++ ['Z'])) := by
    simp only [chars, List.append_assoc, List.cons_append]
  have wall : readDateTime? (t.chars ++ ['Z']) = some (t, ['Z']) := by
    rw [row, readDateTime?, date]
    simp [clock]
  have zone : readOffset? (trimStart ['Z']) = some (0, []) := by decide
  have still : t.turn (-0) = t := by rw [Int.neg_zero, turn_zero]
  have stored : t.isStorable = true := by
    simpa [isStorable] using storable_of_year low high
  simp only [ofText?, text, String.toList_ofList, ofChars?, wall, zone, still, stored,
    Option.bind_eq_bind, Option.bind_some]
  rfl

/-- An offset is a number of whole minutes. -/
theorem readOffset?_minutes {cs rest : List Char} {offset : Int}
    (h : readOffset? cs = some (offset, rest)) : offset % 60 = 0 := by
  unfold readOffset? at h
  split at h
  · cases h; rfl
  split at h
  · cases h; rfl
  · cases h; rfl
  · split at h
    · obtain ⟨minutes, -, h⟩ := Option.bind_eq_some_iff.1 h
      dsimp only at h
      split at h
      · cases h
        split <;> omega
      · cases h
    · cases h
  · cases h

/-- A leap second that ends a minute still does after whole minutes. -/
theorem turn_showable {t : Instant} (h : t.time.Showable) {offset : Int}
    (minutes : offset % 60 = 0) : (t.turn offset).time.Showable := by
  have := t.time.second_lt
  simp only [turn, TimeOfDay.Showable] at h ⊢
  omega

/-- The time of every instant that is read from a text is one that its own text shows. -/
theorem ofText?_showable {s : String} {t : Instant} (h : ofText? s = some t) :
    t.time.Showable := by
  obtain ⟨⟨wall, cs⟩, dateTime, h⟩ := Option.bind_eq_some_iff.1 h
  obtain ⟨⟨offset, cs'⟩, zone, h⟩ := Option.bind_eq_some_iff.1 h
  dsimp only at zone h
  split at h
  · cases h
    refine turn_showable ?_ (by have := readOffset?_minutes zone; omega)
    obtain ⟨⟨day, cs⟩, -, dateTime⟩ := Option.bind_eq_some_iff.1 dateTime
    dsimp only at dateTime
    split at dateTime
    · cases dateTime
    · split at dateTime
      · obtain ⟨⟨time, cs⟩, full, same⟩ := Option.bind_eq_some_iff.1 dateTime
        cases same
        exact TimeOfDay.readFull?_showable full
      · cases dateTime
  · cases h

end Instant

end HomeScenes
