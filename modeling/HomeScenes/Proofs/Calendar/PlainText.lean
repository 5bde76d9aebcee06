import HomeScenes.Proofs.Calendar.Text
import HomeScenes.Proofs.Text.Numerals
import HomeScenes.Proofs.Text.Trimmed

/-!
# Times of day as settings write them

The texts that settings take for a time of day: hours and minutes, and seconds or not, each a
number of one or two digits that may have blanks in front of it, with colons between them. A text
of another form is refused, and so is one that shows no time of day.
-/

namespace HomeScenes.TimeOfDay

open Text

variable {cs rest : List Char} {n hour minute second nano : Nat} {t : TimeOfDay}

/-- One or two digits, and any blanks in front of them. -/
def Field (cs : List Char) (n : Nat) : Prop :=
  ∃ blanks ds, cs = blanks ++ ds ∧ (∀ c ∈ blanks, isBlank c = true) ∧ Numeral ds n ∧ ds.length ≤ 2

/-- The text shows the time by hours and minutes, or by hours, minutes and seconds. -/
def PlainlyWritten (cs : List Char) (t : TimeOfDay) : Prop :=
  t.Showable ∧ t.shownNano = 0 ∧ ∃ hour minute, Field hour t.hour ∧ Field minute t.minute ∧
    (cs = hour ++ ':' :: minute ∧ t.shownSecond = 0 ∨
      ∃ second, cs = hour ++ ':' :: (minute ++ ':' :: second) ∧ Field second t.shownSecond)

theorem ofParts?_eq_some_iff : ofParts? hour minute second nano = some t ↔
    t.Showable ∧ t.hour = hour ∧ t.minute = minute ∧ t.shownSecond = second ∧
      t.shownNano = nano := by
  constructor
  · intro parts
    refine ⟨ofParts?_showable parts, ?_⟩
    unfold ofParts? at parts
    split at parts
    next bounds =>
      dsimp only at parts
      split at parts
      · cases parts
        simp only [TimeOfDay.hour, TimeOfDay.minute, shownSecond, shownNano, nanosPerSecond]
        omega
      · split at parts
        · cases parts
          simp only [TimeOfDay.hour, TimeOfDay.minute, shownSecond, shownNano, nanosPerSecond]
          omega
        · cases parts
    next => cases parts
  · rintro ⟨showable, rfl, rfl, rfl, rfl⟩
    exact ofParts?_shown showable

theorem readNumber?_spec (h : readNumber? 2 cs = some (n, rest)) :
    ∃ field, cs = field ++ rest ∧ Field field n := by
  obtain ⟨ds, whole, numeral, room⟩ := takeNumber?_spec h
  refine ⟨cs.takeWhile isBlank ++ ds, ?_, _, ds, rfl, fun c => List.mem_takeWhile_imp, numeral,
    room⟩
  rw [List.append_assoc, ← whole, trimStart, List.takeWhile_append_dropWhile]

theorem Field.readNumber? (h : Field cs n) (stop : ∀ c ∈ rest.head?, isDigit c = false) :
    readNumber? 2 (cs ++ rest) = some (n, rest) := by
  obtain ⟨blanks, ds, rfl, blank, numeral, room⟩ := h
  have first : ∀ c ∈ (ds ++ rest).head?, isBlank c = false := by
    intro c lead
    cases ds with
    | nil => exact absurd rfl numeral.any
    | cons d ds =>
      obtain rfl : d = c := by simpa using lead
      exact isBlank_of_isDigit (numeral.digits d List.mem_cons_self)
  rw [TimeOfDay.readNumber?, List.append_assoc, trimStart_blanks blank first]
  exact numeral.takeNumber? room stop

theorem readMark?_eq_some_iff {mark : Char} :
    readMark? mark cs = some rest ↔ cs = mark :: rest := by
  cases cs with
  | nil => simp [readMark?]
  | cons c cs => simp [readMark?]

theorem plainlyWritten_of_read {s : String} (h : ofPlainText? s = some t) :
    PlainlyWritten s.toList t := by
  simp only [ofPlainText?, Option.bind_eq_bind, Option.bind_eq_some_iff, Prod.exists,
    readMark?_eq_some_iff] at h
  obtain ⟨_, _, readHour, _, rfl, _, _, readMinute, read⟩ := h
  obtain ⟨hour, whole, hourField⟩ := readNumber?_spec readHour
  obtain ⟨minute, rfl, minuteField⟩ := readNumber?_spec readMinute
  split at read
  next =>
    obtain ⟨showable, rfl, rfl, second, nano⟩ := ofParts?_eq_some_iff.mp read
    refine ⟨showable, nano, hour, minute, hourField, minuteField, .inl ⟨?_, second⟩⟩
    rw [whole, List.append_nil]
  next =>
    simp only [Option.bind_eq_some_iff, readMark?_eq_some_iff, Prod.exists] at read
    obtain ⟨_, rfl, _, _, readSecond, read⟩ := read
    obtain ⟨second, rfl, secondField⟩ := readNumber?_spec readSecond
    split at read
    next done =>
      obtain rfl := List.isEmpty_iff.mp done
      obtain ⟨showable, rfl, rfl, rfl, nano⟩ := ofParts?_eq_some_iff.mp read
      refine ⟨showable, nano, hour, minute, hourField, minuteField, .inr ⟨second, ?_, secondField⟩⟩
      rw [whole, List.append_nil]
    next => cases read

theorem Field.readNumber?_colon (h : Field cs n) (rest : List Char) :
    TimeOfDay.readNumber? 2 (cs ++ ':' :: rest) = some (n, ':' :: rest) := by
  refine h.readNumber? ?_
  rintro c ⟨⟩
  decide

theorem Field.readNumber?_end (h : Field cs n) : TimeOfDay.readNumber? 2 cs = some (n, []) := by
  have read : TimeOfDay.readNumber? 2 (cs ++ []) = some (n, []) := by
    refine h.readNumber? ?_
    rintro c ⟨⟩
  rwa [List.append_nil] at read

theorem PlainlyWritten.read {s : String} (h : PlainlyWritten s.toList t) :
    ofPlainText? s = some t := by
  obtain ⟨showable, nano, hour, minute, hourField, minuteField,
    ⟨whole, second⟩ | ⟨seconds, whole, secondField⟩⟩ := h
  · simp only [ofPlainText?, whole, hourField.readNumber?_colon, minuteField.readNumber?_end,
      readMark?_cons, Option.bind_eq_bind, Option.bind_some]
    exact ofParts?_eq_some_iff.mpr ⟨showable, rfl, rfl, second, nano⟩
  · simp only [ofPlainText?, whole, hourField.readNumber?_colon, minuteField.readNumber?_colon,
      secondField.readNumber?_end, readMark?_cons, Option.bind_eq_bind, Option.bind_some,
      List.isEmpty_nil, if_true]
    exact ofParts?_eq_some_iff.mpr ⟨showable, rfl, rfl, rfl, nano⟩

theorem ofPlainText?_eq_some_iff {s : String} :
    ofPlainText? s = some t ↔ PlainlyWritten s.toList t :=
  ⟨plainlyWritten_of_read, PlainlyWritten.read⟩

end HomeScenes.TimeOfDay
