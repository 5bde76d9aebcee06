import Mathlib.Data.Nat.Digits.Defs
import HomeScenes.Text.Blank
import HomeScenes.Text.Digits
import HomeScenes.Text.Reading

/-!
# Numbers read back from their digits

A number written in decimal digits, with or without zeros in front, is read back from
the start of a text whatever follows it, as long as the reader stops where the digits
end. The digits themselves are those of the standard library.
-/

namespace HomeScenes.Text

theorem isDigit_of_mem_digits {n : Nat} {c : Char} (h : c ∈ digits n) : isDigit c = true :=
  Nat.isDigit_of_mem_toDigits (by decide) (by decide) h

theorem ofDigits_eq (ds : List Char) : ofDigits ds = Nat.ofDigitChars 10 ds 0 :=
  Nat.ofDigitChars_eq_foldl.symm

@[simp] theorem ofDigits_digits (n : Nat) : ofDigits (digits n) = n := by
  rw [ofDigits_eq]
  exact Nat.ofDigitChars_ten_toDigits

@[simp] theorem ofDigits_padded (width n : Nat) : ofDigits (padded width n) = n := by
  rw [ofDigits_eq, padded, Nat.ofDigitChars_append, Nat.ofDigitChars_replicate_zero, Nat.mul_zero]
  exact Nat.ofDigitChars_ten_toDigits

theorem isDigit_of_mem_padded {width n : Nat} {c : Char} (h : c ∈ padded width n) :
    isDigit c = true := by
  rcases List.mem_append.1 h with zero | digit
  · rw [List.eq_of_mem_replicate zero]
    rfl
  · exact isDigit_of_mem_digits digit

theorem length_padded {width n : Nat} (pos : 0 < width) (h : n < 10 ^ width) :
    (padded width n).length = width := by
  have short : (digits n).length ≤ width := (Nat.length_toDigits_le_iff (by decide) pos).2 h
  rw [padded, List.length_append, List.length_replicate]
  omega

/-- A row of digits at the start of a text is taken as a whole when the reader has no room for
more or when no digit follows. -/
theorem spanDigits_append {ds rest : List Char} {limit : Nat} (all : ∀ c ∈ ds, isDigit c = true)
    (room : ds.length ≤ limit)
    (stop : ds.length = limit ∨ ∀ c ∈ rest.head?, isDigit c = false) :
    spanDigits limit (ds ++ rest) = (ds, rest) := by
  induction ds generalizing limit with
  | nil =>
    cases limit with
    | zero => rw [List.nil_append, spanDigits]
    | succ limit =>
      cases rest with
      | nil => rfl
      | cons c rest =>
        have other : isDigit c = false := stop.resolve_left (by simp) c rfl
        simp [spanDigits, other]
  | cons d ds ih =>
    cases limit with
    | zero => simp at room
    | succ limit =>
      have tail := ih (fun c hc => all c (List.mem_cons_of_mem d hc)) (Nat.le_of_succ_le_succ room)
        (stop.imp_left Nat.succ.inj)
      simp [spanDigits, all d List.mem_cons_self, tail]

theorem takeNumber?_padded {width n : Nat} (pos : 0 < width) (h : n < 10 ^ width)
    (rest : List Char) : takeNumber? width (padded width n ++ rest) = some (n, rest) := by
  have size := length_padded pos h
  have span : spanDigits width (padded width n ++ rest) = (padded width n, rest) :=
    spanDigits_append (fun _ => isDigit_of_mem_padded) size.le (.inl size)
  cases row : padded width n with
  | nil => rw [row] at size; simp at size; omega
  | cons d ds =>
    rw [row] at span
    rw [takeNumber?, span]
    simp [← row]

theorem isBlank_of_isDigit {c : Char} (h : isDigit c = true) : isBlank c = false := by
  simp only [isDigit, Bool.and_eq_true, decide_eq_true_eq, Char.le_def, UInt32.le_iff_toNat_le] at h
  have low : 48 ≤ c.toNat := h.1
  have high : c.toNat ≤ 57 := h.2
  simp only [isBlank, blankRanges, List.any_cons, List.any_nil, Bool.or_false, Bool.or_eq_false_iff,
    Bool.and_eq_false_iff, decide_eq_false_iff_not]
  omega

/-- A text that starts with no blank is left as it is. -/
theorem trimStart_eq_self {cs : List Char} (h : ∀ c ∈ cs.head?, isBlank c = false) :
    trimStart cs = cs := by
  cases cs with
  | nil => rfl
  | cons c cs => simp [trimStart, h c rfl]

/-- The first character of a padded number is a digit. -/
theorem padded_head {width n : Nat} (rest : List Char) {c : Char}
    (h : c ∈ (padded width n ++ rest).head?) : isDigit c = true := by
  cases row : padded width n with
  | nil => simp [padded, digits, Nat.toDigits_ne_nil] at row
  | cons d ds =>
    rw [row] at h
    obtain rfl : d = c := by simpa using h
    exact isDigit_of_mem_padded (row ▸ List.mem_cons_self)

theorem trimStart_padded (width n : Nat) (rest : List Char) :
    trimStart (padded width n ++ rest) = padded width n ++ rest :=
  trimStart_eq_self fun _ h => isBlank_of_isDigit (padded_head rest h)

@[simp] theorem readMark?_cons (mark : Char) (rest : List Char) :
    readMark? mark (mark :: rest) = some rest :=
  if_pos rfl

end HomeScenes.Text
