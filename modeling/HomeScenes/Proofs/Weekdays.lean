import HomeScenes.Weekdays
import HomeScenes.Proofs.Text
import Mathlib.Tactic.IntervalCases

/-!
# Weekdays and the digits that write them

A text is read as a set of weekdays if, and only if, it is a row of distinct digits from 1 to 7, at
least one of them. The set has the weekdays of these digits, in whatever order they stand, and is
written with the digits in ascending order. Each set is read back from what is written for it.
-/

namespace HomeScenes

namespace Weekdays

/-- A row of distinct digits from 1 to 7, at least one. -/
structure Spells (cs : List Char) : Prop where
  any : cs ≠ []
  distinct : cs.Nodup
  digits : ∀ c ∈ cs, '1' ≤ c ∧ c ≤ '7'

theorem eq_of_contains {v w : Weekdays}
    (same : ∀ day, 1 ≤ day → day ≤ 7 → v.contains day = w.contains day) : v = w := by
  obtain ⟨v, hv⟩ := v
  obtain ⟨w, hw⟩ := w
  have masks : v = w := by
    refine BitVec.eq_of_getLsbD_eq fun i hi => ?_
    have day := same (i + 1) (by omega) (by omega)
    simpa [contains, show i + 1 ≤ 7 by omega] using day
  subst masks
  rfl

theorem contains_everyDay {day : Nat} (first : 1 ≤ day) (last : day ≤ 7) :
    everyDay.contains day = true := by
  interval_cases day <;> rfl

theorem contains_workdays {day : Nat} (first : 1 ≤ day) (last : day ≤ 7) :
    workdays.contains day = decide (day ≤ 5) := by
  interval_cases day <;> rfl

theorem contains_iff {w : Weekdays} {day : Nat} :
    w.contains day = true ↔ 1 ≤ day ∧ day ≤ 7 ∧ w.mask.getLsbD (day - 1) = true := by
  rw [contains, Bool.and_eq_true, Bool.and_eq_true, decide_eq_true_iff, decide_eq_true_iff,
    and_assoc]

theorem exists_contains (w : Weekdays) : ∃ day, w.contains day = true := by
  by_contra none
  refine w.nonempty (BitVec.eq_of_getLsbD_eq fun i hi => ?_)
  rw [BitVec.getLsbD_zero, Bool.eq_false_iff]
  exact fun bit => none ⟨i + 1, contains_iff.mpr ⟨by omega, by omega, bit⟩⟩

theorem digits_day {day : Nat} (last : day ≤ 7) : Text.digits day = [Nat.digitChar day] :=
  Nat.toDigits_of_lt_base (by omega)

theorem toNat_digitChar {day : Nat} (last : day ≤ 7) : (Nat.digitChar day).toNat = 48 + day :=
  Nat.toNat_digitChar_of_lt_ten (by omega)

theorem ofDigit?_eq_some_iff {c : Char} {day : Nat} :
    ofDigit? c = some day ↔ 1 ≤ day ∧ day ≤ 7 ∧ Nat.digitChar day = c := by
  have bounds : ('1' ≤ c ∧ c ≤ '7') ↔ 49 ≤ c.toNat ∧ c.toNat ≤ 55 := Iff.rfl
  simp only [ofDigit?, Bool.and_eq_true, decide_eq_true_eq, bounds]
  constructor
  · intro read
    split at read
    next within =>
      have value : c.toNat - 48 = day := Option.some.inj read
      refine ⟨by omega, by omega, Char.toNat_inj.mp ?_⟩
      rw [toNat_digitChar (by omega)]
      omega
    next => cases read
  · rintro ⟨first, last, rfl⟩
    have value := toNat_digitChar last
    rw [value, if_pos (by omega)]
    exact congrArg some (Nat.add_sub_cancel_left 48 day)

theorem exists_ofDigit?_iff {c : Char} : (∃ day, ofDigit? c = some day) ↔ '1' ≤ c ∧ c ≤ '7' := by
  simp only [ofDigit?, Bool.and_eq_true, decide_eq_true_eq]
  split
  next within => exact iff_of_true ⟨_, rfl⟩ within
  next outside => exact iff_of_false (fun ⟨_, read⟩ => nomatch read) outside

theorem digits_eq_iff {c : Char} {day : Nat} (digit : '1' ≤ c ∧ c ≤ '7') :
    Text.digits day = [c] ↔ ofDigit? c = some day := by
  obtain ⟨own, read⟩ := exists_ofDigit?_iff.mpr digit
  obtain ⟨-, last, rfl⟩ := ofDigit?_eq_some_iff.mp read
  rw [read, ← digits_day last, Option.some.injEq]
  constructor
  · intro same
    rw [← Text.ofDigits_digits own, ← same, Text.ofDigits_digits]
  · rintro rfl
    rfl

/-- The bits with the one of a weekday set. -/
theorem getLsbD_added {mask : BitVec 7} {day i : Nat} (first : 1 ≤ day) (last : day ≤ 7) :
    (mask ||| (1#7 <<< (day - 1))).getLsbD i = true ↔ mask.getLsbD i = true ∨ day = i + 1 := by
  rw [BitVec.getLsbD_or, BitVec.getLsbD_shiftLeft, Bool.or_eq_true]
  refine or_congr_right ?_
  simp only [Bool.and_eq_true, decide_eq_true_eq, Bool.not_eq_true', decide_eq_false_iff_not,
    BitVec.getLsbD_one]
  omega

theorem addDigit?_eq_some_iff {mask after : BitVec 7} {c : Char} :
    addDigit? mask c = some after ↔ ∃ day, ofDigit? c = some day ∧
      mask.getLsbD (day - 1) = false ∧ after = mask ||| (1#7 <<< (day - 1)) := by
  rw [addDigit?]
  cases ofDigit? c with
  | none => exact iff_of_false (fun added => nomatch added) fun ⟨_, read, _⟩ => nomatch read
  | some day =>
    cases bit : mask.getLsbD (day - 1) with
    | true =>
      refine iff_of_false (fun added => ?_) fun ⟨_, read, free, _⟩ => ?_
      · simp [bit] at added
      · cases read
        exact nomatch bit.symm.trans free
    | false =>
      constructor
      · intro added
        refine ⟨day, rfl, bit, ?_⟩
        simpa [bit, eq_comm] using added
      · rintro ⟨_, ⟨⟩, -, rfl⟩
        simp [bit]

/-- Distinct digits of weekdays that are not among the bits. -/
structure New (mask : BitVec 7) (cs : List Char) : Prop where
  distinct : cs.Nodup
  free : ∀ c ∈ cs, ∃ day, ofDigit? c = some day ∧ mask.getLsbD (day - 1) = false

theorem new_cons {mask : BitVec 7} {c : Char} {day : Nat} {cs : List Char}
    (read : ofDigit? c = some day) : New mask (c :: cs) ↔
      mask.getLsbD (day - 1) = false ∧ New (mask ||| (1#7 <<< (day - 1))) cs := by
  obtain ⟨first, last, rfl⟩ := ofDigit?_eq_some_iff.mp read
  have added {other : Nat} (also : 1 ≤ other) :
      (mask ||| (1#7 <<< (day - 1))).getLsbD (other - 1) = false ↔
        mask.getLsbD (other - 1) = false ∧ day ≠ other := by
    rw [← Bool.not_eq_true, getLsbD_added first last, not_or, Bool.not_eq_true]
    exact and_congr_right fun _ => by omega
  constructor
  · intro h
    obtain ⟨absent, distinct⟩ := List.nodup_cons.mp h.distinct
    obtain ⟨⟨own, again, free⟩, others⟩ := List.forall_mem_cons.mp h.free
    obtain rfl := Option.some.inj (read.symm.trans again)
    refine ⟨free, distinct, fun d listed => ?_⟩
    obtain ⟨other, digit, unset⟩ := others d listed
    obtain ⟨also, -, rfl⟩ := ofDigit?_eq_some_iff.mp digit
    exact ⟨other, digit, (added also).mpr ⟨unset, fun same => absent (same ▸ listed)⟩⟩
  · rintro ⟨free, distinct, others⟩
    refine ⟨List.nodup_cons.mpr ⟨fun listed => ?_, distinct⟩,
      List.forall_mem_cons.mpr ⟨⟨day, read, free⟩, fun d listed => ?_⟩⟩
    · obtain ⟨other, digit, unset⟩ := others _ listed
      obtain rfl := Option.some.inj (read.symm.trans digit)
      exact ((added first).mp unset).2 rfl
    · obtain ⟨other, digit, unset⟩ := others d listed
      obtain ⟨also, -, -⟩ := ofDigit?_eq_some_iff.mp digit
      exact ⟨other, digit, ((added also).mp unset).1⟩

/-- A row is taken in if its digits are new, whatever was taken in before it. -/
theorem exists_foldlM_iff {cs : List Char} {mask : BitVec 7} :
    (∃ after, cs.foldlM addDigit? mask = some after) ↔ New mask cs := by
  induction cs generalizing mask with
  | nil => exact iff_of_true ⟨mask, rfl⟩ ⟨List.nodup_nil, fun c listed => nomatch listed⟩
  | cons c cs ih =>
    constructor
    · rintro ⟨after, taken⟩
      obtain ⟨next, added, rest⟩ := Option.bind_eq_some_iff.mp taken
      obtain ⟨day, read, free, rfl⟩ := addDigit?_eq_some_iff.mp added
      exact (new_cons read).mpr ⟨free, ih.mp ⟨after, rest⟩⟩
    · intro new
      obtain ⟨day, read, -⟩ := new.free c List.mem_cons_self
      obtain ⟨free, others⟩ := (new_cons read).mp new
      obtain ⟨after, rest⟩ := ih.mpr others
      have added := addDigit?_eq_some_iff.mpr ⟨day, read, free, rfl⟩
      exact ⟨after, Option.bind_eq_some_iff.mpr ⟨_, added, rest⟩⟩

/-- The bits after a row are those before it and those of its digits. -/
theorem getLsbD_foldlM {cs : List Char} {mask after : BitVec 7}
    (taken : cs.foldlM addDigit? mask = some after) (i : Nat) :
    after.getLsbD i = true ↔ mask.getLsbD i = true ∨ ∃ c ∈ cs, ofDigit? c = some (i + 1) := by
  induction cs generalizing mask with
  | nil =>
    cases taken
    simp
  | cons c cs ih =>
    obtain ⟨next, added, rest⟩ := Option.bind_eq_some_iff.mp taken
    obtain ⟨day, read, -, rfl⟩ := addDigit?_eq_some_iff.mp added
    obtain ⟨first, last, -⟩ := ofDigit?_eq_some_iff.mp read
    simp only [ih rest, getLsbD_added first last, List.mem_cons, exists_eq_or_imp, read,
      Option.some.injEq, or_assoc]

theorem new_zero_iff {cs : List Char} :
    New 0#7 cs ↔ cs.Nodup ∧ ∀ c ∈ cs, '1' ≤ c ∧ c ≤ '7' := by
  have free (c : Char) : (∃ day, ofDigit? c = some day ∧ (0#7).getLsbD (day - 1) = false) ↔
      '1' ≤ c ∧ c ≤ '7' := by
    rw [← exists_ofDigit?_iff]
    exact exists_congr fun day => and_iff_left (BitVec.getLsbD_zero)
  exact ⟨fun h => ⟨h.distinct, fun c listed => (free c).mp (h.free c listed)⟩,
    fun h => ⟨h.1, fun c listed => (free c).mpr (h.2 c listed)⟩⟩

theorem ofChars?_eq_some_iff {cs : List Char} {w : Weekdays} :
    ofChars? cs = some w ↔ cs.foldlM addDigit? 0#7 = some w.mask := by
  rw [ofChars?]
  cases cs.foldlM addDigit? 0#7 with
  | none => simp
  | some mask =>
    obtain ⟨own, nonempty⟩ := w
    by_cases zero : mask = 0#7
    · simpa [zero] using nonempty.symm
    · simp [zero]

/-- A set has the weekdays of the digits that it was read from. -/
theorem contains_of_ofChars? {cs : List Char} {w : Weekdays} (read : ofChars? cs = some w)
    (day : Nat) : w.contains day = true ↔ ∃ c ∈ cs, ofDigit? c = some day := by
  have bits := getLsbD_foldlM (ofChars?_eq_some_iff.mp read) (day - 1)
  rw [BitVec.getLsbD_zero, or_iff_right Bool.false_ne_true] at bits
  rw [contains_iff, bits]
  constructor
  · rintro ⟨first, -, c, listed, digit⟩
    rw [Nat.sub_add_cancel first] at digit
    exact ⟨c, listed, digit⟩
  · rintro ⟨c, listed, digit⟩
    obtain ⟨first, last, -⟩ := ofDigit?_eq_some_iff.mp digit
    refine ⟨first, last, c, listed, ?_⟩
    rwa [Nat.sub_add_cancel first]

theorem exists_ofChars?_iff {cs : List Char} : (∃ w, ofChars? cs = some w) ↔ Spells cs := by
  constructor
  · rintro ⟨w, read⟩
    obtain ⟨distinct, digits⟩ :=
      new_zero_iff.mp (exists_foldlM_iff.mp ⟨_, ofChars?_eq_some_iff.mp read⟩)
    obtain ⟨day, own⟩ := w.exists_contains
    obtain ⟨c, listed, -⟩ := (contains_of_ofChars? read day).mp own
    exact ⟨List.ne_nil_of_mem listed, distinct, digits⟩
  · intro spells
    have new := new_zero_iff.mpr ⟨spells.distinct, spells.digits⟩
    obtain ⟨mask, taken⟩ := exists_foldlM_iff.mpr new
    obtain ⟨c, listed⟩ := List.exists_mem_of_ne_nil cs spells.any
    obtain ⟨day, digit⟩ := exists_ofDigit?_iff.mpr (spells.digits c listed)
    obtain ⟨first, -, -⟩ := ofDigit?_eq_some_iff.mp digit
    have bit : mask.getLsbD (day - 1) = true := by
      refine (getLsbD_foldlM taken (day - 1)).mpr (.inr ⟨c, listed, ?_⟩)
      rwa [Nat.sub_add_cancel first]
    have nonempty : mask ≠ 0#7 := by
      rintro rfl
      rw [BitVec.getLsbD_zero] at bit
      cases bit
    exact ⟨⟨mask, nonempty⟩, ofChars?_eq_some_iff.mpr taken⟩

theorem parse_eq_ok_iff {s : String} {w : Weekdays} :
    parse s = .ok w ↔ ofChars? s.toList = some w := by
  rw [parse]
  cases ofChars? s.toList <;> simp

theorem parse_eq_error_iff {s : String} {cause : Invalid} :
    parse s = .error cause ↔ ¬ Spells s.toList ∧ cause = .repeatDays s := by
  rw [← exists_ofChars?_iff, parse]
  cases ofChars? s.toList <;> simp [eq_comm]

theorem chars_eq (w : Weekdays) :
    w.chars = ((List.range 8).filter w.contains).map Nat.digitChar := by
  have digits {day : Nat} (listed : day ∈ (List.range 8).filter w.contains) :
      Text.digits day = [Nat.digitChar day] := by
    have small := List.mem_range.mp (List.mem_filter.mp listed).1
    exact digits_day (by omega)
  rw [chars, List.map_eq_flatMap, List.flatMap_def, List.flatMap_def,
    List.map_congr_left fun _ => digits]

theorem mem_chars_iff {w : Weekdays} {c : Char} :
    c ∈ w.chars ↔ ∃ day, ofDigit? c = some day ∧ w.contains day = true := by
  rw [chars_eq, List.mem_map]
  refine exists_congr fun day => ?_
  rw [List.mem_filter, List.mem_range, ofDigit?_eq_some_iff, contains_iff]
  constructor
  · rintro ⟨⟨-, first, last, bit⟩, rfl⟩
    exact ⟨⟨first, last, rfl⟩, first, last, bit⟩
  · rintro ⟨⟨-, -, rfl⟩, first, last, bit⟩
    exact ⟨⟨by omega, first, last, bit⟩, rfl⟩

theorem chars_ascending (w : Weekdays) : w.chars.Pairwise (· < ·) := by
  rw [chars_eq, List.pairwise_map]
  refine (List.pairwise_lt_range.filter w.contains).imp_of_mem fun {a b} _ listed before => ?_
  have small := List.mem_range.mp (List.mem_filter.mp listed).1
  show (Nat.digitChar a).toNat < (Nat.digitChar b).toNat
  rw [toNat_digitChar (by omega), toNat_digitChar (by omega)]
  omega

theorem spells_chars (w : Weekdays) : Spells w.chars where
  any := by
    obtain ⟨day, own⟩ := w.exists_contains
    obtain ⟨first, last, -⟩ := contains_iff.mp own
    have digit := ofDigit?_eq_some_iff.mpr ⟨first, last, rfl⟩
    exact List.ne_nil_of_mem (mem_chars_iff.mpr ⟨day, digit, own⟩)
  distinct := by
    refine List.Pairwise.imp ?_ w.chars_ascending
    rintro c _ before rfl
    exact Char.lt_irrefl c before
  digits c listed := by
    obtain ⟨day, digit, -⟩ := mem_chars_iff.mp listed
    exact exists_ofDigit?_iff.mp ⟨day, digit⟩

/-- A set is read back from its digits. -/
theorem ofChars?_chars (w : Weekdays) : ofChars? w.chars = some w := by
  obtain ⟨v, read⟩ := exists_ofChars?_iff.mpr w.spells_chars
  have same : v = w := by
    refine eq_of_contains fun day first last => Bool.eq_iff_iff.mpr ?_
    rw [contains_of_ofChars? read]
    constructor
    · rintro ⟨c, listed, digit⟩
      obtain ⟨other, again, own⟩ := mem_chars_iff.mp listed
      rwa [Option.some.inj (digit.symm.trans again)]
    · intro own
      have digit := ofDigit?_eq_some_iff.mpr ⟨first, last, rfl⟩
      exact ⟨_, mem_chars_iff.mpr ⟨day, digit, own⟩, digit⟩
  rw [read, same]

/-- What is written for a set that was read has the digits it was read from. -/
theorem perm_of_ofChars? {cs : List Char} {w : Weekdays} (read : ofChars? cs = some w) :
    w.chars.Perm cs := by
  have spells := exists_ofChars?_iff.mp ⟨w, read⟩
  refine (List.perm_ext_iff_of_nodup w.spells_chars.distinct spells.distinct).mpr fun c => ?_
  rw [mem_chars_iff]
  constructor
  · rintro ⟨day, digit, own⟩
    obtain ⟨d, listed, again⟩ := (contains_of_ofChars? read day).mp own
    obtain ⟨-, -, rfl⟩ := ofDigit?_eq_some_iff.mp digit
    obtain ⟨-, -, rfl⟩ := ofDigit?_eq_some_iff.mp again
    exact listed
  · intro listed
    obtain ⟨day, digit⟩ := exists_ofDigit?_iff.mpr (spells.digits c listed)
    exact ⟨day, digit, (contains_of_ofChars? read day).mpr ⟨c, listed, digit⟩⟩

theorem eq_iff_perm {cs ds : List Char} {v w : Weekdays} (read : ofChars? cs = some v)
    (also : ofChars? ds = some w) : v = w ↔ cs.Perm ds := by
  constructor
  · rintro rfl
    exact (perm_of_ofChars? read).symm.trans (perm_of_ofChars? also)
  · intro perm
    refine eq_of_contains fun day _ _ => Bool.eq_iff_iff.mpr ?_
    rw [contains_of_ofChars? read, contains_of_ofChars? also]
    exact exists_congr fun c => and_congr_left fun _ => perm.mem_iff

/-- Weekdays are written as a row of distinct digits from 1 to 7, at least one, and any other text
is refused. A set that is read has the weekdays whose digits are in the text, and is written with
these digits in ascending order. Every set is read back from its own text, and two texts stand for
the same set if, and only if, they have the same digits. -/
theorem digits_read_and_written :
    (∀ s : String,
      ((∃ w, parse s = .ok w) ↔ Spells s.toList) ∧
      ∀ cause, parse s = .error cause ↔ ¬ Spells s.toList ∧ cause = .repeatDays s) ∧
    (∀ (s : String) (w : Weekdays), parse s = .ok w →
      (∀ day, w.contains day = true ↔ ∃ c ∈ s.toList, Text.digits day = [c]) ∧
      w.text.toList.Perm s.toList ∧ w.text.toList.Pairwise (· < ·)) ∧
    (∀ w : Weekdays, parse w.text = .ok w) ∧
    ∀ (s t : String) (v w : Weekdays), parse s = .ok v → parse t = .ok w →
      (v = w ↔ s.toList.Perm t.toList) := by
  refine ⟨fun s => ⟨?_, fun cause => parse_eq_error_iff⟩, fun s w read => ?_, fun w => ?_,
    fun s t v w read also => ?_⟩
  · rw [← exists_ofChars?_iff]
    exact exists_congr fun w => parse_eq_ok_iff
  · rw [parse_eq_ok_iff] at read
    have spells := exists_ofChars?_iff.mp ⟨w, read⟩
    rw [text, String.toList_ofList]
    refine ⟨fun day => ?_, perm_of_ofChars? read, w.chars_ascending⟩
    rw [contains_of_ofChars? read]
    exact exists_congr fun c => and_congr_right fun listed =>
      (digits_eq_iff (spells.digits c listed)).symm
  · rw [parse_eq_ok_iff, text, String.toList_ofList]
    exact w.ofChars?_chars
  · exact eq_iff_perm (parse_eq_ok_iff.mp read) (parse_eq_ok_iff.mp also)

/-- Monday, Wednesday and Friday in two orders. -/
theorem digits_read_and_written_out_of_order : ∃ v w,
    parse "531" = .ok v ∧ parse "153" = .ok w ∧ v = w ∧ v.contains 3 = true ∧
      v.contains 255 = false ∧ v.text.toList.Perm ['5', '3', '1'] := by
  obtain ⟨accepted, read, -, same⟩ := digits_read_and_written
  obtain ⟨v, first⟩ := (accepted "531").1.mpr ⟨by decide, by decide, by simp⟩
  obtain ⟨w, second⟩ := (accepted "153").1.mpr ⟨by decide, by decide, by simp⟩
  obtain ⟨days, perm, -⟩ := read "531" v first
  refine ⟨v, w, first, second, (same _ _ v w first second).mpr (by decide), ?_, ?_, perm⟩
  · exact (days 3).mpr ⟨'3', by decide, by decide⟩
  · rw [Bool.eq_false_iff]
    intro own
    obtain ⟨c, -, written⟩ := (days 255).mp own
    have long : Text.digits 255 = ['2', '5', '5'] := by decide
    cases long.symm.trans written

end Weekdays

end HomeScenes
