import Mathlib.Data.List.TakeWhile
import HomeScenes.Proofs.Json.Value
import HomeScenes.Proofs.Text

/-!
# JSON text read back

The machine that reads a text builds the tree of the value that the text was written for.
Each lemma says what reading one part of a text does, whatever the text goes on with: a
value that is complete is placed in the innermost open container, and reading goes on from
there. A number is the one part that only ends with the character after it. Integers are
read back within 64 bits; that floating-point numbers are is assumed of each of them.
-/

namespace HomeScenes.Json

open Text Reader

namespace Numeral

theorem isNumeralChar_of_isDigit {c : Char} (h : isDigit c = true) : isNumeralChar c = true := by
  simp [isNumeralChar, h]

/-- No number above zero is written with a zero in front. -/
theorem digits_head {n : Nat} (pos : 0 < n) : (digits n).head? ≠ some '0' := by
  induction n using Nat.strongRecOn with
  | ind n ih =>
    rw [digits, Nat.toDigits_eq_if (by decide)]
    split
    · rename_i small
      have : ∀ k < 10, 0 < k → k.digitChar ≠ '0' := by decide
      simpa using this n small pos
    · have front := ih (n / 10) (by omega) (by omega)
      rwa [List.head?_append_of_ne_nil _ Nat.toDigits_ne_nil]

theorem wholeOk_digits (n : Nat) : wholeOk (digits n) = true := by
  rcases Nat.eq_zero_or_pos n with rfl | pos
  · rfl
  · have head := digits_head pos
    match row : digits n, head with
    | [], _ => exact absurd row Nat.toDigits_ne_nil
    | [_], _ => rfl
    | c :: _ :: _, head => simpa [wholeOk] using head

/-- A row of digits, with or without a sign, is read as a number without point and exponent. -/
theorem ofChars?_whole {ds : List Char} (all : ∀ c ∈ ds, isDigit c = true)
    (ok : wholeOk ds = true) :
    ofChars? ds = some (ofWhole? false ds) ∧ ofChars? ('-' :: ds) = some (ofWhole? true ds) := by
  have take := List.takeWhile_eq_self_iff.2 all
  have drop := List.dropWhile_eq_nil_iff.2 all
  constructor
  · unfold ofChars?
    split
    rename_i negative body sign
    split at sign <;> cases sign
    · exact absurd (all '-' List.mem_cons_self) (by decide)
    · simp only [take, drop, ok]
      rfl
  · simp only [ofChars?, take, drop, ok]
    rfl

theorem ofChars?_digits (n : Nat) :
    ofChars? (digits n) = some (ofWhole? false (digits n)) ∧
      ofChars? ('-' :: digits n) = some (ofWhole? true (digits n)) :=
  ofChars?_whole (fun _ => isDigit_of_mem_digits) (wholeOk_digits n)

theorem readsBack_int {i : Int} (h : (int i).Proper) : (int i).ReadsBack := by
  obtain ⟨low, high⟩ := h
  simp only [wordLimit] at high
  by_cases negative : i < 0
  · rw [ReadsBack, chars, intChars, if_pos negative, (ofChars?_digits _).2, ofWhole?,
      ofDigits_digits, if_pos (by simp only [wordLimit]; omega), if_neg (by decide),
      if_neg (by omega), if_pos (by omega)]
    simp only [Option.some.injEq, int.injEq]
    omega
  · rw [ReadsBack, chars, intChars, if_neg negative, (ofChars?_digits _).1, ofWhole?,
      ofDigits_digits, if_pos (by simp only [wordLimit]; omega), if_pos (by decide)]
    simp only [Option.some.injEq, int.injEq]
    omega

/-- A number starts with a digit or a minus sign. -/
theorem starts_of_ofChars? {cs : List Char} {n : Option Numeral} (h : ofChars? cs = some n) :
    ∃ c rest, cs = c :: rest ∧ (c = '-' ∨ isDigit c = true) := by
  cases cs with
  | nil => simp [ofChars?, wholeOk] at h
  | cons c rest =>
    refine ⟨c, rest, rfl, ?_⟩
    by_cases minus : c = '-'
    · exact .inl minus
    · refine .inr ?_
      by_contra other
      simp [ofChars?, wholeOk, minus, other] at h

theorem exponent_chars {cs : List Char} {e : Int} (h : Double.readExponent? cs = some e) :
    ∀ c ∈ cs, isNumeralChar c = true := by
  have digit : ∀ ds : List Char, ds.all isDigit = true → ∀ c ∈ ds, isNumeralChar c = true :=
    fun ds all c hc => isNumeralChar_of_isDigit (List.all_eq_true.1 all c hc)
  unfold Double.readExponent? at h
  split at h
  rename_i negative ds sign
  split at h
  · rename_i all
    split at sign <;> cases sign
    · exact List.forall_mem_cons.2 ⟨by decide, digit _ all.2⟩
    · exact List.forall_mem_cons.2 ⟨by decide, digit _ all.2⟩
    · exact digit _ all.2
  · cases h

/-- All characters of a number may stand in one. -/
theorem chars_of_ofChars? {cs : List Char} {n : Option Numeral} (h : ofChars? cs = some n) :
    ∀ c ∈ cs, isNumeralChar c = true := by
  unfold ofChars? at h
  split at h
  rename_i negative body sign
  suffices number : ∀ c ∈ body, isNumeralChar c = true by
    split at sign <;> cases sign
    · exact List.forall_mem_cons.2 ⟨by decide, number⟩
    · exact number
  have digit : ∀ ds : List Char, ∀ c ∈ ds.takeWhile isDigit, isNumeralChar c = true :=
    fun ds c hc => isNumeralChar_of_isDigit (List.mem_takeWhile_imp hc)
  have rest : ∀ c ∈ body.dropWhile isDigit, isNumeralChar c = true := by
    dsimp only at h
    split at h
    · cases h
    split at h
    · rename_i none_left
      simp [List.isEmpty_iff.1 none_left]
    split at h
    · cases h
    rename_i fraction tail parts
    have after : ∀ c ∈ tail, isNumeralChar c = true := by
      split at h
      · cases h
      rename_i e exponent
      split at exponent
      · simp
      · split at exponent
        · rename_i c r mark
          exact List.forall_mem_cons.2
            ⟨by rcases mark with rfl | rfl <;> decide, exponent_chars exponent⟩
        · cases exponent
    split at parts
    · rename_i r point
      split at parts
      · cases parts
      · cases parts
        rw [point]
        refine List.forall_mem_cons.2 ⟨by decide, fun c hc => ?_⟩
        rw [← List.takeWhile_append_dropWhile (p := isDigit) (l := r)] at hc
        exact (List.mem_append.1 hc).elim (digit r c) (after c)
    · cases parts
      exact after
  intro c hc
  rw [← List.takeWhile_append_dropWhile (p := isDigit) (l := body)] at hc
  exact (List.mem_append.1 hc).elim (digit body c) (rest c)

end Numeral

namespace Reader

def run (s : State) (cs : List Char) : Option Raw :=
  (cs.foldlM step s).bind finish

theorem run_nil (s : State) : run s [] = finish s := rfl

theorem run_cons (s : State) (c : Char) (cs : List Char) :
    run s (c :: cs) = (step s c).bind (run · cs) := by
  simp only [run, List.foldlM_cons, Option.bind_eq_bind]
  cases step s c <;> rfl

def placed (v : Raw) (stack : List Frame) (rest : List Char) : Option Raw :=
  (place v stack).bind (run · rest)

theorem run_word (l : Char) (ls : List Char) (v : Raw) (stack : List Frame) (rest : List Char) :
    run ⟨.word (l :: ls) v, stack⟩ (l :: ls ++ rest) = placed v stack rest := by
  induction ls generalizing l with
  | nil =>
    rw [List.cons_append, run_cons]
    simp only [step, if_pos]
    rfl
  | cons m ls ih =>
    rw [List.cons_append, run_cons]
    simp only [step, if_pos, Option.bind_some]
    exact ih m

theorem hexValue?_digitChar : ∀ d < 16, hexValue? d.digitChar = some d := by
  decide

/-- The code of a control character has four digits, of which two are zeros. -/
theorem code_digits : ∀ n < 32,
    List.replicate (4 - (Nat.toDigits 16 n).length) '0' ++ Nat.toDigits 16 n =
      ['0', '0', (n / 16).digitChar, (n % 16).digitChar] := by
  decide

theorem run_code {c : Char} {d : Nat} (digit : hexValue? c = some d) (owed value : Nat)
    (isKey : Bool) (done : List Char) (stack : List Frame) (rest : List Char) :
    run ⟨.piece isKey ⟨done, false, .code (owed + 2) value⟩, stack⟩ (c :: rest) =
      run ⟨.piece isKey ⟨done, false, .code (owed + 1) (16 * value + d)⟩, stack⟩ rest := by
  have more : ¬ owed + 2 ≤ 1 := by omega
  simp only [run_cons, step, Piece.step, digit, if_neg more, stepPiece, Option.bind_some]
  rfl

/-- The last digit of a code below the surrogates. -/
theorem run_code_last {c : Char} {d value : Nat} (digit : hexValue? c = some d)
    (low : 16 * value + d < 0xD800) (isKey : Bool) (done : List Char) (stack : List Frame)
    (rest : List Char) :
    run ⟨.piece isKey ⟨done, false, .code 1 value⟩, stack⟩ (c :: rest) =
      run ⟨.piece isKey ⟨Char.ofNat (16 * value + d) :: done, false, .none⟩, stack⟩ rest := by
  have unit : Piece.unit ⟨done, false, .code 1 value⟩ (16 * value + d) =
      ⟨Char.ofNat (16 * value + d) :: done, false, .none⟩ := by
    rw [Piece.unit, if_neg (by omega), if_neg (by omega)]
    rfl
  simp only [run_cons, step, Piece.step, digit, Nat.le_refl, if_pos, unit, stepPiece,
    Option.bind_some]

theorem run_escape (c : Char) (isKey : Bool) (done : List Char) (stack : List Frame)
    (rest : List Char) :
    run ⟨.piece isKey ⟨done, false, .none⟩, stack⟩ (escapeChar c ++ rest) =
      run ⟨.piece isKey ⟨c :: done, false, .none⟩, stack⟩ rest := by
  unfold escapeChar
  split
  -- The short escapes are single characters on both sides.
  all_goals try rfl
  rename_i quote slash _ _ _ _ _
  split
  · rename_i control
    have high := hexValue?_digitChar (c.toNat / 16) (by omega)
    have low := hexValue?_digitChar (c.toNat % 16) (by omega)
    have code : 16 * (16 * (16 * (16 * 0 + 0) + 0) + c.toNat / 16) + c.toNat % 16 = c.toNat := by
      omega
    have zero : hexValue? '0' = some 0 := by decide
    have start (cs : List Char) :
        run ⟨.piece isKey ⟨done, false, .none⟩, stack⟩ ('\\' :: 'u' :: cs) =
          run ⟨.piece isKey ⟨done, false, .code 4 0⟩, stack⟩ cs := rfl
    rw [List.append_assoc ['\\', 'u'], code_digits _ control]
    simp only [List.cons_append, List.nil_append]
    rw [start, run_code zero, run_code zero, run_code high, run_code_last low (by omega), code,
      Char.ofNat_toNat]
  · rename_i plain
    have plainStep : Piece.plain ⟨done, false, .none⟩ c = .more ⟨c :: done, false, .none⟩ := by
      rw [Piece.plain, if_neg quote, if_neg slash, if_neg plain]
      rfl
    rw [List.singleton_append, run_cons]
    simp only [step, Piece.step, plainStep, stepPiece, Option.bind_some]

theorem run_piece (cs : List Char) (isKey : Bool) (done : List Char) (stack : List Frame)
    (rest : List Char) :
    run ⟨.piece isKey ⟨done, false, .none⟩, stack⟩ (cs.flatMap escapeChar ++ '"' :: rest) =
      (stepPiece isKey stack (.finished ⟨cs.reverse ++ done, false, .none⟩)).bind (run · rest) := by
  induction cs generalizing done with
  | nil => exact run_cons _ _ _
  | cons c cs ih =>
    rw [List.flatMap_cons, List.append_assoc, run_escape, ih, List.reverse_cons,
      List.append_assoc, List.singleton_append]

theorem value_of_chars (s : String) :
    Piece.value ⟨s.toList.reverse ++ [], false, .none⟩ = some s := by
  simp [Piece.value]

theorem run_text (s : String) (mayClose : Bool) (stack : List Frame) (rest : List Char) :
    run ⟨.value mayClose, stack⟩ (textChars s ++ rest) = placed (.text (some s)) stack rest := by
  rw [textChars, List.cons_append, List.cons_append, List.append_assoc, List.singleton_append,
    run_cons]
  refine (run_piece s.toList false [] stack rest).trans ?_
  simp only [stepPiece, value_of_chars]
  rfl

theorem run_key (s : String) (mayClose : Bool) (done : List (Option String × Raw))
    (stack : List Frame) (rest : List Char) :
    run ⟨.key mayClose, .members done :: stack⟩ (textChars s ++ ':' :: rest) =
      run ⟨.value false, .member done (some s) :: stack⟩ rest := by
  rw [textChars, List.cons_append, List.cons_append, List.append_assoc, List.singleton_append,
    run_cons]
  refine (run_piece s.toList true [] _ _).trans ?_
  simp only [stepPiece, value_of_chars]
  rfl

/-- What may follow a number: the number does not go on with it. -/
def Ends (rest : List Char) : Prop :=
  ∀ c ∈ rest.head?, isNumeralChar c = false

theorem run_numeralChars {cs : List Char} (all : ∀ c ∈ cs, isNumeralChar c = true)
    (done : List Char) (stack : List Frame) (rest : List Char) :
    run ⟨.numeral done, stack⟩ (cs ++ rest) = run ⟨.numeral (cs.reverse ++ done), stack⟩ rest := by
  induction cs generalizing done with
  | nil => rfl
  | cons c cs ih =>
    have tail := ih (fun c hc => all c (List.mem_cons_of_mem _ hc)) (c :: done)
    rw [List.cons_append, run_cons, List.reverse_cons, List.append_assoc, List.singleton_append]
    simp only [step, if_pos (all c List.mem_cons_self)]
    exact tail

/-- After a value that is complete, whatever comes next ends a number as it ends any value. -/
theorem stepEnded_of_place {v : Raw} {stack : List Frame} {s : State}
    (h : place v stack = some s) (c : Char) : stepEnded s c = step s c := by
  match stack, h with
  | [], h => cases h; rfl
  | .array _ :: _, h => cases h; rfl
  | .member _ _ :: _, h => cases h; rfl

/-- A number ends at the end of the text or before a character that cannot stand in one. -/
theorem run_numeral_end {cs : List Char} {n : Option Numeral}
    (h : Numeral.ofChars? cs.reverse = some n) (stack : List Frame) {rest : List Char}
    (ends : Ends rest) : run ⟨.numeral cs, stack⟩ rest = placed (.number n) stack rest := by
  cases rest with
  | nil =>
    simp only [run_nil, finish, finishNumeral, h, placed]
    match stack with
    | [] => rfl
    | .array _ :: _ => rfl
    | .members _ :: _ => rfl
    | .member _ _ :: _ => rfl
  | cons c rest =>
    have other : ¬ isNumeralChar c = true := by simp [ends c rfl]
    rw [run_cons]
    simp only [step, if_neg other, finishNumeral, h, placed]
    cases complete : place (.number n) stack with
    | none => rfl
    | some s =>
      simp only [Option.bind_some, run_cons]
      rw [stepEnded_of_place complete]

theorem stepValue_numeral {c : Char} (h : c = '-' ∨ isDigit c = true) (mayClose : Bool)
    (stack : List Frame) : stepValue mayClose stack c = some ⟨.numeral [c], stack⟩ := by
  have other : ∀ d : Char, ¬ (d = '-' ∨ isDigit d = true) → c ≠ d := fun d no same =>
    no (same ▸ h)
  have noSpace : isSpace c = false := by
    simp [isSpace, other ' ' (by decide), other '\n' (by decide), other '\t' (by decide),
      other '\r' (by decide)]
  simp [stepValue, noSpace, other '"' (by decide), other '[' (by decide), other ']' (by decide),
    other '\x7b' (by decide), other 't' (by decide), other 'f' (by decide),
    other 'n' (by decide), h]

theorem run_numeral {n : Numeral} (h : n.ReadsBack) (mayClose : Bool) (stack : List Frame)
    {rest : List Char} (ends : Ends rest) :
    run ⟨.value mayClose, stack⟩ (n.chars ++ rest) = placed (.number (some n)) stack rest := by
  obtain ⟨c, cs, row, first⟩ := Numeral.starts_of_ofChars? h
  have all := Numeral.chars_of_ofChars? h
  rw [Numeral.ReadsBack] at h
  rw [row] at h all ⊢
  rw [List.cons_append, run_cons]
  simp only [step, stepValue_numeral first, Option.bind_some]
  rw [run_numeralChars (fun c hc => all c (List.mem_cons_of_mem _ hc))]
  exact run_numeral_end (by simpa using h) stack ends

/-- Reading the text of a value places its tree, wherever a value may stand. -/
def Reads (v : Json) : Prop :=
  ∀ (mayClose : Bool) (stack : List Frame) (rest : List Char), Ends rest →
    run ⟨.value mayClose, stack⟩ (v.chars ++ rest) = placed v.raw stack rest

theorem ends_cons {c : Char} (h : isNumeralChar c = false) (rest : List Char) :
    Ends (c :: rest) := by
  simpa [Ends] using h

theorem run_items (v : Json) (vs : List Json) (reads : ∀ w ∈ v :: vs, Reads w) (mayClose : Bool)
    (done : List Raw) (stack : List Frame) (rest : List Char) :
    run ⟨.value mayClose, .array done :: stack⟩ (itemsChars (v :: vs) ++ ']' :: rest) =
      placed (.array (done.reverse ++ (v :: vs).map raw)) stack rest := by
  induction vs generalizing v mayClose done with
  | nil =>
    rw [itemsChars, reads v List.mem_cons_self _ _ _ (ends_cons (by decide) rest)]
    have same : done.reverse ++ [v.raw] = (v.raw :: done).reverse := by simp
    simp only [List.map_cons, List.map_nil, same]
    exact run_cons _ _ _
  | cons w ws ih =>
    have first := reads v List.mem_cons_self mayClose (.array done :: stack)
      (',' :: (itemsChars (w :: ws) ++ ']' :: rest)) (ends_cons (by decide) _)
    have tail := ih w (fun x hx => reads x (List.mem_cons_of_mem _ hx)) false (v.raw :: done)
    have same : done.reverse ++ (v :: w :: ws).map raw =
        (v.raw :: done).reverse ++ (w :: ws).map raw := by simp
    rw [itemsChars, List.append_assoc, List.cons_append, first, same, ← tail]
    · exact run_cons _ _ _
    · simp

theorem run_members (m : String × Json) (ms : List (String × Json))
    (reads : ∀ m' ∈ m :: ms, Reads m'.2) (mayClose : Bool) (done : List (Option String × Raw))
    (stack : List Frame) (rest : List Char) :
    run ⟨.key mayClose, .members done :: stack⟩ (membersChars (m :: ms) ++ '\x7d' :: rest) =
      placed (.object (done.reverse ++ (m :: ms).map fun m => (some m.1, m.2.raw))) stack rest := by
  obtain ⟨k, v⟩ := m
  induction ms generalizing k v mayClose done with
  | nil =>
    have value := reads (k, v) List.mem_cons_self false (.member done (some k) :: stack)
      ('\x7d' :: rest) (ends_cons (by decide) rest)
    have same : done.reverse ++ [(some k, v.raw)] = ((some k, v.raw) :: done).reverse := by simp
    rw [membersChars, List.append_assoc, List.cons_append, run_key, value]
    simp only [List.map_cons, List.map_nil, same]
    exact run_cons _ _ _
  | cons w ws ih =>
    obtain ⟨l, w⟩ := w
    have value := reads (k, v) List.mem_cons_self false (.member done (some k) :: stack)
      (',' :: (membersChars ((l, w) :: ws) ++ '\x7d' :: rest)) (ends_cons (by decide) _)
    have tail := ih false ((some k, v.raw) :: done) l w fun x hx =>
      reads x (List.mem_cons_of_mem _ hx)
    have same : done.reverse ++ ((k, v) :: (l, w) :: ws).map (fun m => (some m.1, m.2.raw)) =
        ((some k, v.raw) :: done).reverse ++ ((l, w) :: ws).map fun m => (some m.1, m.2.raw) := by
      simp
    rw [membersChars, List.append_assoc, List.cons_append, List.append_assoc, List.cons_append,
      run_key, value, same, ← tail]
    · exact run_cons _ _ _
    · simp

/-- By induction on the value; the lists in containers are read member by member. -/
theorem reads_of_numbers (v : Json) (numbers : ∀ n ∈ v.numbers, n.ReadsBack) : Reads v := by
  induction v using Json.inductionOn with
  | null => exact fun _ stack rest _ => run_word 'u' ['l', 'l'] .null stack rest
  | bool b =>
    cases b
    · exact fun _ stack rest _ => run_word 'a' ['l', 's', 'e'] (.bool false) stack rest
    · exact fun _ stack rest _ => run_word 'r' ['u', 'e'] (.bool true) stack rest
  | int i => exact fun mayClose stack _ => run_numeral (numbers _ List.mem_cons_self) mayClose stack
  | float d =>
    exact fun mayClose stack _ => run_numeral (numbers _ List.mem_cons_self) mayClose stack
  | text s => exact fun mayClose stack rest _ => run_text s mayClose stack rest
  | array items ih =>
    have each : ∀ v ∈ items, Reads v := fun v hv =>
      ih v hv fun n hn => numbers n (by simpa [Json.numbers] using ⟨v, hv, hn⟩)
    intro mayClose stack rest _
    cases items with
    | nil =>
      rw [chars, itemsChars, raw, rawItems]
      exact (run_cons _ _ _).trans (run_cons _ _ _)
    | cons v vs =>
      rw [chars, raw, rawItems_eq, List.cons_append, List.cons_append, List.append_assoc,
        List.singleton_append, run_cons]
      exact run_items v vs each true [] stack rest
  | object members ih =>
    have each : ∀ m ∈ members, Reads m.2 := fun m hm =>
      ih m hm fun n hn => numbers n (by simpa [Json.numbers] using ⟨m.1, m.2, hm, hn⟩)
    intro mayClose stack rest _
    cases members with
    | nil =>
      rw [chars, membersChars, raw, rawMembers]
      exact (run_cons _ _ _).trans (run_cons _ _ _)
    | cons m ms =>
      rw [chars, raw, rawMembers_eq, List.cons_append, List.cons_append, List.append_assoc,
        List.singleton_append, run_cons]
      exact run_members m ms each true [] stack rest

end Reader

/-- A text is read as the tree of the value it was written for, if the numbers in that are. -/
theorem ofChars?_chars {v : Json} (numbers : ∀ n ∈ v.numbers, n.ReadsBack) :
    Raw.ofChars? v.chars = some v.raw := by
  have reads := reads_of_numbers v numbers false [] [] (by simp [Ends])
  rw [List.append_nil] at reads
  exact reads

theorem nodeOfText?_compact {v : Json} (numbers : ∀ n ∈ v.numbers, n.ReadsBack) :
    Node.ofText? v.compact = some ⟨v.raw, 0, false⟩ := by
  rw [Node.ofText?, compact, String.toList_ofList, ofChars?_chars numbers, Option.map_some]

end HomeScenes.Json
