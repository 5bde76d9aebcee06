import HomeScenes.Proofs.Json.Value

/-!
# What the reader of texts gives

Every number in a tree that was read from a text is proper: an integer of 64 bits with or
without a sign, or a finite floating-point number. It is an invariant of the machine, told
of the open containers and of the value it is about to place.
-/

namespace HomeScenes.Json

namespace Numeral

open Double

theorem scale_isFinite {negative : Bool} {steps : Nat} {m : Magnitude} {e : Int} {d : Double}
    (h : scale negative steps m e = some d) : d.IsFinite := by
  induction steps generalizing m e with
  | zero =>
    cases h
    exact isFinite_finite _ _
  | succ steps ih =>
    rw [scale] at h
    split at h
    · obtain ⟨q, -, rfl⟩ := Option.map_eq_some_iff.1 h
      exact isFinite_finite _ _
    · split at h
      · cases h
        exact isFinite_finite _ _
      · split at h
        · cases h
        · obtain ⟨q, -, next⟩ := Option.bind_eq_some_iff.1 h
          exact ih next

theorem toDouble?_isFinite {negative : Bool} {s : Significand} {d : Double}
    (h : s.toDouble? negative = some d) : d.IsFinite := by
  obtain ⟨m, -, scaled⟩ := Option.bind_eq_some_iff.1 h
  exact scale_isFinite scaled

theorem ofWhole?_proper {negative : Bool} {ds : List Char} {n : Numeral}
    (h : ofWhole? negative ds = some n) : n.Proper := by
  rw [ofWhole?] at h
  split at h
  · rename_i small
    split at h
    · cases h
      exact ⟨by omega, by omega⟩
    · split at h
      · cases h
        exact isFinite_finite _ _
      · split at h
        · cases h
          exact ⟨by omega, by omega⟩
        · cases h
          exact ofRatio_isFinite small true
  · obtain ⟨d, finite, rfl⟩ := Option.map_eq_some_iff.1 h
    exact toDouble?_isFinite finite

theorem ofChars?_proper {cs : List Char} {n : Numeral} (h : ofChars? cs = some (some n)) :
    n.Proper := by
  unfold ofChars? at h
  split at h
  dsimp only at h
  split at h
  · cases h
  · split at h
    · exact ofWhole?_proper (Option.some.inj h)
    · split at h
      · cases h
      · split at h
        · cases h
        · obtain ⟨d, finite, rfl⟩ := Option.map_eq_some_iff.1 (Option.some.inj h)
          exact toDouble?_isFinite finite

end Numeral

namespace Raw

mutual

def Proper : Raw → Prop
  | null | bool _ | text _ => True
  | number n => ∀ x ∈ n, x.Proper
  | array items => ProperItems items
  | object members => ProperMembers members

def ProperItems : List Raw → Prop
  | [] => True
  | r :: rs => Proper r ∧ ProperItems rs

def ProperMembers : List (Option String × Raw) → Prop
  | [] => True
  | (_, r) :: ms => Proper r ∧ ProperMembers ms

end

@[simp] theorem properItems_iff {rs : List Raw} : ProperItems rs ↔ ∀ r ∈ rs, r.Proper := by
  induction rs with
  | nil => simp [ProperItems]
  | cons r rs ih => simp [ProperItems, ih]

@[simp] theorem properMembers_iff {ms : List (Option String × Raw)} :
    ProperMembers ms ↔ ∀ m ∈ ms, m.2.Proper := by
  induction ms with
  | nil => simp [ProperMembers]
  | cons m ms ih => simp [ProperMembers, ih]

end Raw

namespace Reader

def Frame.Proper : Frame → Prop
  | .array done => ∀ r ∈ done, r.Proper
  | .members done => ∀ m ∈ done, m.2.Proper
  | .member done _ => ∀ m ∈ done, m.2.Proper

def Mode.Proper : Mode → Prop
  | .word _ v => v.Proper
  | .done v => v.Proper
  | _ => True

structure State.Proper (s : State) : Prop where
  mode : s.mode.Proper
  stack : ∀ f ∈ s.stack, f.Proper

variable {stack : List Frame} {s s' : State} {c : Char}

theorem place_proper {v : Raw} (hv : v.Proper) (hs : ∀ f ∈ stack, f.Proper)
    (h : place v stack = some s) : s.Proper := by
  match stack, h with
  | [], h => cases h; exact ⟨hv, by simp⟩
  | .array done :: stack, h =>
    cases h
    rw [List.forall_mem_cons] at hs
    exact ⟨trivial, List.forall_mem_cons.2 ⟨List.forall_mem_cons.2 ⟨hv, hs.1⟩, hs.2⟩⟩
  | .member done key :: stack, h =>
    cases h
    rw [List.forall_mem_cons] at hs
    exact ⟨trivial, List.forall_mem_cons.2 ⟨List.forall_mem_cons.2 ⟨hv, hs.1⟩, hs.2⟩⟩

theorem closeArray_proper (hs : ∀ f ∈ stack, f.Proper) (h : closeArray stack = some s) :
    s.Proper := by
  match stack, h with
  | .array done :: stack, h =>
    rw [List.forall_mem_cons] at hs
    refine place_proper ?_ hs.2 h
    rw [Raw.Proper, Raw.properItems_iff]
    exact fun r hr => hs.1 r (List.mem_reverse.1 hr)

theorem closeObject_proper (hs : ∀ f ∈ stack, f.Proper) (h : closeObject stack = some s) :
    s.Proper := by
  match stack, h with
  | .members done :: stack, h =>
    rw [List.forall_mem_cons] at hs
    refine place_proper ?_ hs.2 h
    rw [Raw.Proper, Raw.properMembers_iff]
    exact fun m hm => hs.1 m (List.mem_reverse.1 hm)

theorem finishNumeral_proper {cs : List Char} (hs : ∀ f ∈ stack, f.Proper)
    (h : finishNumeral cs stack = some s) : s.Proper := by
  rw [finishNumeral] at h
  split at h
  · rename_i n number
    refine place_proper ?_ hs h
    rw [Raw.Proper]
    rintro x rfl
    exact Numeral.ofChars?_proper number
  · cases h

theorem stepValue_proper {mayClose : Bool} (hs : ∀ f ∈ stack, f.Proper)
    (h : stepValue mayClose stack c = some s) : s.Proper := by
  unfold stepValue at h
  split at h
  · cases h; exact ⟨trivial, hs⟩
  · split at h
    · cases h; exact ⟨trivial, hs⟩
    · cases h; exact ⟨trivial, List.forall_mem_cons.2 ⟨by simp [Frame.Proper], hs⟩⟩
    · split at h
      · exact closeArray_proper hs h
      · cases h
    · cases h; exact ⟨trivial, List.forall_mem_cons.2 ⟨by simp [Frame.Proper], hs⟩⟩
    · cases h; exact ⟨trivial, hs⟩
    · cases h; exact ⟨trivial, hs⟩
    · cases h; exact ⟨trivial, hs⟩
    · split at h
      · cases h; exact ⟨trivial, hs⟩
      · cases h

theorem stepKey_proper {mayClose : Bool} (hs : ∀ f ∈ stack, f.Proper)
    (h : stepKey mayClose stack c = some s) : s.Proper := by
  unfold stepKey at h
  split at h
  · cases h; exact ⟨trivial, hs⟩
  · split at h
    · cases h; exact ⟨trivial, hs⟩
    · split at h
      · exact closeObject_proper hs h
      · cases h

theorem stepAfter_proper (hs : ∀ f ∈ stack, f.Proper) (h : stepAfter stack c = some s) :
    s.Proper := by
  unfold stepAfter at h
  split at h
  · cases h; exact ⟨trivial, hs⟩
  · split at h
    · cases h; exact ⟨trivial, hs⟩
    · cases h; exact ⟨trivial, hs⟩
    · exact closeArray_proper hs h
    · exact closeObject_proper hs h
    · cases h

theorem stepPiece_proper {isKey : Bool} {p : PieceStep} (hs : ∀ f ∈ stack, f.Proper)
    (h : stepPiece isKey stack p = some s) : s.Proper := by
  cases p with
  | more p => cases h; exact ⟨trivial, hs⟩
  | refused => cases h
  | finished p =>
    unfold stepPiece at h
    dsimp only at h
    split at h
    · split at h
      · cases h
        rw [List.forall_mem_cons] at hs
        exact ⟨trivial, List.forall_mem_cons.2 ⟨hs.1, hs.2⟩⟩
      · cases h
    · exact place_proper (show (Raw.text p.value).Proper from trivial) hs h

theorem stepEnded_proper (hs : s.Proper) (h : stepEnded s c = some s') : s'.Proper := by
  unfold stepEnded at h
  split at h
  · exact stepAfter_proper hs.stack h
  · rename_i v mode
    split at h
    · cases h
      exact ⟨by simpa [mode] using hs.mode, by simp⟩
    · cases h
  · cases h

/-- By cases on what may come next. -/
theorem step_proper (hs : s.Proper) (h : step s c = some s') : s'.Proper := by
  obtain ⟨mode, stack⟩ := s
  have inner : ∀ f ∈ stack, f.Proper := hs.stack
  cases mode with
  | value mayClose => exact stepValue_proper inner h
  | key mayClose => exact stepKey_proper inner h
  | colon =>
    simp only [step] at h
    split at h
    · cases h; exact hs
    · split at h
      · cases h; exact ⟨trivial, inner⟩
      · cases h
  | after => exact stepAfter_proper inner h
  | piece isKey p => exact stepPiece_proper inner h
  | numeral cs =>
    simp only [step] at h
    split at h
    · cases h; exact ⟨trivial, inner⟩
    · obtain ⟨ended, number, rest⟩ := Option.bind_eq_some_iff.1 h
      exact stepEnded_proper (finishNumeral_proper inner number) rest
  | word owed v =>
    simp only [step] at h
    split at h
    · cases h
    · split at h
      · exact place_proper hs.mode inner h
      · cases h
    · split at h
      · cases h; exact ⟨hs.mode, inner⟩
      · cases h
  | done v =>
    simp only [step] at h
    split at h
    · cases h; exact ⟨hs.mode, by simp⟩
    · cases h

theorem foldlM_proper {cs : List Char} (hs : s.Proper) (h : cs.foldlM step s = some s') :
    s'.Proper := by
  induction cs generalizing s with
  | nil => cases h; exact hs
  | cons c cs ih =>
    rw [List.foldlM_cons] at h
    obtain ⟨next, first, rest⟩ := Option.bind_eq_some_iff.1 h
    exact ih (step_proper hs first) rest

theorem finish_proper {r : Raw} (hs : s.Proper) (h : finish s = some r) : r.Proper := by
  unfold finish at h
  split at h
  · rename_i v mode
    cases h
    have proper := hs.mode
    rwa [mode] at proper
  · split at h
    · rename_i v stack number
      cases h
      exact (finishNumeral_proper hs.stack number).mode
    · cases h
  · cases h

end Reader

/-- Every number that is read from a text and has a value is proper. -/
theorem Raw.ofChars?_proper {cs : List Char} {r : Raw} (h : Raw.ofChars? cs = some r) :
    r.Proper := by
  obtain ⟨s, run, finished⟩ := Option.bind_eq_some_iff.1 h
  have start : Reader.State.start.Proper := ⟨trivial, by simp [Reader.State.start]⟩
  exact Reader.finish_proper (Reader.foldlM_proper start run) finished

end HomeScenes.Json
