import HomeScenes.Proofs.Calendar.Order
import HomeScenes.Proofs.DueQueue.Index

/-!
# The heap order

No task but the root is due before its parent. A sift starts from a heap that is in
order except around one place: the hole. Pairs that do not touch the hole are in order,
and the children of the hole are due no earlier than its parent, so that whichever of
them comes into the hole fits below that parent.
-/

namespace HomeScenes.DueQueue

variable {κ β ω : Type} [BEq κ] [Hashable κ]

def Ordered (q : DueQueue κ β ω) : Prop :=
  ∀ (i : Nat) (t p : Task κ β ω), 0 < i → q.items[i]? = some t →
    q.items[(i - 1) / 2]? = some p → p.due ≤ t.due

structure Hole (q : DueQueue κ β ω) (i : Nat) : Prop where
  off : ∀ (j : Nat) (t p : Task κ β ω), 0 < j → j ≠ i → (j - 1) / 2 ≠ i →
    q.items[j]? = some t → q.items[(j - 1) / 2]? = some p → p.due ≤ t.due
  grand : ∀ (j : Nat) (t p : Task κ β ω), 0 < i → 0 < j → (j - 1) / 2 = i →
    q.items[j]? = some t → q.items[(i - 1) / 2]? = some p → p.due ≤ t.due

def FitsAbove (q : DueQueue κ β ω) (i : Nat) : Prop :=
  ∀ (j : Nat) (t p : Task κ β ω), 0 < j → (j - 1) / 2 = i →
    q.items[j]? = some t → q.items[i]? = some p → p.due ≤ t.due

def FitsBelow (q : DueQueue κ β ω) (i : Nat) : Prop :=
  ∀ t p : Task κ β ω, 0 < i → q.items[i]? = some t → q.items[(i - 1) / 2]? = some p →
    p.due ≤ t.due

theorem Hole.ordered {q : DueQueue κ β ω} {i : Nat} (h : q.Hole i) (above : q.FitsAbove i)
    (below : q.FitsBelow i) : q.Ordered := by
  intro j t p hj ht hp
  by_cases here : j = i
  · subst here
    exact below t p hj ht hp
  · by_cases child : (j - 1) / 2 = i
    · exact above j t p hj child ht (child ▸ hp)
    · exact h.off j t p hj here child ht hp

/-- A queue that differs from an ordered one at one place only is in order around it. -/
theorem Ordered.hole {q r : DueQueue κ β ω} {i : Nat} (h : q.Ordered) (hi : i < q.items.size)
    (agree : ∀ (k : Nat) (t : Task κ β ω), k ≠ i → r.items[k]? = some t → q.items[k]? = some t) :
    r.Hole i where
  off j t p hj here child ht hp :=
    h j t p hj (agree j t here ht) (agree _ p child hp)
  grand j t p hpos hj child ht hp := by
    have hm := Array.getElem?_eq_getElem hi
    have upper := h i _ p hpos hm (agree _ p (by omega) hp)
    have lower := h j t _ hj (agree j t (by omega) ht) (by rw [child]; exact hm)
    exact Std.le_trans upper lower

theorem root_first {q : DueQueue κ β ω} (h : q.Ordered) {r : Task κ β ω}
    (hr : q.items[0]? = some r) (i : Nat) (t : Task κ β ω) (ht : q.items[i]? = some t) :
    r.due ≤ t.due := by
  induction i using Nat.strongRecOn generalizing t with
  | ind i ih =>
    by_cases hi : i = 0
    · subst hi
      rw [hr] at ht
      cases ht
      exact Std.le_refl _
    · have hsize : (i - 1) / 2 < q.items.size := by
        obtain ⟨hlt, _⟩ := Array.getElem?_eq_some_iff.mp ht
        omega
      have hp := Array.getElem?_eq_getElem hsize
      have first := ih ((i - 1) / 2) (by omega) _ hp
      exact Std.le_trans first (h i t _ (by omega) ht hp)

theorem getElem?_swap (q : DueQueue κ β ω) {a b : Nat} (ha : a < q.items.size)
    (hb : b < q.items.size) (k : Nat) :
    (q.swap a b ha hb).items[k]? =
      if k = a then q.items[b]? else if k = b then q.items[a]? else q.items[k]? := by
  unfold swap
  split
  · grind
  · simp only [Array.getElem?_swap]
    grind

/-- The parent comes down into the hole, and the task that went up fits above both places. -/
theorem Hole.up {q : DueQueue κ β ω} {i : Nat} (h : q.Hole i) (hi : 0 < i)
    (hsize : i < q.items.size) (hp : (i - 1) / 2 < q.items.size)
    (earlier : q.items[i].due < q.items[(i - 1) / 2].due) :
    (q.swap i ((i - 1) / 2) hsize hp).Hole ((i - 1) / 2) ∧
      (q.swap i ((i - 1) / 2) hsize hp).FitsAbove ((i - 1) / 2) := by
  have hti := Array.getElem?_eq_getElem hsize
  have htp := Array.getElem?_eq_getElem hp
  have hle : q.items[i].due ≤ q.items[(i - 1) / 2].due := Std.le_of_lt earlier
  have off := h.off
  have grand := h.grand
  refine ⟨⟨?_, ?_⟩, ?_⟩
  · intro j t p hj hne hpar ht hpt
    rw [getElem?_swap] at ht hpt
    by_cases here : j = i
    · omega
    · by_cases child : (j - 1) / 2 = i
      · rw [if_neg here, if_neg hne] at ht
        rw [if_pos child, htp] at hpt
        cases hpt
        exact grand j t _ hi hj child ht htp
      · rw [if_neg here, if_neg hne] at ht
        rw [if_neg child, if_neg hpar] at hpt
        exact off j t p hj here child ht hpt
  · intro j t p hpos hj child ht hpt
    have hroot : ((i - 1) / 2 - 1) / 2 ≠ i := by omega
    have hroot' : ((i - 1) / 2 - 1) / 2 ≠ (i - 1) / 2 := by omega
    rw [getElem?_swap] at ht hpt
    rw [if_neg hroot, if_neg hroot'] at hpt
    have upper := off _ _ p hpos (by omega) hroot htp hpt
    by_cases here : j = i
    · rw [if_pos here, htp] at ht
      cases ht
      exact upper
    · rw [if_neg here, if_neg (by omega)] at ht
      have lower := off j t _ hj here (by omega) ht (by rw [child]; exact htp)
      exact Std.le_trans upper lower
  · intro j t p hj child ht hpt
    rw [getElem?_swap] at ht hpt
    rw [if_neg (by omega), if_pos rfl, hti] at hpt
    cases hpt
    by_cases here : j = i
    · rw [if_pos here, htp] at ht
      cases ht
      exact hle
    · rw [if_neg here, if_neg (by omega)] at ht
      have lower := off j t _ hj here (by omega) ht (by rw [child]; exact htp)
      exact Std.le_trans hle lower

theorem siftUp_ordered {q : DueQueue κ β ω} {i : Nat} (h : q.Hole i)
    (above : q.FitsAbove i) : (q.siftUp i).Ordered := by
  induction q, i using siftUp.induct with
  | case1 q i hi parent hp earlier ih =>
    rw [siftUp, dif_pos hi, if_pos earlier]
    obtain ⟨hole, fits⟩ := h.up hi.1 hi.2 hp earlier
    exact ih hole fits
  | case2 q i hi parent hp late =>
    rw [siftUp, dif_pos hi, if_neg late]
    refine h.ordered above ?_
    intro t p hpos ht hpt
    rw [Array.getElem?_eq_getElem hi.2] at ht
    rw [Array.getElem?_eq_getElem hp] at hpt
    cases ht
    cases hpt
    exact Std.not_lt.mp late
  | case3 q i hi =>
    rw [siftUp, dif_neg hi]
    refine h.ordered above ?_
    intro t p hpos ht hpt
    obtain ⟨hlt, _⟩ := Array.getElem?_eq_some_iff.mp ht
    exact False.elim (hi ⟨hpos, hlt⟩)

theorem earlierChild?_first {q : DueQueue κ β ω} {i c : Nat} (h : q.earlierChild? i = some c) :
    0 < c ∧ (c - 1) / 2 = i ∧ ∀ (j : Nat) (t u : Task κ β ω), 0 < j → (j - 1) / 2 = i →
      q.items[j]? = some t → q.items[c]? = some u → u.due ≤ t.due := by
  simp only [earlierChild?] at h
  split at h
  · rename_i hl
    split at h
    · rename_i hr
      have htl := Array.getElem?_eq_getElem hl
      have htr := Array.getElem?_eq_getElem hr
      split at h
      · rename_i right
        cases h
        refine ⟨by omega, by omega, ?_⟩
        intro j t u hj child ht hu
        rw [htr] at hu
        cases hu
        obtain rfl | rfl : j = 2 * i + 1 ∨ j = 2 * i + 1 + 1 := by omega
        · rw [htl] at ht
          cases ht
          exact Std.le_of_lt right
        · rw [htr] at ht
          cases ht
          exact Std.le_refl _
      · rename_i left
        cases h
        refine ⟨by omega, by omega, ?_⟩
        intro j t u hj child ht hu
        rw [htl] at hu
        cases hu
        obtain rfl | rfl : j = 2 * i + 1 ∨ j = 2 * i + 1 + 1 := by omega
        · rw [htl] at ht
          cases ht
          exact Std.le_refl _
        · rw [htr] at ht
          cases ht
          exact Std.not_lt.mp left
    · rename_i hr
      cases h
      refine ⟨by omega, by omega, ?_⟩
      intro j t u hj child ht hu
      obtain ⟨hlt, _⟩ := Array.getElem?_eq_some_iff.mp ht
      obtain rfl : j = 2 * i + 1 := by omega
      rw [hu] at ht
      cases ht
      exact Std.le_refl _
  · cases h

theorem earlierChild?_none {q : DueQueue κ β ω} {i : Nat} (h : q.earlierChild? i = none) :
    q.FitsAbove i := by
  intro j t p hj child ht hp
  have hlt : j < q.items.size := (Array.getElem?_eq_some_iff.mp ht).1
  have hl : 2 * i + 1 < q.items.size := by omega
  simp only [earlierChild?, dif_pos hl] at h
  split at h
  · split at h <;> cases h
  · cases h

/-- The earlier child goes up into the hole and fits there; the hole follows the task that went
down. -/
theorem Hole.down {q : DueQueue κ β ω} {i c : Nat} (h : q.Hole i)
    (hc : q.earlierChild? i = some c) (hi : i < q.items.size) (hsize : c < q.items.size)
    (earlier : q.items[c].due < q.items[i].due) :
    (q.swap i c hi hsize).Hole c ∧ (q.swap i c hi hsize).FitsBelow c := by
  obtain ⟨hpos, hpar, first⟩ := earlierChild?_first hc
  have hti := Array.getElem?_eq_getElem hi
  have htc := Array.getElem?_eq_getElem hsize
  have off := h.off
  have grand := h.grand
  refine ⟨⟨?_, ?_⟩, ?_⟩
  · intro j t p hj hne hparc ht hpt
    rw [getElem?_swap] at ht hpt
    by_cases here : j = i
    · rw [if_pos here, htc] at ht
      cases ht
      rw [if_neg (by omega), if_neg hparc, here] at hpt
      exact grand c _ p (here ▸ hj) hpos hpar htc hpt
    · rw [if_neg here, if_neg hne] at ht
      by_cases child : (j - 1) / 2 = i
      · rw [if_pos child, htc] at hpt
        cases hpt
        exact first j t _ hj child ht htc
      · rw [if_neg child, if_neg hparc] at hpt
        exact off j t p hj here child ht hpt
  · intro j t p _ hj child ht hpt
    rw [getElem?_swap] at ht hpt
    rw [if_neg (by omega), if_neg (by omega)] at ht
    rw [if_pos hpar, htc] at hpt
    cases hpt
    exact off j t _ hj (by omega) (by omega) ht (by rw [child]; exact htc)
  · intro t p _ ht hpt
    rw [getElem?_swap] at ht hpt
    rw [if_neg (by omega), if_pos rfl, hti] at ht
    rw [if_pos hpar, htc] at hpt
    cases ht
    cases hpt
    exact Std.le_of_lt earlier

/-- A task that stays above its earlier child stays above both children. -/
theorem fitsAbove_of_late {q : DueQueue κ β ω} {i c : Nat} (hc : q.earlierChild? i = some c)
    (hi : i < q.items.size) (hsize : c < q.items.size)
    (late : ¬ q.items[c].due < q.items[i].due) : q.FitsAbove i := by
  intro j t p hj child ht hp
  rw [Array.getElem?_eq_getElem hi] at hp
  cases hp
  have first := (earlierChild?_first hc).2.2 j t _ hj child ht (Array.getElem?_eq_getElem hsize)
  exact Std.le_trans (Std.not_lt.mp late) first

theorem siftDown_ordered {q : DueQueue κ β ω} {i : Nat} (h : q.Hole i)
    (below : q.FitsBelow i) : (q.siftDown i).1.Ordered := by
  induction q, i using siftDown.induct with
  | case1 q i none =>
    rw [siftDown_of_none none]
    exact h.ordered (earlierChild?_none none) below
  | case2 q i c hc hb hi earlier ih =>
    rw [siftDown_of_some hc hi hb.2, if_pos earlier]
    obtain ⟨hole, fits⟩ := h.down hc hi hb.2 earlier
    exact ih hole fits
  | case3 q i c hc hb hi late =>
    rw [siftDown_of_some hc hi hb.2, if_neg late]
    exact h.ordered (fitsAbove_of_late hc hi hb.2 late) below

theorem le_siftDown (q : DueQueue κ β ω) (i : Nat) : i ≤ (q.siftDown i).2 := by
  induction q, i using siftDown.induct with
  | case1 q i none =>
    have still : (q.siftDown i).2 = i := by rw [siftDown_of_none none]
    exact Nat.le_of_eq still.symm
  | case2 q i c hc hb hi earlier ih =>
    rw [siftDown_of_some hc hi hb.2, if_pos earlier]
    omega
  | case3 q i c hc hb hi late =>
    have still : (q.siftDown i).2 = i := by rw [siftDown_of_some hc hi hb.2, if_neg late]
    exact Nat.le_of_eq still.symm

/-- A task that was moved down needs no move up, since what came into its place fits below the
parent of that place. -/
theorem fix_ordered {q : DueQueue κ β ω} {i : Nat} (h : q.Hole i) : (q.fix i).Ordered := by
  rw [fix_eq]
  match hc : q.earlierChild? i with
  | none =>
    rw [siftDown_of_none hc, if_neg (Nat.lt_irrefl i)]
    exact siftUp_ordered h (earlierChild?_none hc)
  | some c =>
    have hb := earlierChild?_bounds hc
    have hi : i < q.items.size := Nat.lt_trans hb.1 hb.2
    rw [siftDown_of_some hc hi hb.2]
    by_cases earlier : q.items[c].due < q.items[i].due
    · rw [if_pos earlier]
      have moved := le_siftDown (q.swap i c hi hb.2) c
      obtain ⟨hole, fits⟩ := h.down hc hi hb.2 earlier
      rw [if_pos (by omega)]
      exact siftDown_ordered hole fits
    · rw [if_neg earlier, if_neg (Nat.lt_irrefl i)]
      exact siftUp_ordered h (fitsAbove_of_late hc hi hb.2 earlier)

end HomeScenes.DueQueue
