import HomeScenes.DueQueue
import Mathlib.Tactic.Common
import Mathlib.Data.List.Nodup

/-!
# The index of the due queue

The moves within the heap permute the queued tasks, and the index follows every one of
them: it leads from the id of each queued task to its place, and from no other id.
Nothing here depends on the order of the due instants.
-/

namespace HomeScenes.DueQueue

variable {κ β ω : Type} [BEq κ] [Hashable κ]

/-- The queued tasks, in the order of their places. -/
def tasks (q : DueQueue κ β ω) : List (Task κ β ω) :=
  q.items.toList

/-- The index leads from the id of each queued task to its place, and from no other id. -/
def Indexed (q : DueQueue κ β ω) : Prop :=
  ∀ (id : κ) (i : Nat), q.positions[id]? = some i ↔ q.items[i]?.map Task.id = some id

theorem mem_tasks_iff {q : DueQueue κ β ω} {t : Task κ β ω} :
    t ∈ q.tasks ↔ ∃ i : Nat, q.items[i]? = some t := by
  rw [tasks, Array.mem_toList_iff, Array.mem_iff_getElem?]

theorem tasks_swap (q : DueQueue κ β ω) {a b : Nat} (ha : a < q.items.size)
    (hb : b < q.items.size) : (q.swap a b ha hb).tasks.Perm q.tasks := by
  unfold swap tasks
  split
  · exact .refl _
  · exact Array.perm_iff_toList_perm.mp (Array.swap_perm ha hb)

theorem tasks_siftUp (q : DueQueue κ β ω) (i : Nat) : (q.siftUp i).tasks.Perm q.tasks := by
  induction q, i using siftUp.induct with
  | case1 q i h parent hp earlier ih =>
    rw [siftUp, dif_pos h, if_pos earlier]
    exact ih.trans (tasks_swap q h.2 hp)
  | case2 q i h parent hp late =>
    rw [siftUp, dif_pos h, if_neg late]
  | case3 q i h =>
    rw [siftUp, dif_neg h]

theorem siftDown_of_none {q : DueQueue κ β ω} {i : Nat} (h : q.earlierChild? i = none) :
    q.siftDown i = (q, i) := by
  rw [siftDown]
  split
  · rfl
  · rename_i hc
    rw [h] at hc
    cases hc

theorem siftDown_of_some {q : DueQueue κ β ω} {i c : Nat} (h : q.earlierChild? i = some c)
    (hi : i < q.items.size) (hc : c < q.items.size) :
    q.siftDown i =
      if q.items[c].due < q.items[i].due then (q.swap i c hi hc).siftDown c else (q, i) := by
  rw [siftDown]
  split
  · rename_i hn
    rw [h] at hn
    cases hn
  · rename_i d hd
    rw [h] at hd
    cases hd
    rfl

theorem tasks_siftDown (q : DueQueue κ β ω) (i : Nat) :
    (q.siftDown i).1.tasks.Perm q.tasks := by
  induction q, i using siftDown.induct with
  | case1 q i none => rw [siftDown_of_none none]
  | case2 q i c hc hb hi earlier ih =>
    rw [siftDown_of_some hc hi hb.2, if_pos earlier]
    exact ih.trans (tasks_swap q hi hb.2)
  | case3 q i c hc hb hi late =>
    rw [siftDown_of_some hc hi hb.2, if_neg late]

theorem fix_eq (q : DueQueue κ β ω) (i : Nat) :
    q.fix i =
      if i < (q.siftDown i).2 then (q.siftDown i).1 else (q.siftDown i).1.siftUp i := rfl

theorem tasks_fix (q : DueQueue κ β ω) (i : Nat) : (q.fix i).tasks.Perm q.tasks := by
  rw [fix_eq]
  split
  · exact tasks_siftDown q i
  · exact (tasks_siftUp _ i).trans (tasks_siftDown q i)

theorem tasks_push (q : DueQueue κ β ω) (t : Task κ β ω) :
    (q.push t).tasks.Perm (t :: q.tasks) := by
  refine (tasks_siftUp _ _).trans ?_
  simp only [tasks, Array.toList_push]
  exact List.perm_append_singleton t q.items.toList

theorem Indexed.at {q : DueQueue κ β ω} (hq : q.Indexed) {i : Nat} {t : Task κ β ω}
    (h : q.items[i]? = some t) : q.positions[t.id]? = some i :=
  (hq t.id i).2 (by rw [h]; rfl)

theorem Indexed.place_unique {q : DueQueue κ β ω} (hq : q.Indexed) {i j : Nat}
    {t u : Task κ β ω} (ht : q.items[i]? = some t) (hu : q.items[j]? = some u)
    (same : t.id = u.id) : i = j := by
  have hi := hq.at ht
  have hj := hq.at hu
  rw [same, hj] at hi
  exact (Option.some.inj hi).symm

theorem Indexed.ids_nodup {q : DueQueue κ β ω} (hq : q.Indexed) :
    (q.tasks.map Task.id).Nodup := by
  rw [List.Nodup, List.pairwise_iff_getElem]
  intro i j hi hj hij same
  rw [List.length_map, tasks, Array.length_toList] at hi hj
  have hid : q.items[i].id = q.items[j].id := by simpa [tasks] using same
  have := hq.place_unique (Array.getElem?_eq_getElem hi) (Array.getElem?_eq_getElem hj) hid
  omega

/-- A new due instant changes no id and no place. -/
theorem Indexed.withDue {q : DueQueue κ β ω} (hq : q.Indexed) (i : Nat) (due : Instant) :
    Indexed (⟨q.items.modify i fun t => t.withDue due, q.positions⟩ : DueQueue κ β ω) := by
  intro id j
  rw [hq id j]
  simp only [Array.getElem?_modify]
  split
  · rw [Option.map_map]
    rfl
  · rfl

variable [LawfulBEq κ]

theorem empty_indexed : (empty : DueQueue κ β ω).Indexed := by
  intro id i
  simp [empty]

theorem Indexed.swap {q : DueQueue κ β ω} (hq : q.Indexed) {a b : Nat}
    (ha : a < q.items.size) (hb : b < q.items.size) : (q.swap a b ha hb).Indexed := by
  unfold DueQueue.swap
  split
  · exact hq
  · rename_i hne
    have hta := Array.getElem?_eq_getElem ha
    have htb := Array.getElem?_eq_getElem hb
    have ida := hq.at hta
    have idb := hq.at htb
    intro id i
    have hi := hq id i
    have different : q.items[a].id ≠ q.items[b].id := fun same =>
      hne (hq.place_unique hta htb same)
    simp only [Std.HashMap.getElem?_insert, beq_iff_eq, Array.getElem?_swap]
    grind

theorem Indexed.siftUp {q : DueQueue κ β ω} {i : Nat} (hq : q.Indexed) :
    (q.siftUp i).Indexed := by
  induction q, i using DueQueue.siftUp.induct with
  | case1 q i h parent hp earlier ih =>
    rw [DueQueue.siftUp, dif_pos h, if_pos earlier]
    exact ih (hq.swap h.2 hp)
  | case2 q i h parent hp late =>
    rw [DueQueue.siftUp, dif_pos h, if_neg late]
    exact hq
  | case3 q i h =>
    rw [DueQueue.siftUp, dif_neg h]
    exact hq

theorem Indexed.siftDown {q : DueQueue κ β ω} {i : Nat} (hq : q.Indexed) :
    (q.siftDown i).1.Indexed := by
  induction q, i using DueQueue.siftDown.induct with
  | case1 q i none =>
    rw [siftDown_of_none none]
    exact hq
  | case2 q i c hc hb hi earlier ih =>
    rw [siftDown_of_some hc hi hb.2, if_pos earlier]
    exact ih (hq.swap hi hb.2)
  | case3 q i c hc hb hi late =>
    rw [siftDown_of_some hc hi hb.2, if_neg late]
    exact hq

theorem Indexed.fix {q : DueQueue κ β ω} {i : Nat} (hq : q.Indexed) : (q.fix i).Indexed := by
  rw [fix_eq]
  split
  · exact hq.siftDown
  · exact hq.siftDown.siftUp

/-- Put last, a task whose id is not queued is found at the last place. -/
theorem Indexed.append {q : DueQueue κ β ω} (hq : q.Indexed) {t : Task κ β ω}
    (new : ∀ u ∈ q.tasks, u.id ≠ t.id) :
    Indexed (⟨q.items.push t, q.positions.insert t.id q.items.size⟩ : DueQueue κ β ω) := by
  intro id i
  have hi := hq id i
  have apart : ∀ u, q.items[i]? = some u → u.id ≠ t.id := fun u hu =>
    new u (mem_tasks_iff.2 ⟨i, hu⟩)
  simp only [Std.HashMap.getElem?_insert, beq_iff_eq, Array.getElem?_push]
  grind

/-- Without its last task the index loses just that task's id. -/
theorem Indexed.dropLast {q : DueQueue κ β ω} (hq : q.Indexed) {t : Task κ β ω}
    (last : q.items[q.items.size - 1]? = some t) :
    Indexed (⟨q.items.pop, q.positions.erase t.id⟩ : DueQueue κ β ω) := by
  intro id i
  have hi := hq id i
  have ht := hq.at last
  have apart : ∀ u, q.items[i]? = some u → u.id = t.id → i = q.items.size - 1 := fun u hu same =>
    hq.place_unique hu last same
  simp only [Std.HashMap.getElem?_erase, beq_iff_eq, Array.getElem?_pop]
  grind

end HomeScenes.DueQueue
