import HomeScenes.Proofs.DueQueue.Order

/-!
# What each operation does to the queued tasks

Every operation keeps the index and the heap order, and each does one thing to the
queued tasks, up to their places: a push adds a task, a pop takes away one that is due
first, a removal takes away the one with the id, an update moves that one. Later proofs
use these statements and never look into the heap.
-/

namespace HomeScenes.DueQueue

variable {κ β ω : Type} [BEq κ] [Hashable κ]

structure Valid (q : DueQueue κ β ω) : Prop where
  indexed : q.Indexed
  ordered : q.Ordered

theorem Valid.ids_nodup {q : DueQueue κ β ω} (hv : q.Valid) : (q.tasks.map Task.id).Nodup :=
  hv.indexed.ids_nodup

/-- In a valid queue no other task has the id of the one at the head of its tasks. -/
theorem Valid.apart {q : DueQueue κ β ω} {t : Task κ β ω} {rest : List (Task κ β ω)}
    (hv : q.Valid) (perm : q.tasks.Perm (t :: rest)) : ∀ u ∈ rest, u.id ≠ t.id := by
  have nodup := ((perm.map Task.id).nodup_iff).mp hv.ids_nodup
  intro u hu same
  rw [List.map_cons, List.nodup_cons] at nodup
  exact nodup.1 (same ▸ List.mem_map_of_mem hu)

theorem size_eq_length (q : DueQueue κ β ω) : q.size = q.tasks.length := rfl

theorem pop?_eq_none_iff {q : DueQueue κ β ω} : q.pop? = none ↔ q.tasks = [] := by
  rw [pop?, removeAt?, tasks]
  split
  · rename_i h
    simp only [reduceCtorEq, false_iff]
    intro empty
    rw [Array.toList_eq_nil_iff] at empty
    simp [empty] at h
  · rename_i h
    simp only [true_iff]
    rw [Array.toList_eq_nil_iff]
    exact Array.eq_empty_of_size_eq_zero (by omega)

variable [LawfulBEq κ]

theorem empty_valid : (empty : DueQueue κ β ω).Valid where
  indexed := empty_indexed
  ordered i t p _ ht _ := by simp [empty] at ht

theorem push_valid {q : DueQueue κ β ω} {t : Task κ β ω} (hv : q.Valid)
    (new : ∀ u ∈ q.tasks, u.id ≠ t.id) : (q.push t).Valid where
  indexed := (hv.indexed.append new).siftUp
  ordered := by
    apply siftUp_ordered
    · constructor
      · intro j u p hj here child hu hp
        simp only [Array.getElem?_push, if_neg here, if_neg child] at hu hp
        exact hv.ordered j u p hj hu hp
      · intro j u p _ hj child hu _
        have hlt := (Array.getElem?_eq_some_iff.mp hu).1
        rw [Array.size_push] at hlt
        omega
    · intro j u p hj child hu _
      have hlt := (Array.getElem?_eq_some_iff.mp hu).1
      rw [Array.size_push] at hlt
      omega

theorem contains_iff {q : DueQueue κ β ω} (hv : q.Valid) (id : κ) :
    q.contains id = true ↔ ∃ t ∈ q.tasks, t.id = id := by
  rw [contains, Std.HashMap.contains_eq_isSome_getElem?, Option.isSome_iff_exists]
  constructor
  · rintro ⟨i, hi⟩
    obtain ⟨t, ht, hid⟩ := Option.map_eq_some_iff.mp ((hv.indexed id i).mp hi)
    exact ⟨t, mem_tasks_iff.mpr ⟨i, ht⟩, hid⟩
  · rintro ⟨t, ht, rfl⟩
    obtain ⟨i, hi⟩ := mem_tasks_iff.mp ht
    exact ⟨i, hv.indexed.at hi⟩

theorem positions_none_iff {q : DueQueue κ β ω} (hv : q.Valid) (id : κ) :
    q.positions[id]? = none ↔ ∀ t ∈ q.tasks, t.id ≠ id := by
  have h := contains_iff hv id
  rw [contains, Std.HashMap.contains_eq_isSome_getElem?] at h
  constructor
  · intro none t ht same
    rw [none] at h
    cases h.mpr ⟨t, ht, same⟩
  · intro apart
    cases hp : q.positions[id]? with
    | none => rfl
    | some i =>
      rw [hp] at h
      obtain ⟨t, ht, same⟩ := h.mp rfl
      exact False.elim (apart t ht same)

theorem removeAt?_spec {q : DueQueue κ β ω} {i : Nat} {t : Task κ β ω} (hv : q.Valid)
    (ht : q.items[i]? = some t) :
    ∃ rest, q.removeAt? i = some (t, rest) ∧ rest.Valid ∧ q.tasks.Perm (t :: rest.tasks) := by
  obtain ⟨hi, htask⟩ := Array.getElem?_eq_some_iff.mp ht
  have hlast : q.items.size - 1 < q.items.size := by omega
  let swapped := q.swap i (q.items.size - 1) hi hlast
  let rest : DueQueue κ β ω := ⟨swapped.items.pop, swapped.positions.erase t.id⟩
  have hsize : swapped.items.size = q.items.size := size_swap q hi hlast
  have last : swapped.items[swapped.items.size - 1]? = some t := by
    rw [hsize, getElem?_swap, if_pos rfl, ht]
    split <;> rename_i same
    · rw [same, ht]
    · rfl
  have indexed : rest.Indexed := (hv.indexed.swap hi hlast).dropLast last
  have agree : ∀ (k : Nat) (u : Task κ β ω), k ≠ i → rest.items[k]? = some u →
      q.items[k]? = some u := by
    intro k u hk hu
    obtain ⟨hlt, hu'⟩ := Array.getElem?_eq_some_iff.mp hu
    rw [Array.size_pop] at hlt
    have hu : swapped.items[k]? = some u := by
      rw [← hu', Array.getElem_pop]
      exact Array.getElem?_eq_getElem (by omega)
    rw [getElem?_swap, if_neg hk, if_neg (by omega)] at hu
    exact hu
  have hole : rest.Hole i := hv.ordered.hole hi agree
  have perm : q.tasks.Perm (t :: rest.tasks) := by
    have final : t ∈ swapped.items.toList.getLast? := by
      rw [List.getLast?_eq_getElem?, Array.length_toList, Array.getElem?_toList]
      exact last
    have whole : swapped.items.pop.toList ++ [t] = swapped.tasks := by
      rw [Array.toList_pop]
      exact List.dropLast_append_getLast? t final
    refine (tasks_swap q hi hlast).symm.trans ?_
    rw [← whole]
    exact List.perm_append_singleton t _
  have result : q.removeAt? i = some (t, if i < rest.items.size then rest.fix i else rest) := by
    simp only [removeAt?, dif_pos hi, htask, rest, swapped]
  refine ⟨_, result, ?_⟩
  by_cases inside : i < rest.items.size
  · rw [if_pos inside]
    refine ⟨⟨indexed.fix, fix_ordered hole⟩, ?_⟩
    exact perm.trans (List.Perm.cons t (tasks_fix rest i).symm)
  · have outside : rest.items[i]? = none := Array.getElem?_eq_none (by omega)
    rw [if_neg inside]
    refine ⟨⟨indexed, hole.ordered ?_ ?_⟩, perm⟩
    · intro j u p _ _ _ hp
      rw [outside] at hp
      cases hp
    · intro u p _ hu _
      rw [outside] at hu
      cases hu

theorem pop?_spec {q rest : DueQueue κ β ω} {t : Task κ β ω} (hv : q.Valid)
    (h : q.pop? = some (t, rest)) :
    rest.Valid ∧ q.tasks.Perm (t :: rest.tasks) ∧ ∀ u ∈ q.tasks, t.due ≤ u.due := by
  have hsize : 0 < q.items.size := by
    by_cases hs : 0 < q.items.size
    · exact hs
    · rw [pop?, removeAt?, dif_neg hs] at h
      cases h
  have hr := Array.getElem?_eq_getElem hsize
  obtain ⟨r, hpop, valid, perm⟩ := removeAt?_spec hv hr
  rw [pop?, hpop] at h
  cases h
  refine ⟨valid, perm, ?_⟩
  intro u hu
  obtain ⟨i, hi⟩ := mem_tasks_iff.mp hu
  exact root_first hv.ordered hr i u hi

theorem remove?_eq_none_iff {q : DueQueue κ β ω} (hv : q.Valid) (id : κ) :
    q.remove? id = none ↔ ∀ t ∈ q.tasks, t.id ≠ id := by
  rw [← positions_none_iff hv, remove?]
  cases hp : q.positions[id]? with
  | none => simp
  | some i =>
    obtain ⟨t, ht, _⟩ := Option.map_eq_some_iff.mp ((hv.indexed id i).mp hp)
    obtain ⟨rest, hrest, _⟩ := removeAt?_spec hv ht
    simp [hrest]

theorem remove?_spec {q rest : DueQueue κ β ω} {id : κ} {t : Task κ β ω} (hv : q.Valid)
    (h : q.remove? id = some (t, rest)) :
    rest.Valid ∧ q.tasks.Perm (t :: rest.tasks) ∧ t.id = id := by
  rw [remove?] at h
  cases hp : q.positions[id]? with
  | none =>
    rw [hp] at h
    cases h
  | some i =>
    rw [hp] at h
    obtain ⟨u, hu, hid⟩ := Option.map_eq_some_iff.mp ((hv.indexed id i).mp hp)
    obtain ⟨r, hr, valid, perm⟩ := removeAt?_spec hv hu
    simp only [hr] at h
    cases h
    exact ⟨valid, perm, hid⟩

theorem update?_eq_none_iff {q : DueQueue κ β ω} (hv : q.Valid) (id : κ) (due : Instant) :
    q.update? id due = none ↔ ∀ t ∈ q.tasks, t.id ≠ id := by
  rw [← positions_none_iff hv, update?]
  cases q.positions[id]? <;> simp

theorem update?_spec {q r : DueQueue κ β ω} {id : κ} {due : Instant} (hv : q.Valid)
    (h : q.update? id due = some r) :
    r.Valid ∧ ∃ t rest, t.id = id ∧ q.tasks.Perm (t :: rest) ∧
      r.tasks.Perm (t.withDue due :: rest) := by
  rw [update?] at h
  cases hp : q.positions[id]? with
  | none =>
    rw [hp] at h
    cases h
  | some i =>
    rw [hp] at h
    cases h
    obtain ⟨t, ht, hid⟩ := Option.map_eq_some_iff.mp ((hv.indexed id i).mp hp)
    obtain ⟨hi, htask⟩ := Array.getElem?_eq_some_iff.mp ht
    let moved : DueQueue κ β ω := ⟨q.items.modify i fun t => t.withDue due, q.positions⟩
    have hole : moved.Hole i := by
      apply hv.ordered.hole hi
      intro k u hk hu
      simp only [moved, Array.getElem?_modify, if_neg (Ne.symm hk)] at hu
      exact hu
    have hlen : i < q.tasks.length := hi
    have before : q.tasks = q.tasks.take i ++ t :: q.tasks.drop (i + 1) := by
      have head : q.tasks[i] = t := htask
      rw [← head, ← List.drop_eq_getElem_cons, List.take_append_drop]
    have after : moved.tasks =
        q.tasks.take i ++ t.withDue due :: q.tasks.drop (i + 1) := by
      have head : q.tasks[i] = t := htask
      rw [← head, tasks, Array.toList_modify]
      exact List.modify_eq_take_cons_drop hlen
    refine ⟨⟨(hv.indexed.withDue i due).fix, fix_ordered hole⟩, t,
      q.tasks.take i ++ q.tasks.drop (i + 1), hid, ?_, ?_⟩
    · conv_lhs => rw [before]
      exact List.perm_middle
    · refine (tasks_fix moved i).trans ?_
      rw [after]
      exact List.perm_middle

end HomeScenes.DueQueue
