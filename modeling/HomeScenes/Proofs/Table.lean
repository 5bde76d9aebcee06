import HomeScenes.Table
import Mathlib.Data.List.Basic

/-!
# Lookups in tables

What a table answers after a change, and that no change gives it a key twice.
-/

namespace HomeScenes.Table

variable {κ α : Type} [DecidableEq κ]

/-- No key has two entries. -/
def Distinct (t : Table κ α) : Prop :=
  t.keys.Nodup

theorem find?_entry {t : Table κ α} {k : κ} {v : α} (h : t.find? k = some v) :
    (k, v) ∈ t.entries := by
  obtain ⟨e, he, rfl⟩ := Option.map_eq_some_iff.mp h
  have key := List.find?_some he
  have : e.1 = k := of_decide_eq_true key
  subst this
  exact List.mem_of_find?_eq_some he

theorem find?_eq_some_iff {t : Table κ α} (distinct : t.Distinct) {k : κ} {v : α} :
    t.find? k = some v ↔ (k, v) ∈ t.entries := by
  refine ⟨find?_entry, fun h => ?_⟩
  obtain ⟨entries⟩ := t
  induction entries with
  | nil => cases h
  | cons e rest ih =>
    obtain ⟨fresh, distinct⟩ := List.nodup_cons.mp distinct
    rcases List.mem_cons.mp h with rfl | h
    · simp [find?]
    · have other : e.1 ≠ k := by
        intro same
        exact fresh (List.mem_map.mpr ⟨(k, v), h, same.symm⟩)
      have := ih distinct h
      simpa [find?, other] using this

theorem find?_eq_none_iff {t : Table κ α} {k : κ} : t.find? k = none ↔ k ∉ t.keys := by
  rw [find?, Option.map_eq_none_iff, List.find?_eq_none, keys, List.mem_map]
  constructor
  · rintro none ⟨e, he, rfl⟩
    exact none e he (decide_eq_true rfl)
  · intro none e he same
    exact none ⟨e, he, of_decide_eq_true same⟩

theorem contains_iff {t : Table κ α} {k : κ} : t.contains k = true ↔ k ∈ t.keys := by
  rw [contains, Option.isSome_iff_ne_none, ne_eq, find?_eq_none_iff, not_not]

@[simp] theorem keys_modify (t : Table κ α) (k : κ) (f : α → α) : (t.modify k f).keys = t.keys := by
  simp only [keys, modify, List.map_map]
  congr 1
  funext e
  simp only [Function.comp]
  split <;> rfl

theorem find?_modify (t : Table κ α) (k other : κ) (f : α → α) :
    (t.modify k f).find? other =
      if other = k then (t.find? other).map f else t.find? other := by
  obtain ⟨entries⟩ := t
  induction entries with
  | nil => simp [modify, find?]
  | cons e rest ih =>
    simp only [modify, find?] at ih ⊢
    by_cases here : e.1 = other
    · by_cases same : other = k <;> simp [here, same]
    · by_cases same : e.1 = k
      · have apart : ¬ k = other := fun h => here (same.trans h)
        simp only [List.map_cons, same, if_pos, List.find?_cons, apart, decide_false] at ih ⊢
        rw [ih]
      · simp only [List.map_cons, same, if_neg, not_false_iff, List.find?_cons, here,
          decide_false] at ih ⊢
        rw [ih]

theorem find?_set (t : Table κ α) (k other : κ) (v : α) :
    (t.set k v).find? other = if other = k then some v else t.find? other := by
  by_cases h : t.contains k
  · rw [set, if_pos h, find?_modify]
    by_cases same : other = k
    · subst same
      obtain ⟨old, hold⟩ := Option.isSome_iff_exists.mp h
      rw [if_pos rfl, if_pos rfl, hold]
      rfl
    · rw [if_neg same, if_neg same]
  · rw [set, if_neg h]
    have absent : t.find? k = none := by
      rw [find?_eq_none_iff, ← contains_iff]
      exact h
    by_cases same : other = k
    · subst same
      rw [if_pos rfl]
      rw [find?, Option.map_eq_none_iff] at absent
      simp [find?, List.find?_append, absent]
    · have : ¬ k = other := fun e => same e.symm
      simp [find?, List.find?_append, same, this]

theorem Distinct.set {t : Table κ α} (h : t.Distinct) (k : κ) (v : α) : (t.set k v).Distinct := by
  by_cases hk : t.contains k
  · rw [Table.set, if_pos hk, Distinct, keys_modify]
    exact h
  · rw [Table.set, if_neg hk, Distinct, keys, List.map_append]
    refine List.nodup_append.mpr ⟨h, List.pairwise_singleton _ k, ?_⟩
    rintro a ha b hb rfl
    rw [List.mem_singleton.mp hb] at ha
    exact hk (contains_iff.mpr ha)

theorem find?_erase (t : Table κ α) (k other : κ) :
    (t.erase k).find? other = if other = k then none else t.find? other := by
  obtain ⟨entries⟩ := t
  induction entries with
  | nil => simp [erase, find?]
  | cons e rest ih =>
    simp only [erase, find?, List.find?_filter] at ih ⊢
    by_cases here : e.1 = other
    · by_cases same : other = k <;> simp_all
    · by_cases same : e.1 = k <;> simp_all

end HomeScenes.Table
