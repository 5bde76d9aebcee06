import HomeScenes.Proofs.DueQueue.Operations
import Mathlib.Data.Set.Card

/-!
# The due queue as a finite map

Seen from outside, the queue is a finite map from ids to tasks, each with its due
instant. Whatever sequence of operations led to a queue, its index and its heap order
are intact, and the next operation does to the map what its rule says and nothing else.
Which of several tasks that are due together comes out first is left open by the map.
-/

namespace HomeScenes.DueQueue

variable {κ β ω : Type} [BEq κ] [Hashable κ]

/-- Finite maps from ids to tasks. -/
abbrev Entries (κ β ω : Type) := κ → Option (Task κ β ω)

def Entries.put (m : Entries κ β ω) (id : κ) (t : Option (Task κ β ω)) : Entries κ β ω :=
  fun k => if k == id then t else m k

/-- The queued task with an id. -/
def entries (q : DueQueue κ β ω) : Entries κ β ω :=
  fun id => q.tasks.find? fun t => t.id == id

inductive Operation (κ β ω : Type) where
  | push (t : Task κ β ω)
  | pop
  | remove (id : κ)
  | update (id : κ) (due : Instant)

inductive Answer (κ β ω : Type) where
  | done
  | task (t : Option (Task κ β ω))
  | moved (yes : Bool)

/-- Carry out an operation; one that finds no task leaves the queue as it is. -/
def perform (q : DueQueue κ β ω) : Operation κ β ω → Answer κ β ω × DueQueue κ β ω
  | .push t => (.done, q.push t)
  | .pop =>
    match q.pop? with
    | some (t, rest) => (.task (some t), rest)
    | none => (.task none, q)
  | .remove id =>
    match q.remove? id with
    | some (t, rest) => (.task (some t), rest)
    | none => (.task none, q)
  | .update id due =>
    match q.update? id due with
    | some q => (.moved true, q)
    | none => (.moved false, q)

/-- What an operation answers and makes of a map. -/
inductive Effect (m : Entries κ β ω) : Operation κ β ω → Answer κ β ω → Entries κ β ω → Prop where
  | pushed {t : Task κ β ω} : Effect m (.push t) .done (m.put t.id (some t))
  | popped {t : Task κ β ω} (here : m t.id = some t)
      (first : ∀ id u, m id = some u → t.due ≤ u.due) :
      Effect m .pop (.task (some t)) (m.put t.id none)
  | exhausted (empty : ∀ id, m id = none) : Effect m .pop (.task none) m
  | removed {id : κ} {t : Task κ β ω} (here : m id = some t) :
      Effect m (.remove id) (.task (some t)) (m.put id none)
  | nothingToRemove {id : κ} (absent : m id = none) : Effect m (.remove id) (.task none) m
  | updated {id : κ} {due : Instant} {t : Task κ β ω} (here : m id = some t) :
      Effect m (.update id due) (.moved true) (m.put id (some (t.withDue due)))
  | nothingToUpdate {id : κ} {due : Instant} (absent : m id = none) :
      Effect m (.update id due) (.moved false) m

def Admits (q : DueQueue κ β ω) (op : Operation κ β ω) : Prop :=
  ∀ t, op = .push t → q.entries t.id = none

inductive Reached : DueQueue κ β ω → Prop where
  | empty : Reached .empty
  | step {q : DueQueue κ β ω} (before : Reached q) (op : Operation κ β ω) (admitted : q.Admits op) :
      Reached (q.perform op).2

variable [LawfulBEq κ]

theorem entries_found {q : DueQueue κ β ω} {id : κ} {t : Task κ β ω}
    (h : q.entries id = some t) : t ∈ q.tasks ∧ t.id = id := by
  unfold entries at h
  exact ⟨List.mem_of_find?_eq_some h, by simpa using List.find?_some h⟩

theorem entries_eq_some_iff {q : DueQueue κ β ω} (hv : q.Valid) {id : κ} {t : Task κ β ω} :
    q.entries id = some t ↔ t ∈ q.tasks ∧ t.id = id := by
  constructor
  · exact entries_found
  · rintro ⟨ht, rfl⟩
    have found : (q.entries t.id).isSome := by
      rw [entries, List.find?_isSome]
      exact ⟨t, ht, beq_self_eq_true t.id⟩
    obtain ⟨u, hu⟩ := Option.isSome_iff_exists.mp found
    obtain ⟨hmem, same⟩ := entries_found hu
    rw [hu, List.inj_on_of_nodup_map hv.ids_nodup hmem ht same]

theorem entries_eq_none_iff {q : DueQueue κ β ω} {id : κ} :
    q.entries id = none ↔ ∀ t ∈ q.tasks, t.id ≠ id := by
  simp [entries]

/-- Two queues with the same tasks up to the changed one differ as maps at its id only. -/
theorem entries_put {q r : DueQueue κ β ω} {id : κ} {v : Option (Task κ β ω)}
    (rest : List (Task κ β ω)) (hr : r.Valid) (hq : q.Valid)
    (value : ∀ t, v = some t → t.id = id) (apart : ∀ t ∈ rest, t.id ≠ id)
    (before : ∀ t, t.id ≠ id → (t ∈ q.tasks ↔ t ∈ rest))
    (after : r.tasks.Perm (v.toList ++ rest)) : r.entries = q.entries.put id v := by
  funext k
  apply Option.ext
  intro u
  rw [entries_eq_some_iff hr, after.mem_iff, List.mem_append, Option.mem_toList, Entries.put]
  by_cases hk : k = id
  · subst hk
    rw [if_pos (beq_self_eq_true k)]
    constructor
    · rintro ⟨hu | hu, hid⟩
      · exact hu
      · exact False.elim (apart u hu hid)
    · intro hu
      exact ⟨Or.inl hu, value u hu⟩
  · rw [if_neg (by simpa using hk), entries_eq_some_iff hq]
    constructor
    · rintro ⟨hu | hu, rfl⟩
      · exact False.elim (hk (value u hu))
      · exact ⟨(before u hk).mpr hu, rfl⟩
    · rintro ⟨hu, rfl⟩
      exact ⟨Or.inr ((before u hk).mp hu), rfl⟩

theorem entries_push {q : DueQueue κ β ω} {t : Task κ β ω} (hv : q.Valid)
    (new : ∀ u ∈ q.tasks, u.id ≠ t.id) :
    (q.push t).entries = q.entries.put t.id (some t) := by
  refine entries_put q.tasks (push_valid hv new) hv ?_ new ?_ (tasks_push q t)
  · rintro u ⟨⟩
    rfl
  · exact fun _ _ => Iff.rfl

theorem entries_taken {q rest : DueQueue κ β ω} {t : Task κ β ω} (hq : q.Valid)
    (hr : rest.Valid) (perm : q.tasks.Perm (t :: rest.tasks)) :
    rest.entries = q.entries.put t.id none := by
  refine entries_put _ hr hq ?_ (hq.apart perm) ?_ (.refl rest.tasks)
  · rintro u ⟨⟩
  · intro u hu
    rw [perm.mem_iff, List.mem_cons]
    constructor
    · rintro (rfl | h)
      · exact False.elim (hu rfl)
      · exact h
    · exact Or.inr

theorem entries_moved {q r : DueQueue κ β ω} {t : Task κ β ω} {due : Instant}
    {rest : List (Task κ β ω)} (hq : q.Valid) (hr : r.Valid) (before : q.tasks.Perm (t :: rest))
    (after : r.tasks.Perm (t.withDue due :: rest)) :
    r.entries = q.entries.put t.id (some (t.withDue due)) := by
  refine entries_put _ hr hq ?_ (hq.apart before) ?_ after
  · rintro u ⟨⟩
    rfl
  · intro u hu
    rw [before.mem_iff, List.mem_cons]
    constructor
    · rintro (rfl | h)
      · exact False.elim (hu rfl)
      · exact h
    · exact Or.inr

/-- One step: the queue stays valid, and the map changes as the operation says. -/
theorem perform_spec {q : DueQueue κ β ω} (hv : q.Valid) (op : Operation κ β ω)
    (admitted : q.Admits op) :
    (q.perform op).2.Valid ∧
      Effect q.entries op (q.perform op).1 (q.perform op).2.entries := by
  cases op with
  | push t =>
    have new := entries_eq_none_iff.mp (admitted t rfl)
    refine ⟨push_valid hv new, ?_⟩
    change Effect q.entries (.push t) .done (q.push t).entries
    rw [entries_push hv new]
    exact .pushed
  | pop =>
    cases h : q.pop? with
    | none =>
      have empty := pop?_eq_none_iff.mp h
      simp only [perform, h]
      refine ⟨hv, .exhausted fun id => entries_eq_none_iff.mpr ?_⟩
      simp [empty]
    | some r =>
      obtain ⟨t, rest⟩ := r
      obtain ⟨valid, perm, first⟩ := pop?_spec hv h
      have here : q.entries t.id = some t :=
        (entries_eq_some_iff hv).mpr ⟨perm.mem_iff.mpr List.mem_cons_self, rfl⟩
      simp only [perform, h, entries_taken hv valid perm]
      exact ⟨valid, .popped here fun id u hu => first u (entries_found hu).1⟩
  | remove id =>
    cases h : q.remove? id with
    | none =>
      simp only [perform, h]
      exact ⟨hv, .nothingToRemove (entries_eq_none_iff.mpr ((remove?_eq_none_iff hv id).mp h))⟩
    | some r =>
      obtain ⟨t, rest⟩ := r
      obtain ⟨valid, perm, rfl⟩ := remove?_spec hv h
      have here : q.entries t.id = some t :=
        (entries_eq_some_iff hv).mpr ⟨perm.mem_iff.mpr List.mem_cons_self, rfl⟩
      simp only [perform, h, entries_taken hv valid perm]
      exact ⟨valid, .removed here⟩
  | update id due =>
    cases h : q.update? id due with
    | none =>
      simp only [perform, h]
      exact ⟨hv,
        .nothingToUpdate (entries_eq_none_iff.mpr ((update?_eq_none_iff hv id due).mp h))⟩
    | some r =>
      obtain ⟨valid, t, rest, rfl, before, after⟩ := update?_spec hv h
      have here : q.entries t.id = some t :=
        (entries_eq_some_iff hv).mpr ⟨before.mem_iff.mpr List.mem_cons_self, rfl⟩
      simp only [perform, h, entries_moved hv valid before after]
      exact ⟨valid, .updated here⟩

theorem Reached.valid {q : DueQueue κ β ω} (h : Reached q) : q.Valid := by
  induction h with
  | empty => exact empty_valid
  | step _ op admitted ih => exact (perform_spec ih op admitted).1

theorem Reached.pushed {q : DueQueue κ β ω} (h : Reached q) {t : Task κ β ω}
    (new : ∀ u ∈ q.tasks, u.id ≠ t.id) : Reached (q.push t) := by
  refine h.step (.push t) ?_
  rintro _ ⟨⟩
  exact entries_eq_none_iff.mpr new

/-- Tasks with ids of their own may be pushed one after the other. -/
theorem Reached.pushedAll {q : DueQueue κ β ω} (h : Reached q) {ts : List (Task κ β ω)}
    (ids : ((ts ++ q.tasks).map Task.id).Nodup) : Reached (ts.foldl push q) := by
  induction ts generalizing q with
  | nil => exact h
  | cons t ts ih =>
    rw [List.cons_append, List.map_cons, List.nodup_cons] at ids
    obtain ⟨new, ids⟩ := ids
    refine ih (h.pushed fun u hu same => new ?_) ?_
    · exact List.mem_map.mpr ⟨u, List.mem_append_right ts hu, same⟩
    · have moved : (ts ++ (q.push t).tasks).Perm (t :: (ts ++ q.tasks)) :=
        ((tasks_push q t).append_left ts).trans List.perm_middle
      rw [(moved.map Task.id).nodup_iff, List.map_cons, List.nodup_cons]
      exact ⟨new, ids⟩

omit [LawfulBEq κ] in
theorem Reached.popped {q rest : DueQueue κ β ω} {t : Task κ β ω} (h : Reached q)
    (pop : q.pop? = some (t, rest)) : Reached rest := by
  have reached := h.step .pop (by rintro t ⟨⟩)
  rwa [perform, pop] at reached

theorem size_eq_ncard {q : DueQueue κ β ω} (hv : q.Valid) :
    q.size = {id | (q.entries id).isSome}.ncard := by
  classical
  have support : {id | (q.entries id).isSome} = ((q.tasks.map Task.id).toFinset : Set κ) := by
    ext id
    simp [entries, List.find?_isSome]
  rw [support, Set.ncard_coe_finset, List.toFinset_card_of_nodup hv.ids_nodup,
    List.length_map, size_eq_length]

/-- The queue refines a finite map: wherever operations have led, index and heap order are
intact, `contains` and `size` are those of the map, and the next operation has its effect on
the map and no other. -/
theorem reached_refines_map {q : DueQueue κ β ω} (h : Reached q) :
    q.Indexed ∧ (q.tasks.map Task.id).Nodup ∧ q.Ordered ∧
      (∀ id, q.contains id = (q.entries id).isSome) ∧
      q.size = {id | (q.entries id).isSome}.ncard ∧
      ∀ op, q.Admits op → Effect q.entries op (q.perform op).1 (q.perform op).2.entries := by
  have hv := h.valid
  refine ⟨hv.indexed, hv.ids_nodup, hv.ordered, ?_, size_eq_ncard hv, ?_⟩
  · intro id
    rw [Bool.eq_iff_iff, contains_iff hv]
    simp [entries, List.find?_isSome]
  · intro op admitted
    exact (perform_spec hv op admitted).2

/-- Two tasks, the second of them due first, and then any operation but a push. -/
theorem reached_refines_map_pair :
    let first : Task Nat Unit Unit := .dueAt 1 (.ofMicros 5) ()
    let second : Task Nat Unit Unit := .dueAt 2 (.ofMicros 3) ()
    let q := ((DueQueue.empty.perform (.push first)).2.perform (.push second)).2
    Reached q ∧ q.Indexed ∧ q.Ordered ∧ q.size = {id | (q.entries id).isSome}.ncard ∧
      Effect q.entries .pop (q.perform .pop).1 (q.perform .pop).2.entries := by
  intro first second q
  have reached : Reached q := by
    refine .step (.step .empty _ ?_) _ ?_
    · rintro t ⟨⟩
      rfl
    · rintro t ⟨⟩
      refine entries_eq_none_iff.mpr fun u hu => ?_
      rw [List.mem_singleton.mp ((tasks_push _ first).mem_iff.mp hu)]
      decide
  obtain ⟨indexed, _, ordered, _, size, effect⟩ := reached_refines_map reached
  exact ⟨reached, indexed, ordered, size, effect .pop fun t h => by cases h⟩

end HomeScenes.DueQueue
