import HomeScenes.Proofs.DueQueue.Refinement

/-!
# Draining the queue

Sorting the handles of a queue and popping its tasks until it is empty are two ways to list it in
the order of due instants. They begin with the same task and name the same instants all the way.
Which of several tasks that are due together comes first may differ between them, except for the
very first one.
-/

namespace HomeScenes

namespace Handle

variable {κ : Type}

theorem due_trans (a b c : Handle κ) :
    decide (a.due ≤ b.due) → decide (b.due ≤ c.due) → decide (a.due ≤ c.due) := by
  simpa using Std.le_trans

theorem due_total (a b : Handle κ) : (decide (a.due ≤ b.due) || decide (b.due ≤ a.due)) = true := by
  simpa using Std.le_total

/-- A stable sort leaves a handle in front that none is due before. -/
theorem head?_sorted {h : Handle κ} {hs : List (Handle κ)} (first : ∀ u ∈ hs, h.due ≤ u.due) :
    ((h :: hs).mergeSort fun a b => a.due ≤ b.due).head? = some h := by
  obtain ⟨before, after, sorted, others, later⟩ := List.mergeSort_cons due_trans due_total h hs
  rw [sorted]
  cases before with
  | nil => rfl
  | cons u us =>
    have here : u ∈ hs := by
      rw [← List.mem_mergeSort, others]
      exact List.mem_cons_self
    have late := later u List.mem_cons_self
    rw [decide_eq_true (first u here)] at late
    cases late

end Handle

namespace DueQueue

variable {κ β ω : Type} [BEq κ] [Hashable κ] {q rest : DueQueue κ β ω} {t : Task κ β ω}

theorem snapshot_perm (q : DueQueue κ β ω) : q.snapshot.Perm (q.tasks.map (·.handle)) :=
  List.mergeSort_perm _ _

theorem snapshot_sorted (q : DueQueue κ β ω) : q.snapshot.Pairwise fun a b => a.due ≤ b.due :=
  (List.pairwise_mergeSort Handle.due_trans Handle.due_total _).imp of_decide_eq_true

theorem peek?_eq_head? (q : DueQueue κ β ω) : q.peek? = q.tasks.head? := by
  rw [peek?, tasks, ← Array.getElem?_toList, List.head?_eq_getElem?]

theorem snapshot_head? (hv : q.Valid) : q.snapshot.head? = q.peek?.map (·.handle) := by
  have first : ∀ t, q.tasks.head? = some t → ∀ u ∈ q.tasks, t.due ≤ u.due := by
    intro t ht u hu
    obtain ⟨i, hi⟩ := mem_tasks_iff.mp hu
    exact root_first hv.ordered ((peek?_eq_head? q).trans ht) i u hi
  rw [peek?_eq_head?]
  change ((q.tasks.map (·.handle)).mergeSort _).head? = _
  cases queued : q.tasks with
  | nil => simp
  | cons t ts =>
    rw [queued] at first
    refine Handle.head?_sorted fun h hh => ?_
    obtain ⟨u, hu, rfl⟩ := List.mem_map.mp hh
    exact first t rfl u (List.mem_cons_of_mem t hu)

theorem peek?_eq_pop? (q : DueQueue κ β ω) : q.peek? = q.pop?.map Prod.fst := by
  rw [peek?, pop?, removeAt?]
  split
  · rename_i h
    rw [Array.getElem?_eq_getElem h]
    rfl
  · rename_i h
    rw [Array.getElem?_eq_none (Nat.not_lt.mp h)]
    rfl

theorem drain_of_empty (h : q.pop? = none) (n : Nat) : q.drain n = ([], q) := by
  cases n with
  | zero => rfl
  | succ n => rw [drain, h]

theorem drain_of_pop (h : q.pop? = some (t, rest)) (n : Nat) :
    q.drain (n + 1) = (t :: (rest.drain n).1, (rest.drain n).2) := by
  rw [drain, h]

/-- Fewer pops give the first of the tasks that more pops give. -/
theorem drain_fewer (q : DueQueue κ β ω) {n m : Nat} (h : n ≤ m) :
    (q.drain n).1 = (q.drain m).1.take n := by
  induction m generalizing n q with
  | zero =>
    obtain rfl := Nat.le_zero.mp h
    rfl
  | succ m ih =>
    cases pop : q.pop? with
    | none => simp [drain_of_empty pop]
    | some r =>
      obtain ⟨t, rest⟩ := r
      cases n with
      | zero => simp [drain]
      | succ n =>
        rw [drain_of_pop pop, drain_of_pop pop, List.take_succ_cons,
          ih rest (Nat.le_of_succ_le_succ h)]

/-- What a number of pops takes out of a queue and what it leaves. -/
structure Drained (q : DueQueue κ β ω) (n : Nat) (ts : List (Task κ β ω))
    (rest : DueQueue κ β ω) : Prop where
  valid : rest.Valid
  length : ts.length = min n q.size
  perm : (ts ++ rest.tasks).Perm q.tasks
  sorted : ts.Pairwise fun t u => t.due ≤ u.due

variable [LawfulBEq κ]

/-- Every pop takes the earliest task of those that are left. -/
theorem drained (hv : q.Valid) (n : Nat) : q.Drained n (q.drain n).1 (q.drain n).2 := by
  induction n generalizing q with
  | zero => exact ⟨hv, by simp [drain], .refl _, .nil⟩
  | succ n ih =>
    cases pop : q.pop? with
    | none =>
      have empty := pop?_eq_none_iff.mp pop
      rw [drain_of_empty pop]
      exact ⟨hv, by simp [size_eq_length, empty], .refl _, .nil⟩
    | some r =>
      obtain ⟨t, rest⟩ := r
      obtain ⟨valid, perm, first⟩ := pop?_spec hv pop
      have after := ih valid
      have size : q.size = rest.size + 1 := perm.length_eq
      rw [drain_of_pop pop]
      refine ⟨after.valid, ?_, ?_, ?_⟩
      · rw [List.length_cons, after.length, size]
        omega
      · exact (after.perm.cons t).trans perm.symm
      · refine List.pairwise_cons.mpr ⟨fun u hu => first u (perm.mem_iff.mpr ?_), after.sorted⟩
        exact List.mem_cons_of_mem t (after.perm.mem_iff.mp (List.mem_append_left _ hu))

/-- However many pops there are, they give the first tasks of a full drain. -/
theorem drain_eq_take (hv : q.Valid) (n : Nat) :
    (q.drain n).1 = (q.drain q.size).1.take n := by
  rcases Nat.le_total n q.size with fewer | more
  · exact drain_fewer q fewer
  · have length := (drained hv n).length
    have same : (q.drain q.size).1 = (q.drain n).1 := by
      rw [drain_fewer q more, List.take_of_length_le (by omega)]
    rw [same, List.take_of_length_le (by omega)]

/-- A full drain takes all tasks. -/
theorem drain_size (hv : q.Valid) :
    (q.drain q.size).2.tasks = [] ∧ (q.drain q.size).1.Perm q.tasks := by
  have all := drained hv q.size
  have empty : (q.drain q.size).2.tasks = [] := by
    have lengths := all.perm.length_eq
    rw [List.length_append, all.length, Nat.min_self, ← size_eq_length q] at lengths
    exact List.length_eq_zero_iff.mp (by omega)
  refine ⟨empty, ?_⟩
  simpa [empty] using all.perm

/-- Two lists of the same instants that are both in order are the same. -/
theorem drain_dues (hv : q.Valid) : (q.drain q.size).1.map Task.due = q.snapshot.map (·.due) := by
  have sorted : ((q.drain q.size).1.map Task.due).Pairwise (· ≤ ·) :=
    List.pairwise_map.mpr (drained hv q.size).sorted
  have perm : ((q.drain q.size).1.map Task.due).Perm (q.snapshot.map (·.due)) := by
    have handles := ((drain_size hv).2.map (·.handle)).trans (snapshot_perm q).symm
    have dues := handles.map (·.due)
    rwa [List.map_map] at dues
  exact perm.eq_of_pairwise (fun _ _ _ _ => Std.le_antisymm) sorted
    (List.pairwise_map.mpr (snapshot_sorted q))

/-- Both ways to list a queue have the same handles and the same instants in the same order, and
begin with the task that is due next. No more and no fewer tasks can be popped than are queued. -/
theorem snapshot_agrees_with_drain (h : Reached q) :
    q.snapshot.Perm (q.tasks.map (·.handle)) ∧
    q.snapshot.Pairwise (fun a b => a.due ≤ b.due) ∧
    q.snapshot.head? = q.peek?.map (·.handle) ∧
    q.pop?.map Prod.fst = q.peek? ∧
    (∀ n, (q.drain n).1.length = min n q.size) ∧
    (q.drain q.size).2.pop? = none ∧
    (∀ n, (q.drain n).1 = (q.drain q.size).1.take n) ∧
    ((q.drain q.size).1.map (·.handle)).Perm (q.tasks.map (·.handle)) ∧
    (q.drain q.size).1.map Task.due = q.snapshot.map (·.due) := by
  have hv := h.valid
  obtain ⟨empty, perm⟩ := drain_size hv
  exact ⟨snapshot_perm q, snapshot_sorted q, snapshot_head? hv, (peek?_eq_pop? q).symm,
    fun n => (drained hv n).length, pop?_eq_none_iff.mpr empty, drain_eq_take hv, perm.map _,
    drain_dues hv⟩

/-- Three tasks are due together and one before them. -/
theorem snapshot_agrees_with_drain_ties :
    let task (id : Nat) (micros : Int) : Task Nat Unit Unit := .dueAt id (.ofMicros micros) ()
    let q := [task 1 5, task 2 5, task 3 5, task 4 3].foldl push DueQueue.empty
    Reached q ∧ q.snapshot.Perm (q.tasks.map (·.handle)) ∧ (q.drain 9).1.length = 4 ∧
      q.snapshot.head? = some (task 4 3).handle ∧
      (q.drain q.size).1.map Task.due = q.snapshot.map (·.due) := by
  intro task q
  have reached : Reached q := .pushedAll .empty (by decide)
  have size : q.size = 4 := by decide +kernel
  have root : q.peek?.map (·.handle) = some (task 4 3).handle := by decide +kernel
  obtain ⟨perm, -, front, -, length, -, -, -, dues⟩ := snapshot_agrees_with_drain reached
  refine ⟨reached, perm, (length 9).trans ?_, front.trans root, dues⟩
  rw [size]
  rfl

/-- Which of them comes first differs. -/
example :
    let task (id : Nat) (micros : Int) : Task Nat Unit Unit := .dueAt id (.ofMicros micros) ()
    let q := [task 1 5, task 2 5, task 3 5, task 4 3].foldl push DueQueue.empty
    q.snapshot.map Handle.id = [4, 1, 3, 2] ∧ (q.drain 4).1.map Task.id = [4, 2, 3, 1] := by
  decide_cbv

end DueQueue

end HomeScenes
