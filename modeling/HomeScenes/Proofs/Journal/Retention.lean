import HomeScenes.Proofs.Journal.Families
import Mathlib.Data.List.DropRight

/-!
# The tasks that a journal remembers

Whatever a journal was told, its order and its records are in step, and there are no more of them
than it has room for. If no task started twice, the journal remembers the tasks that started last,
as many as it has room for, and nothing that it is told later changes which task a record is of, who
its parent is, what it acts upon and when it started. A task that starts again keeps its place among
the others, so that it may be dropped before tasks that started earlier.
-/

namespace HomeScenes.Journal

/-- What the last ones of a longer list have from its front, they have from the last ones of it. -/
theorem mem_rtake_of_append {α : Type} {before after : List α} {n : Nat} {a : α}
    (last : a ∈ (before ++ after).rtake n) (old : a ∉ after) : a ∈ before.rtake n := by
  rw [List.rtake, List.drop_append, List.length_append] at last
  rcases List.mem_append.mp last with early | late
  · exact (List.drop_sublist_drop_left before (by omega)).subset early
  · exact absurd (List.mem_of_mem_drop late) old

variable {κ : Type}

/-- There is room for the records, and no two of them are of the same task. -/
structure Fits (capacity : Nat) (rs : List (TaskRecord κ)) : Prop where
  once : (rs.map (·.task)).Nodup
  room : rs.length ≤ capacity

theorem Fits.map {capacity : Nat} {rs : List (TaskRecord κ)} (h : Fits capacity rs)
    {f : TaskRecord κ → TaskRecord κ} (same : ∀ r, (f r).task = r.task) :
    Fits capacity (rs.map f) where
  once := by
    have tasks : (rs.map f).map (·.task) = rs.map (·.task) := by
      rw [List.map_map]
      exact List.map_congr_left fun r _ => same r
    rw [tasks]
    exact h.once
  room := by
    rw [List.length_map]
    exact h.room

/-- The order lists the tasks on record, each once, and there is room for them. -/
structure InStep (j : Journal κ) : Prop where
  keys : j.records.keys = j.order
  once : j.order.Nodup
  room : j.order.length ≤ j.capacity

theorem Fits.inStep {capacity : Nat} {rs : List (TaskRecord κ)} (h : Fits capacity rs) :
    (listing capacity rs).InStep where
  keys := by simp [Table.keys, listing, Function.comp_def]
  once := h.once
  room := by simpa [listing] using h.room

variable [DecidableEq κ]

/-- A task that starts is on record afterwards, also one that was on record before. -/
theorem Fits.start {capacity : Nat} {rs : List (TaskRecord κ)} (h : Fits capacity rs)
    (pos : 0 < capacity) (task : κ) (parent : Option κ) (target : Target) (now : Instant) :
    ∃ kept, (listing capacity rs).start task parent target now = listing capacity kept ∧
      Fits capacity kept ∧ TaskRecord.started task parent target now ∈ kept := by
  let new := TaskRecord.started task parent target now
  by_cases known : task ∈ rs.map (·.task)
  · refine ⟨_, start_listing_again h.room known parent target now, h.map fun r => ?_, ?_⟩
    · split
      next own => exact own.symm
      next => rfl
    · obtain ⟨r, here, own⟩ := List.mem_map.mp known
      exact List.mem_map.mpr ⟨r, here, if_pos own⟩
  · refine ⟨_, start_listing h.once known parent target now, ⟨?_, ?_⟩, ?_⟩
    · have once : ((rs ++ [new]).map (·.task)).Nodup := by
        rw [List.map_append, List.map_singleton, ← List.concat_eq_append]
        exact List.Nodup.concat known h.once
      rw [List.map_drop]
      exact once.sublist (List.drop_sublist _ _)
    · rw [List.length_drop, List.length_append, List.length_singleton]
      omega
    · have early : rs.length + 1 - capacity ≤ rs.length := by omega
      rw [List.drop_append_of_le_length early]
      exact List.mem_append_right _ (List.mem_singleton_self _)

/-- The records of a journal after any calls. -/
theorem exists_fits [ToString κ] (capacity : Nat) (calls : List (Call κ)) :
    ∃ rs, play (ofCapacity capacity) calls = listing (max capacity 1) rs ∧
      Fits (max capacity 1) rs := by
  induction calls using List.reverseRecOn with
  | nil => exact ⟨[], rfl, List.nodup_nil, Nat.zero_le _⟩
  | append_singleton calls call ih =>
    obtain ⟨rs, same, fits⟩ := ih
    have last : play (ofCapacity capacity) (calls ++ [call]) =
        ((listing (max capacity 1) rs).tell call).2 := by
      rw [play_concat, same]
    cases call with
    | start task parent target now =>
      obtain ⟨kept, started, fits, -⟩ := fits.start (by omega) task parent target now
      exact ⟨kept, last.trans started, fits⟩
    | finish task outcome error now =>
      cases known : (listing (max capacity 1) rs).get? task with
      | none =>
        refine ⟨rs, last.trans ?_, fits⟩
        simp [tell, finish, finish?, known]
      | some own =>
        obtain ⟨sum, ended, -⟩ := finish?_listing known outcome error now
        refine ⟨rs.map fun r => summed own.parent sum (filled task outcome error now r),
          last.trans ?_, fits.map fun r => ?_⟩
        · simp [tell, finish, ended]
        · rw [summed_task, filled_task]

theorem get?_just_started [ToString κ] (capacity : Nat) (calls : List (Call κ)) (task : κ)
    (parent : Option κ) (target : Target) (now : Instant) :
    (play (ofCapacity capacity) (calls ++ [.start task parent target now])).get? task =
      some (.started task parent target now) := by
  obtain ⟨rs, same, fits⟩ := exists_fits capacity calls
  obtain ⟨kept, started, fits, here⟩ := fits.start (by omega) task parent target now
  rw [play_concat, same, tell, started]
  exact get?_listing_of_mem _ fits.once here

/-- The records are those of the tasks that started last. -/
theorem Told.births_rtake {capacity : Nat} {calls : List (Call κ)} {rs : List (TaskRecord κ)}
    (told : Told capacity calls rs) :
    rs.map TaskRecord.birth = (births calls).rtake capacity := by
  have fits := told.fits
  obtain ⟨gone, last, all⟩ := told.last
  have dropped : (births calls).length - capacity = gone.length := by
    rw [last, List.length_append, List.length_map]
    rcases all with rfl | full
    · rw [List.length_nil]
      omega
    · omega
  rw [List.rtake, dropped, last, List.drop_left]

variable {capacity : Nat} {calls more : List (Call κ)}

/-- A task that is on record later on was on record all the time since it started. -/
theorem exists_kept_since [ToString κ] (once : ((births (calls ++ more)).map (·.task)).Nodup) {task : κ}
    {later : TaskRecord κ}
    (found : (play (ofCapacity capacity) (calls ++ more)).get? task = some later)
    (started : task ∈ (births calls).map (·.task)) :
    ∃ r, (play (ofCapacity capacity) calls).get? task = some r ∧ later.birth = r.birth := by
  obtain ⟨ss, after, grown⟩ := exists_told capacity (calls ++ more) once
  rw [after] at found
  obtain ⟨kept, rfl⟩ := mem_of_get?_listing found
  rw [births_append, List.map_append, List.nodup_append] at once
  obtain ⟨rs, same, told⟩ := exists_told capacity calls once.1
  have last : later.birth ∈ (births calls ++ births more).rtake (max capacity 1) := by
    rw [← births_append, ← grown.births_rtake]
    exact List.mem_map_of_mem kept
  have old : later.birth ∉ births more := fun young =>
    once.2.2 later.task started later.birth.task (List.mem_map_of_mem young) rfl
  have here := mem_rtake_of_append last old
  rw [← told.births_rtake] at here
  obtain ⟨r, recorded, birth⟩ := List.mem_map.mp here
  have own : later.task = r.task := by
    rw [← TaskRecord.birth_task later, ← birth, TaskRecord.birth_task]
  refine ⟨r, ?_, birth.symm⟩
  rw [same, own]
  exact get?_listing_of_mem _ (told.once once.1) recorded

/-- Whatever a journal was told: its order lists each task on record once, there is room for them,
and a task that has just started is on record. If no task started twice, all records are those of
the tasks that started last, in that order, as many as there is room for, and the children of a task
are those of them that name it as their parent; a task that is on record later on, and had started
by now, is on record now, with the same parent, target and start. -/
theorem latest_tasks_kept [ToString κ] (capacity : Nat) (calls : List (Call κ)) :
    let j := play (ofCapacity capacity) calls
    j.capacity = max capacity 1 ∧ j.InStep ∧
    (∀ task parent target now,
      (play (ofCapacity capacity) (calls ++ [.start task parent target now])).get? task =
        some (.started task parent target now)) ∧
    (((births calls).map (·.task)).Nodup →
      j.all.map TaskRecord.birth = (births calls).rtake j.capacity ∧
      j.all.length = min j.capacity (births calls).length ∧
      ∀ parent, j.childrenOf parent = j.all.filter (fun r => r.parent = some parent) ∧
        (j.childrenOf parent).map TaskRecord.birth =
          ((births calls).rtake j.capacity).filter fun b => b.parent = some parent) ∧
    ∀ more, ((births (calls ++ more)).map (·.task)).Nodup → ∀ task later,
      (play (ofCapacity capacity) (calls ++ more)).get? task = some later →
        task ∈ (births calls).map (·.task) →
          ∃ r, j.get? task = some r ∧ later.birth = r.birth := by
  intro j
  obtain ⟨rs, same, fits⟩ := exists_fits capacity calls
  have capacity_eq : j.capacity = max capacity 1 := congrArg Journal.capacity same
  refine ⟨capacity_eq, ?_, get?_just_started capacity calls, ?_,
    fun more once task later => exists_kept_since once⟩
  · rw [show j = listing (max capacity 1) rs from same]
    exact fits.inStep
  · intro once
    obtain ⟨rs, same, told⟩ := exists_told capacity calls once
    have latest := told.births_rtake
    rw [capacity_eq, show j = listing (max capacity 1) rs from same,
      all_listing _ (told.once once)]
    refine ⟨latest, ?_, fun parent => ?_⟩
    · have length := congrArg List.length latest
      rw [List.length_map, List.rtake, List.length_drop] at length
      omega
    · rw [childrenOf_listing _ (told.once once), ← latest, List.filter_map]
      exact ⟨rfl, rfl⟩

/-- Two children of a task that was dropped for the second one of them, of which a third task takes
the place of the first. -/
theorem latest_tasks_kept_two :
    let calls : List (Call Nat) := [.start 1 none default default,
      .start 2 (some 1) default default, .finish 2 .success none default,
      .start 3 (some 1) default default]
    let more : List (Call Nat) := [.finish 3 .failed none default, .start 4 none default default]
    ((births (calls ++ more)).map (·.task)).Nodup ∧
      ((play (ofCapacity 2) calls).childrenOf 1).map TaskRecord.birth =
        [.started 2 (some 1) default default, .started 3 (some 1) default default] ∧
      ∃ later, (play (ofCapacity 2) (calls ++ more)).get? 3 = some later ∧
        ∃ r, (play (ofCapacity 2) calls).get? 3 = some r ∧ later.birth = r.birth := by
  intro calls more
  have once : ((births (calls ++ more)).map (·.task)).Nodup := by decide
  obtain ⟨-, -, -, latest, since⟩ := latest_tasks_kept 2 calls
  refine ⟨once, ?_, _, rfl, since more once 3 _ rfl (by decide)⟩
  exact ((latest (by decide)).2.2 1).2

end HomeScenes.Journal
