import HomeScenes.Proofs.Journal
import Mathlib.Data.List.Nodup

/-!
# What a journal is told

A journal is told of tasks that start and end, one after another. A journal that has a list of
records in order, each task once, is told of by what becomes of that list: a task that is new to it
comes last, a task that starts again gets a new record in its place, and the end of a task fills in
its own record and writes a sum on the record of its parent.
-/

namespace HomeScenes

namespace TaskRecord

variable {κ : Type}

def birth (r : TaskRecord κ) : TaskRecord κ :=
  .started r.task r.parent r.target r.createdAt

@[simp] theorem birth_task (r : TaskRecord κ) : r.birth.task = r.task := rfl

end TaskRecord

namespace Journal

variable {κ : Type}

inductive Call (κ : Type) where
  | start (task : κ) (parent : Option κ) (target : Target) (now : Instant)
  | finish (task : κ) (outcome : Outcome) (error : Option String) (now : Instant)

def Call.birth? : Call κ → Option (TaskRecord κ)
  | start task parent target now => some (.started task parent target now)
  | finish .. => none

/-- The tasks that were started, in order. -/
def births (calls : List (Call κ)) : List (TaskRecord κ) :=
  calls.filterMap Call.birth?

@[simp] theorem births_append (calls more : List (Call κ)) :
    births (calls ++ more) = births calls ++ births more :=
  List.filterMap_append

@[simp] theorem births_finish (task : κ) (outcome : Outcome) (error : Option String)
    (now : Instant) : births [Call.finish task outcome error now] = [] := rfl

variable [DecidableEq κ]

/-- Tell the journal; it answers whether it knew the task. -/
def tell [ToString κ] (j : Journal κ) : Call κ → TaskResult × Journal κ
  | .start task parent target now => (.ok (), j.start task parent target now)
  | .finish task outcome error now =>
    match j.finish task outcome error now with
    | .ok k => (.ok (), k)
    | .error failure => (.error failure, j)

def play [ToString κ] (j : Journal κ) (calls : List (Call κ)) : Journal κ :=
  calls.foldl (fun j call => (j.tell call).2) j

theorem play_concat [ToString κ] (j : Journal κ) (calls : List (Call κ)) (call : Call κ) :
    j.play (calls ++ [call]) = ((j.play calls).tell call).2 :=
  List.foldl_append

def listing (capacity : Nat) (rs : List (TaskRecord κ)) : Journal κ :=
  ⟨capacity, rs.map (·.task), ⟨rs.map fun r => (r.task, r)⟩⟩

section Listing

variable {capacity : Nat} {rs : List (TaskRecord κ)} {task : κ}

theorem get?_listing : (listing capacity rs).get? task = rs.find? (·.task = task) := by
  simp [get?, listing, Table.find?, List.find?_map, Function.comp_def]

theorem mem_of_get?_listing {r : TaskRecord κ} (h : (listing capacity rs).get? task = some r) :
    r ∈ rs ∧ r.task = task := by
  rw [get?_listing] at h
  exact ⟨List.mem_of_find?_eq_some h, by simpa using List.find?_some h⟩

theorem get?_listing_of_mem (capacity : Nat) (once : (rs.map (·.task)).Nodup)
    {r : TaskRecord κ} (h : r ∈ rs) :
    (listing capacity rs).get? r.task = some r := by
  have distinct : (listing capacity rs).records.Distinct := by
    simpa [Table.Distinct, Table.keys, listing, Function.comp_def] using once
  exact (Table.find?_eq_some_iff distinct).mpr (List.mem_map_of_mem h)

theorem all_listing (capacity : Nat) (once : (rs.map (·.task)).Nodup) :
    (listing capacity rs).all = rs := by
  rw [Journal.all, listing, List.filterMap_map]
  refine (List.filterMap_congr fun r member => ?_).trans List.filterMap_some
  exact get?_listing_of_mem capacity once member

theorem childrenOf_listing (capacity : Nat) (once : (rs.map (·.task)).Nodup) (parent : κ) :
    (listing capacity rs).childrenOf parent = rs.filter fun r => r.parent = some parent := by
  rw [childrenOf, all_listing capacity once]

theorem evict_listing (capacity : Nat) {rs : List (TaskRecord κ)}
    (once : (rs.map (·.task)).Nodup) :
    evict capacity (rs.map (·.task)) ⟨rs.map fun r => (r.task, r)⟩ =
      ((listing capacity (rs.drop (rs.length - capacity))).order,
        (listing capacity (rs.drop (rs.length - capacity))).records) := by
  induction rs with
  | nil =>
    rw [List.drop_nil]
    rfl
  | cons r rs ih =>
    obtain ⟨fresh, once⟩ := List.nodup_cons.mp once
    rw [List.map_cons, evict, List.length_map]
    by_cases full : capacity < rs.length + 1
    · have rest : Table.erase ⟨(r :: rs).map fun r => (r.task, r)⟩ r.task =
          (⟨rs.map fun r => (r.task, r)⟩ : Table κ (TaskRecord κ)) := by
        simp only [Table.erase, Table.mk.injEq, List.map_cons]
        rw [List.filter_cons_of_neg (by simp), List.filter_eq_self]
        intro e he
        obtain ⟨other, member, rfl⟩ := List.mem_map.mp he
        exact decide_eq_true fun same => fresh (List.mem_map.mpr ⟨other, member, same⟩)
      have one : (r :: rs).length - capacity = rs.length - capacity + 1 := by
        rw [List.length_cons]
        omega
      rw [if_pos full, rest, ih once, one, List.drop_succ_cons]
    · have none : (r :: rs).length - capacity = 0 := by
        rw [List.length_cons]
        omega
      rw [if_neg full, none]
      rfl

/-- A task that is not on record comes last, and the oldest records go if there are too many. -/
theorem start_listing (once : (rs.map (·.task)).Nodup) (fresh : task ∉ rs.map (·.task))
    (parent : Option κ) (target : Target) (now : Instant) :
    (listing capacity rs).start task parent target now =
      listing capacity ((rs ++ [TaskRecord.started task parent target now]).drop
        (rs.length + 1 - capacity)) := by
  have absent : (listing capacity rs).records.contains task = false := by
    rw [Bool.eq_false_iff, ne_eq, Table.contains_iff]
    simpa [Table.keys, listing, Function.comp_def] using fresh
  let new := TaskRecord.started task parent target now
  have order : (listing capacity rs).order ++ [task] = (rs ++ [new]).map (·.task) := by
    rw [List.map_append]
    rfl
  have records : (listing capacity rs).records.set task new =
      ⟨(rs ++ [new]).map fun r => (r.task, r)⟩ := by
    rw [Table.set, absent, List.map_append]
    rfl
  have distinct : ((rs ++ [new]).map (·.task)).Nodup := by
    rw [← order, ← List.concat_eq_append]
    exact List.Nodup.concat fresh once
  have kept := evict_listing capacity distinct
  rw [List.length_append, List.length_singleton] at kept
  simp only [start, absent, Bool.false_eq_true, if_false]
  rw [order, records, show (listing capacity rs).capacity = capacity from rfl, kept]
  rfl

theorem modify_listing {f : TaskRecord κ → TaskRecord κ}
    (same : ∀ r, r.task = task → (f r).task = task) :
    (listing capacity rs).records.modify task f =
      (listing capacity (rs.map fun r => if r.task = task then f r else r)).records := by
  simp only [listing, Table.modify, List.map_map, Table.mk.injEq]
  refine List.map_congr_left fun r _ => ?_
  by_cases here : r.task = task <;> simp [here, same]

/-- A task that is on record keeps its place. -/
theorem start_listing_again (fits : rs.length ≤ capacity) (known : task ∈ rs.map (·.task))
    (parent : Option κ) (target : Target) (now : Instant) :
    (listing capacity rs).start task parent target now = listing capacity (rs.map fun r =>
      if r.task = task then TaskRecord.started task parent target now else r) := by
  let new := TaskRecord.started task parent target now
  have present : (listing capacity rs).records.contains task = true := by
    rw [Table.contains_iff]
    simpa [Table.keys, listing, Function.comp_def] using known
  have records : (listing capacity rs).records.set task new =
      (listing capacity (rs.map fun r => if r.task = task then new else r)).records := by
    rw [Table.set, if_pos present]
    exact modify_listing fun _ _ => rfl
  have order : (rs.map fun r => if r.task = task then new else r).map (·.task) =
      rs.map (·.task) := by
    rw [List.map_map]
    refine List.map_congr_left fun r _ => ?_
    by_cases own : r.task = task <;> simp [own, new, TaskRecord.started]
  have room : (rs.map (·.task)).length ≤ capacity := by
    rw [List.length_map]
    exact fits
  simp only [start, present, if_true]
  rw [records, show (listing capacity rs).order = rs.map (·.task) from rfl,
    show (listing capacity rs).capacity = capacity from rfl, evict_of_le room, listing, order]

/-- The record of a task, filled in if it is the one that ended. -/
def filled (task : κ) (outcome : Outcome) (error : Option String) (now : Instant)
    (r : TaskRecord κ) : TaskRecord κ :=
  if r.task = task then r.finish outcome error now else r

/-- The record of a task, with the sum over its children if it is the parent. -/
def summed (parent : Option κ) (sum : Option Outcome) (r : TaskRecord κ) : TaskRecord κ :=
  if parent = some r.task then { r with childrenOutcome := sum } else r

variable {own : TaskRecord κ} {outcome : Outcome} {error : Option String} {now : Instant}

@[simp] theorem filled_task (r : TaskRecord κ) : (filled task outcome error now r).task = r.task := by
  rw [filled]
  split <;> rfl

@[simp] theorem filled_parent (r : TaskRecord κ) :
    (filled task outcome error now r).parent = r.parent := by
  rw [filled]
  split <;> rfl

@[simp] theorem filled_childrenOutcome (r : TaskRecord κ) :
    (filled task outcome error now r).childrenOutcome = r.childrenOutcome := by
  rw [filled]
  split <;> rfl

theorem filled_outcome (r : TaskRecord κ) :
    (filled task outcome error now r).outcome =
      if r.task = task then some outcome else r.outcome := by
  rw [filled]
  split <;> rfl

variable {parent : Option κ} {sum : Option Outcome}

@[simp] theorem summed_task (r : TaskRecord κ) : (summed parent sum r).task = r.task := by
  rw [summed]
  split <;> rfl

@[simp] theorem summed_outcome (r : TaskRecord κ) : (summed parent sum r).outcome = r.outcome := by
  rw [summed]
  split <;> rfl

theorem summed_childrenOutcome (r : TaskRecord κ) : (summed parent sum r).childrenOutcome =
    if parent = some r.task then sum else r.childrenOutcome := by
  rw [summed]
  split <;> rfl

@[simp] theorem birth_filled (r : TaskRecord κ) :
    (filled task outcome error now r).birth = r.birth := by
  rw [filled]
  split <;> rfl

@[simp] theorem birth_summed (r : TaskRecord κ) : (summed parent sum r).birth = r.birth := by
  rw [summed]
  split <;> rfl

/-- The end of a task fills in its record and writes a sum on the record of its parent. -/
theorem finish?_listing (found : (listing capacity rs).get? task = some own)
    (outcome : Outcome) (error : Option String) (now : Instant) :
    ∃ sum, (listing capacity rs).finish? task outcome error now =
        some (listing capacity (rs.map fun r =>
          summed own.parent sum (filled task outcome error now r))) ∧
      ∀ parent, own.parent = some parent →
        sum = Outcome.summarize (((rs.map (filled task outcome error now)).filter
          fun r => r.parent = some parent).filterMap (·.outcome)) := by
  have first : (listing capacity rs).records.modify task (·.finish outcome error now) =
      (listing capacity (rs.map (filled task outcome error now))).records :=
    modify_listing fun _ own => own
  have order : ∀ f : TaskRecord κ → TaskRecord κ, (∀ r, (f r).task = r.task) →
      (rs.map f).map (·.task) = rs.map (·.task) := by
    intro f same
    rw [List.map_map]
    exact List.map_congr_left fun r _ => same r
  cases line : own.parent with
  | none =>
    refine ⟨none, ?_, ?_⟩
    · simp only [finish?, found, line, first, summed, reduceCtorEq, if_false]
      rw [listing, listing, order _ filled_task]
    · rintro parent ⟨⟩
  | some parent =>
    let sum := Outcome.summarize (((rs.map (filled task outcome error now)).filter
      fun r => r.parent = some parent).filterMap (·.outcome))
    refine ⟨sum, ?_, ?_⟩
    · have values : childOutcomes (listing capacity (rs.map (filled task outcome error now))).records
          parent = ((rs.map (filled task outcome error now)).filter
            fun r => r.parent = some parent).filterMap (·.outcome) := by
        simp [childOutcomes, listing, Table.values, Function.comp_def]
      have both : ((rs.map (filled task outcome error now)).map fun r =>
          if r.task = parent then { r with childrenOutcome := sum } else r) =
          rs.map fun r => summed (some parent) sum (filled task outcome error now r) := by
        rw [List.map_map]
        refine List.map_congr_left fun r _ => ?_
        simp [summed, eq_comm]
      let write (r : TaskRecord κ) : TaskRecord κ := { r with childrenOutcome := sum }
      have second : (listing capacity (rs.map (filled task outcome error now))).records.modify
          parent write = _ := modify_listing fun _ own => own
      rw [both] at second
      simp only [finish?, found, line, first, values]
      rw [second, listing, listing, order]
      exact fun r => (summed_task _).trans (filled_task r)
    · rintro _ ⟨⟩
      rfl

end Listing
end Journal

end HomeScenes
