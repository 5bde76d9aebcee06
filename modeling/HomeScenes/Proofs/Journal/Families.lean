import HomeScenes.Proofs.Journal.Calls
import HomeScenes.Proofs.Outcome
import Mathlib.Data.List.Induction

/-!
# Families on record

A journal is told of tasks that start and end. Whatever it has dropped by then, a task that is on
record has all its children on record too, as long as they started after it. So the sum on its
record is the sum over all of its children that have ended, each with its latest outcome.
-/

namespace HomeScenes.Journal

variable {κ : Type}

def offspring [DecidableEq κ] (calls : List (Call κ)) (parent : κ) : List κ :=
  ((births calls).filter fun r => r.parent = some parent).map (·.task)

def Call.outcome [DecidableEq κ] (task : κ) (known : Option Outcome) : Call κ → Option Outcome
  | start other .. => if other = task then none else known
  | finish other outcome .. => if other = task then some outcome else known

/-- The outcome that the journal was last told of a task since it started. -/
def latest? [DecidableEq κ] (calls : List (Call κ)) (task : κ) : Option Outcome :=
  calls.foldl (Call.outcome task) none

def Late (started : List (TaskRecord κ)) (parent : κ) : Prop :=
  ∀ before c after, started = before ++ c :: after → c.parent = some parent →
    parent ∈ before.map (·.task)

/-- No task starts twice, and none before its parent. -/
structure Orderly (started : List (TaskRecord κ)) : Prop where
  once : (started.map (·.task)).Nodup
  late : ∀ parent, Late started parent

theorem Late.left {before after : List (TaskRecord κ)} {parent : κ}
    (h : Late (before ++ after) parent) : Late before parent := by
  rintro front c back rfl line
  exact h front c (back ++ after) (by simp) line

theorem Late.concat {started : List (TaskRecord κ)} {parent : κ} (h : Late started parent)
    {new : TaskRecord κ} (late : new.parent = some parent → parent ∈ started.map (·.task)) :
    Late (started ++ [new]) parent :=
  forall_before_concat.mpr ⟨h, late⟩

theorem Orderly.concat {started : List (TaskRecord κ)} (h : Orderly started)
    (new : TaskRecord κ) (fresh : new.task ∉ started.map (·.task))
    (late : ∀ parent, new.parent = some parent → parent ∈ started.map (·.task)) :
    Orderly (started ++ [new]) where
  once := by
    rw [List.map_append, List.map_singleton, ← List.concat_eq_append]
    exact List.Nodup.concat fresh h.once
  late parent := (h.late parent).concat (late parent)

/-- Of the tasks that were started, the last ones include the children of all that they
include. -/
theorem Late.mem_right {gone kept : List (TaskRecord κ)} {p c : TaskRecord κ}
    (late : Late (gone ++ kept) p.task) (once : ((gone ++ kept).map (·.task)).Nodup)
    (parent : p ∈ kept) (child : c ∈ gone ++ kept) (line : c.parent = some p.task) : c ∈ kept := by
  rcases List.mem_append.mp child with early | here
  · obtain ⟨before, after, rfl⟩ := List.append_of_mem early
    have old : p.task ∈ before.map (·.task) :=
      late before c (after ++ kept) (by simp) line
    rw [List.map_append, List.nodup_append] at once
    refine absurd rfl (once.2.2 p.task ?_ p.task (List.mem_map_of_mem parent))
    rw [List.map_append]
    exact List.mem_append_left _ old
  · exact here

section Calls

variable (calls : List (Call κ)) (task other : κ) (parent : Option κ) (target : Target)
  (outcome : Outcome) (error : Option String) (now : Instant) [DecidableEq κ]

theorem latest?_start : latest? (calls ++ [.start other parent target now]) task =
    if other = task then none else latest? calls task := by
  simp [latest?, List.foldl_append, Call.outcome]

theorem latest?_finish : latest? (calls ++ [.finish other outcome error now]) task =
    if other = task then some outcome else latest? calls task := by
  simp [latest?, List.foldl_append, Call.outcome]

theorem offspring_finish : offspring (calls ++ [.finish task outcome error now]) other =
    offspring calls other := by
  simp [offspring]

theorem mem_offspring {calls : List (Call κ)} {task parent : κ} :
    task ∈ offspring calls parent ↔ ∃ r ∈ births calls, r.parent = some parent ∧ r.task = task := by
  simp [offspring, and_assoc]

end Calls

variable [DecidableEq κ]

/-- A task that starts has no outcome yet. -/
theorem outcomes_start {calls : List (Call κ)} {task : κ} {parent : Option κ} {target : Target}
    {now : Instant} (fresh : ∀ b ∈ births calls, b.task ≠ task) (other : κ) :
    (offspring (calls ++ [.start task parent target now]) other).filterMap
        (latest? (calls ++ [.start task parent target now])) =
      (offspring calls other).filterMap (latest? calls) := by
  let new := TaskRecord.started task parent target now
  have more : offspring (calls ++ [.start task parent target now]) other =
      offspring calls other ++ ([new].filter fun c => c.parent = some other).map (·.task) := by
    rw [offspring, births_append, List.filter_append, List.map_append, offspring]
    rfl
  have silent : (([new].filter fun c => c.parent = some other).map (·.task)).filterMap
      (latest? (calls ++ [.start task parent target now])) = [] := by
    rw [List.filterMap_eq_nil_iff]
    intro c child
    obtain ⟨b, born, rfl⟩ := List.mem_map.mp child
    obtain rfl := List.mem_singleton.mp (List.mem_filter.mp born).1
    rw [latest?_start]
    exact if_pos rfl
  rw [more, List.filterMap_append, silent, List.append_nil]
  refine List.filterMap_congr fun c child => ?_
  obtain ⟨b, born, -, rfl⟩ := mem_offspring.mp child
  rw [latest?_start, if_neg (fresh b born).symm]

/-- A task that starts has no children yet. -/
theorem offspring_fresh {calls : List (Call κ)} {task : κ} {parent : Option κ} {target : Target}
    {now : Instant} (fresh : ∀ b ∈ births calls, b.task ≠ task)
    (late : Late (births (calls ++ [.start task parent target now])) task) :
    offspring (calls ++ [.start task parent target now]) task = [] := by
  have all : births (calls ++ [.start task parent target now]) =
      births calls ++ [.started task parent target now] := births_append calls _
  rw [offspring, List.map_eq_nil_iff, List.filter_eq_nil_iff]
  intro c child line
  obtain ⟨before, after, split⟩ := List.append_of_mem child
  have early := late before c after split (of_decide_eq_true line)
  have older : before.map (·.task) <+: (births calls).map (·.task) := by
    refine List.IsPrefix.map _ ?_
    have shorter : before <+: before ++ (c :: after).dropLast := List.prefix_append _ _
    rw [← List.dropLast_append_of_ne_nil (List.cons_ne_nil _ _), ← split, all,
      List.dropLast_concat] at shorter
    exact shorter
  obtain ⟨b, born, same⟩ := List.mem_map.mp (older.subset early)
  exact fresh b born same

/-- The records of a journal that was told this: those of the tasks that started last, each with
what was told of it. -/
structure Told (capacity : Nat) (calls : List (Call κ)) (rs : List (TaskRecord κ)) : Prop where
  last : ∃ gone, births calls = gone ++ rs.map TaskRecord.birth ∧
    (gone = [] ∨ rs.length = capacity)
  fits : rs.length ≤ capacity
  outcomes : ∀ r ∈ rs, r.outcome = latest? calls r.task
  sums : ∀ r ∈ rs, Late (births calls) r.task → r.childrenOutcome =
    Outcome.summarize ((offspring calls r.task).filterMap (latest? calls))

namespace Told

variable {capacity : Nat} {calls : List (Call κ)} {rs : List (TaskRecord κ)}
  {own p : TaskRecord κ} {task : κ} {parent : Option κ} {target : Target} {outcome : Outcome}
  {error : Option String} {now : Instant}

theorem mem_births (told : Told capacity calls rs) {r : TaskRecord κ} (h : r ∈ rs) :
    r.birth ∈ births calls := by
  obtain ⟨gone, last, -⟩ := told.last
  rw [last]
  exact List.mem_append_right _ (List.mem_map_of_mem h)

theorem once (told : Told capacity calls rs) (once : ((births calls).map (·.task)).Nodup) :
    (rs.map (·.task)).Nodup := by
  obtain ⟨gone, last, -⟩ := told.last
  rw [last, List.map_append, List.nodup_append] at once
  simpa [Function.comp_def] using once.2.1

/-- What was started last is on record, as far as there is room. -/
theorem mem_of_room (told : Told capacity calls rs) {old new : List (TaskRecord κ)}
    (split : births calls = old ++ new) (room : new.length ≤ capacity) {b : TaskRecord κ}
    (h : b ∈ new) : ∃ r ∈ rs, r.birth = b := by
  obtain ⟨gone, last, all | full⟩ := told.last
  · rw [all, List.nil_append, split] at last
    exact List.mem_map.mp (last ▸ List.mem_append_right _ h)
  · have kept : rs.map TaskRecord.birth <:+ births calls := ⟨gone, last.symm⟩
    have started : new <:+ births calls := ⟨old, split.symm⟩
    have fits : new.length ≤ (rs.map TaskRecord.birth).length := by
      rw [List.length_map, full]
      exact room
    exact List.mem_map.mp ((List.suffix_of_suffix_length_le started kept fits).subset h)

/-- The children of a task on record are on record. -/
theorem offspring_eq (told : Told capacity calls rs)
    (once : ((births calls).map (·.task)).Nodup) (kept : p ∈ rs)
    (late : Late (births calls) p.task) :
    offspring calls p.task = (rs.filter fun r => r.parent = some p.task).map (·.task) := by
  obtain ⟨gone, last, -⟩ := told.last
  have none : gone.filter (fun r => r.parent = some p.task) = [] := by
    rw [List.filter_eq_nil_iff]
    intro c early line
    rw [last] at late once
    have here : c ∈ rs.map TaskRecord.birth :=
      late.mem_right (p := p.birth) once (List.mem_map_of_mem kept) (List.mem_append_left _ early)
        (of_decide_eq_true line)
    rw [List.map_append, List.nodup_append] at once
    exact once.2.2 c.task (List.mem_map_of_mem early) c.task (List.mem_map_of_mem here) rfl
  rw [offspring, last, List.filter_append, none, List.nil_append, List.filter_map, List.map_map]
  rfl

/-- The sum on a record is that over the children on record. -/
theorem sum_eq (told : Told capacity calls rs) (once : ((births calls).map (·.task)).Nodup)
    (kept : p ∈ rs) (late : Late (births calls) p.task) :
    p.childrenOutcome =
      Outcome.summarize ((rs.filter fun r => r.parent = some p.task).filterMap (·.outcome)) := by
  rw [told.sums p kept late, told.offspring_eq once kept late, List.filterMap_map]
  refine congrArg _ (List.filterMap_congr fun r member => ?_)
  exact (told.outcomes r (List.mem_of_mem_filter member)).symm

theorem start (told : Told capacity calls rs)
    (once : ((births (calls ++ [.start task parent target now])).map (·.task)).Nodup) :
    Told capacity (calls ++ [.start task parent target now])
      ((rs ++ [TaskRecord.started task parent target now]).drop (rs.length + 1 - capacity)) := by
  let new := TaskRecord.started task parent target now
  have all : births (calls ++ [.start task parent target now]) = births calls ++ [new] :=
    births_append calls _
  rw [all, List.map_append, List.nodup_append] at once
  have fresh : ∀ r ∈ births calls, r.task ≠ task := fun r h =>
    once.2.2 r.task (List.mem_map_of_mem h) task (List.mem_singleton_self _)
  have fits := told.fits
  constructor
  · obtain ⟨gone, last, full⟩ := told.last
    refine ⟨gone ++ ((rs ++ [new]).map TaskRecord.birth).take (rs.length + 1 - capacity), ?_, ?_⟩
    · rw [all, last, List.map_drop, List.append_assoc, List.append_assoc, List.take_append_drop,
        List.map_append]
      rfl
    · rw [List.length_drop, List.length_append, List.length_singleton]
      by_cases room : rs.length < capacity
      · have none : rs.length + 1 - capacity = 0 := by omega
        rcases full with rfl | full
        · exact .inl (by rw [none]; rfl)
        · omega
      · exact .inr (by omega)
  · rw [List.length_drop, List.length_append, List.length_singleton]
    omega
  · intro r kept
    rw [latest?_start]
    rcases List.mem_append.mp (List.mem_of_mem_drop kept) with old | young
    · rw [if_neg (show task ≠ r.task from (fresh _ (told.mem_births old)).symm)]
      exact told.outcomes r old
    · obtain rfl := List.mem_singleton.mp young
      exact (if_pos rfl).symm
  · intro r kept late
    rcases List.mem_append.mp (List.mem_of_mem_drop kept) with old | young
    · rw [outcomes_start fresh]
      rw [all] at late
      exact told.sums r old late.left
    · obtain rfl := List.mem_singleton.mp young
      have childless : offspring (calls ++ [.start task parent target now]) new.task = [] :=
        offspring_fresh fresh late
      rw [childless]
      rfl

theorem finish_unknown (told : Told capacity calls rs)
    (once : ((births calls).map (·.task)).Nodup)
    (unknown : (listing capacity rs).get? task = none) :
    Told capacity (calls ++ [.finish task outcome error now]) rs := by
  have absent : ∀ r ∈ rs, r.task ≠ task := by
    rintro r kept rfl
    rw [get?_listing_of_mem capacity (told.once once) kept] at unknown
    cases unknown
  have all : births (calls ++ [.finish task outcome error now]) = births calls := by simp
  refine ⟨all ▸ told.last, told.fits, ?_, ?_⟩
  · intro r kept
    rw [latest?_finish, if_neg (absent r kept).symm]
    exact told.outcomes r kept
  · intro r kept late
    rw [all] at late
    have children := told.offspring_eq once kept late
    rw [told.sums r kept late, offspring_finish]
    refine congrArg _ (List.filterMap_congr fun c child => ?_)
    rw [children] at child
    obtain ⟨b, born, rfl⟩ := List.mem_map.mp child
    rw [latest?_finish, if_neg (absent b (List.mem_filter.mp born).1).symm]

theorem finish_known (told : Told capacity calls rs)
    (once : ((births calls).map (·.task)).Nodup)
    (known : (listing capacity rs).get? task = some own) {sum : Option Outcome}
    (sums : ∀ parent, own.parent = some parent →
      sum = Outcome.summarize (((rs.map (filled task outcome error now)).filter
        fun r => r.parent = some parent).filterMap (·.outcome))) :
    Told capacity (calls ++ [.finish task outcome error now])
      (rs.map fun r => summed own.parent sum (filled task outcome error now r)) := by
  obtain ⟨kept, rfl⟩ := mem_of_get?_listing known
  have all : births (calls ++ [.finish own.task outcome error now]) = births calls := by simp
  have outcomes : ∀ r ∈ rs, (filled own.task outcome error now r).outcome =
      latest? (calls ++ [.finish own.task outcome error now]) r.task := by
    intro r kept
    rw [filled_outcome, latest?_finish, told.outcomes r kept]
    simp only [eq_comm]
  constructor
  · rw [all, List.map_map, List.length_map]
    simpa [Function.comp_def] using told.last
  · rw [List.length_map]
    exact told.fits
  · intro r member
    obtain ⟨old, here, rfl⟩ := List.mem_map.mp member
    simpa using outcomes old here
  · intro r member late
    obtain ⟨old, here, rfl⟩ := List.mem_map.mp member
    rw [all, summed_task, filled_task] at late
    have children := told.offspring_eq once here late
    rw [summed_childrenOutcome, summed_task, filled_task, filled_childrenOutcome]
    rw [offspring_finish]
    split
    · rename_i line
      rw [sums _ line, children, List.filterMap_map, List.filter_map, List.filterMap_map]
      have siblings : rs.filter ((fun r => decide (r.parent = some old.task)) ∘
          filled own.task outcome error now) = rs.filter fun r => r.parent = some old.task := by
        simp [Function.comp_def]
      rw [siblings]
      exact congrArg _ (List.filterMap_congr fun r child =>
        outcomes r (List.mem_filter.mp child).1)
    · rename_i line
      rw [told.sums old here late]
      refine congrArg _ (List.filterMap_congr fun c child => ?_)
      rw [children] at child
      obtain ⟨b, born, rfl⟩ := List.mem_map.mp child
      obtain ⟨there, line'⟩ := List.mem_filter.mp born
      rw [latest?_finish, if_neg]
      intro same
      have equal : own = b := by
        have own' := get?_listing_of_mem capacity (told.once once) there
        rw [← same, known] at own'
        exact Option.some.inj own'
      rw [← equal] at line'
      exact line (of_decide_eq_true line')

end Told

/-- The records of a journal after any calls in which no task starts twice. -/
theorem exists_told [ToString κ] (capacity : Nat) (calls : List (Call κ))
    (once : ((births calls).map (·.task)).Nodup) :
    ∃ rs, play (ofCapacity capacity) calls = listing (max capacity 1) rs ∧
      Told (max capacity 1) calls rs := by
  -- on the calls from the last one back, because `Told` speaks of all that came before
  induction calls using List.reverseRecOn with
  | nil =>
    refine ⟨[], rfl, ⟨⟨[], rfl, .inl rfl⟩, Nat.zero_le _, ?_, ?_⟩⟩
    · rintro r ⟨⟩
    · rintro r ⟨⟩
  | append_singleton calls call ih =>
    have before : ((births calls).map (·.task)).Nodup := by
      rw [births_append, List.map_append, List.nodup_append] at once
      exact once.1
    obtain ⟨rs, same, told⟩ := ih before
    have last : play (ofCapacity capacity) (calls ++ [call]) =
        ((listing (max capacity 1) rs).tell call).2 := by
      rw [play_concat, same]
    cases call with
    | start task parent target now =>
      refine ⟨_, last.trans (start_listing (told.once before) ?_ parent target now),
        told.start once⟩
      intro old
      obtain ⟨r, kept, rfl⟩ := List.mem_map.mp old
      rw [births_append, List.map_append, List.nodup_append] at once
      exact once.2.2 r.task (List.mem_map.mpr ⟨_, told.mem_births kept, rfl⟩) r.task
        (List.mem_singleton_self _) rfl
    | finish task outcome error now =>
      cases known : (listing (max capacity 1) rs).get? task with
      | none =>
        refine ⟨rs, last.trans ?_, told.finish_unknown before known⟩
        simp [tell, finish, finish?, known]
      | some own =>
        obtain ⟨sum, ended, sums⟩ := finish?_listing known outcome error now
        refine ⟨_, last.trans ?_, told.finish_known before known sums⟩
        simp [tell, finish, ended]

/-- Whatever a journal was told, if no task started twice or before its parent: a task on record has
all its children on record, and the sum on its record is the sum over the latest outcomes of those
that have ended, in any order. The end of a task fills in its own record and touches nothing else
but the sum on the record of its parent, and the end of a task that is not on record is a storage
failure and changes nothing. -/
theorem sum_over_children_exact [ToString κ] (capacity : Nat) {calls : List (Call κ)}
    (orderly : Orderly (births calls)) :
    let j := play (ofCapacity capacity) calls
    (∀ p r, j.get? p = some r →
      (∀ c ∈ offspring calls p, ∃ child, j.get? c = some child ∧ child.parent = some p ∧
        child.outcome = latest? calls c) ∧
      ∀ outcomes : List Outcome, outcomes.Perm ((offspring calls p).filterMap (latest? calls)) →
        r.childrenOutcome = Outcome.summarize outcomes) ∧
    ∀ task outcome error now,
      (∀ own, j.get? task = some own → ∃ k sum,
        j.tell (.finish task outcome error now) = (.ok (), k) ∧
        k.capacity = j.capacity ∧ k.order = j.order ∧
        ∀ other, k.get? other = (j.get? other).map fun r =>
          summed own.parent sum (filled task outcome error now r)) ∧
      (j.get? task = none → ∃ message,
        j.tell (.finish task outcome error now) = (.error (.storage message), j)) := by
  obtain ⟨rs, same, told⟩ := exists_told capacity calls orderly.once
  have once := told.once orderly.once
  rw [same]
  refine ⟨?_, ?_⟩
  · intro p r found
    obtain ⟨kept, rfl⟩ := mem_of_get?_listing found
    refine ⟨?_, ?_⟩
    · intro c child
      rw [told.offspring_eq orderly.once kept (orderly.late _)] at child
      obtain ⟨b, born, rfl⟩ := List.mem_map.mp child
      obtain ⟨here, line⟩ := List.mem_filter.mp born
      exact ⟨b, get?_listing_of_mem _ once here, of_decide_eq_true line, told.outcomes b here⟩
    · intro outcomes any
      rw [told.sums r kept (orderly.late _), Outcome.summarize_perm any]
  · intro task outcome error now
    refine ⟨?_, ?_⟩
    · intro own known
      obtain ⟨sum, ended, -⟩ := finish?_listing known outcome error now
      refine ⟨listing (max capacity 1) (rs.map fun r =>
        summed own.parent sum (filled task outcome error now r)), sum, ?_, rfl, ?_, ?_⟩
      · simp only [tell, finish, ended]
      · simp [listing, Function.comp_def]
      · intro other
        rw [get?_listing, get?_listing, List.find?_map]
        simp only [Function.comp_def, summed_task, filled_task]
    · intro unknown
      refine ⟨"no execution record for task " ++ toString task, ?_⟩
      simp only [tell, finish, finish?, unknown, unknownTask]

/-- Two children of a task, one of which fails, after an older task that the journal had no room
for. -/
theorem sum_over_two_children :
    let calls : List (Call Nat) := [.start 1 none default default, .start 2 none default default,
      .start 3 (some 2) default default, .start 4 (some 2) default default,
      .finish 3 .success none default, .finish 4 .deviceOffline none default]
    Orderly (births calls) ∧ ((play (ofCapacity 3) calls).get? 1).isNone ∧
      ∃ r, (play (ofCapacity 3) calls).get? 2 = some r ∧
        r.childrenOutcome = Outcome.summarize [.deviceOffline, .success] := by
  intro calls
  have none : Orderly (κ := Nat) [] := ⟨List.nodup_nil, by rintro p (_ | _) c after ⟨⟩⟩
  have orderly : Orderly (births calls) :=
    (((none.concat (.started 1 .none default default) (by decide) (by decide)).concat
      (.started 2 .none default default) (by decide) (by decide)).concat
        (.started 3 (some 2) default default) (by decide) (by decide)).concat
          (.started 4 (some 2) default default) (by decide) (by decide)
  refine ⟨orderly, by decide, _, rfl, ?_⟩
  exact ((sum_over_children_exact 3 orderly).1 2 _ rfl).2 _ (List.Perm.swap _ _ _)

end HomeScenes.Journal
