import HomeScenes.Proofs.Engine.Interleaving
import HomeScenes.Proofs.Journal.Families

/-!
# What the journal takes down

The journal of an engine is what a journal makes of some of the things it was told: of all of them
since it was last in order.
-/

namespace HomeScenes

def JournalEntry.start? : JournalEntry → Option Ticket
  | started task .. => some task
  | ended .. => none

namespace Journal

/-- What was told of a task in a call, whether or not the journal took it down. -/
def Call.entry : Call Ticket → JournalEntry
  | start task parent target _ => .started task parent target
  | finish task outcome error _ => .ended task outcome error

variable {calls : List (Call Ticket)} {id : Ticket}

theorem births_tasks (calls : List (Call Ticket)) :
    (births calls).map (·.task) = (calls.map Call.entry).filterMap JournalEntry.start? := by
  rw [births, List.map_filterMap, List.filterMap_map]
  refine List.filterMap_congr fun call _ => ?_
  cases call <;> rfl

theorem mem_births_of_entry {parent : Option Ticket} {target : Target}
    (h : .started id parent target ∈ calls.map Call.entry) :
    ∃ b ∈ births calls, b.task = id ∧ b.parent = parent ∧ b.target = target := by
  obtain ⟨call, member, same⟩ := List.mem_map.mp h
  cases call with
  | start task parent target now =>
    cases same
    exact ⟨_, List.mem_filterMap.mpr ⟨_, member, rfl⟩, rfl, rfl, rfl⟩
  | finish task outcome error now => cases same

theorem entry_of_mem_births {b : TaskRecord Ticket} (h : b ∈ births calls) :
    .started b.task b.parent b.target ∈ calls.map Call.entry := by
  obtain ⟨call, member, born⟩ := List.mem_filterMap.mp h
  cases call with
  | start task parent target now =>
    cases born
    exact List.mem_map_of_mem member
  | finish task outcome error now => cases born

/-- A task that was started was started by a call, after those that were started before. -/
theorem call_of_births {front back : List (TaskRecord Ticket)} {b : TaskRecord Ticket}
    (h : births calls = front ++ b :: back) : ∃ left call right, calls = left ++ call :: right ∧
      births left = front ∧ call.birth? = some b := by
  obtain ⟨left, rest, rfl, rfl, after⟩ := List.filterMap_eq_append_iff.mp h
  obtain ⟨silent, call, right, rfl, none, born, -⟩ := List.filterMap_eq_cons_iff.mp after
  refine ⟨left ++ silent, call, right, (List.append_assoc _ _ _).symm, ?_, born⟩
  rw [births_append]
  exact (congrArg _ (List.filterMap_eq_nil_iff.mpr none)).trans (List.append_nil _)

/-- What was told of a task alone decides on its latest outcome. -/
theorem latest?_of_told {parent : Option Ticket} {target : Target} {outcome : Outcome}
    {error : Option String} (told : (calls.map Call.entry).filter (fun entry => entry.task = id) =
      [.started id parent target, .ended id outcome error]) : latest? calls id = some outcome := by
  have own : calls.foldl (Call.outcome id) none =
      (calls.filter fun call => call.entry.task = id).foldl (Call.outcome id) none := by
    rw [List.foldl_filter]
    refine List.foldl_ext _ _ _ fun known call _ => ?_
    by_cases here : call.entry.task = id
    · rw [if_pos (decide_eq_true here)]
    · rw [if_neg (by simpa using here)]
      cases call <;> exact if_neg here
  rw [List.filter_map] at told
  obtain ⟨first, rest, few, -, told⟩ := List.map_eq_cons_iff.mp told
  obtain ⟨last, none, rfl, same, told⟩ := List.map_eq_cons_iff.mp told
  obtain rfl := List.map_eq_nil_iff.mp told
  have few : (calls.filter fun call => call.entry.task = id) = [first, last] := few
  rw [latest?, own, few]
  cases last with
  | start task parent target now => cases same
  | finish task outcome error now =>
    cases same
    exact if_pos rfl

end Journal

namespace Engine

variable (e : Engine) (h : Handle Ticket)

theorem journal_recordStart (target : Target) : (e.recordStart h target).journal =
    match e.outages.journal with
    | some _ => e.journal
    | none => (e.journal.tell (.start h.id h.parent target e.now)).2 :=
  congrArg Engine.journal (recordStart_eq e h target)

theorem journal_recordResult (result : TaskResult) : (e.recordResult h result).journal =
    match e.outages.journal with
    | some _ => e.journal
    | none => (e.journal.tell (.finish h.id (.ofResult result) (failureText result) e.now)).2 := by
  have answer : (e.journal.tell (.finish h.id (.ofResult result) (failureText result) e.now)).2 =
      (e.journal.finish? h.id (.ofResult result) (failureText result) e.now).getD e.journal := by
    rw [Journal.tell, Journal.finish]
    cases e.journal.finish? h.id (.ofResult result) (failureText result) e.now <;> rfl
  rw [answer]
  exact congrArg Engine.journal (recordResult_eq e h result)

/-- A journal that is out of order stays as it was. -/
theorem missed_or_taken {outage : Option Failure} {after before taken : Journal Ticket}
    (same : after = match outage with
      | some _ => before
      | none => taken) : (after = before ∨ after = taken) ∧ (outage = none → after = taken) := by
  cases outage with
  | none => exact ⟨.inr same, fun _ => same⟩
  | some failure =>
    refine ⟨.inl same, ?_⟩
    rintro ⟨⟩

end Engine

namespace Juncture

open Engine

variable {j k : Juncture} {may : Event → Prop}

/-- Of one passage the journal is told one thing at most. It takes it down if it is in order. -/
theorem Passes.log (passes : Passes may j k) :
    (k.engine.journal = j.engine.journal ∧ k.engine.entries = j.engine.entries) ∨
    ∃ call : Journal.Call Ticket, k.engine.entries = j.engine.entries ++ [call.entry] ∧
      (k.engine.journal = j.engine.journal ∨ k.engine.journal = (j.engine.journal.tell call).2) ∧
      (j.engine.outages.journal = none → k.engine.journal = (j.engine.journal.tell call).2) := by
  cases passes with
  | @event event outer ok =>
    obtain ⟨outage, same⟩ := Moment.happen_withLog j.engine j.engine.log j.handed outer
    rw [withLog_log] at same
    refine .inl ?_
    rw [same]
    exact ⟨rfl, rfl⟩
  | look valid same => exact .inl ⟨rfl, rfl⟩
  | handOut valid taken => exact .inl ⟨rfl, rfl⟩
  | @start place t target found wrapped =>
    refine .inr ⟨.start t.id t.handle.parent target j.engine.now, ?_,
      missed_or_taken (journal_recordStart j.engine t.handle target)⟩
    rw [recordStart_eq]
    rfl
  | pause waits advanced steps goesOn =>
    refine .inl ?_
    rw [steps.frame]
    exact ⟨rfl, rfl⟩
  | @finish t w result e ws waits advanced steps =>
    have journal : e.journal = j.engine.journal := by rw [steps.frame]
    have outages : e.outages = j.engine.outages := by rw [steps.frame]
    have entries : e.entries = j.engine.entries := by rw [steps.frame]
    have taken := missed_or_taken (journal_recordResult e t.handle result)
    rw [journal, outages] at taken
    refine .inr ⟨.finish t.id (.ofResult result) (failureText result) e.now, ?_, taken⟩
    rw [recordResult_eq, entries]
    rfl

/-- The journal is what became of some of the things it was told. -/
def Recorded (capacity : Nat) (j : Juncture) : Prop :=
  ∃ calls, j.engine.journal = (Journal.ofCapacity capacity).play calls ∧
    (calls.map Journal.Call.entry).Sublist j.engine.entries

theorem Recorded.passes {capacity : Nat} (h : j.Recorded capacity) (passes : Passes may j k) :
    k.Recorded capacity := by
  obtain ⟨calls, journal, listed⟩ := h
  rcases passes.log with ⟨same, entries⟩ | ⟨call, entries, same | taken, -⟩
  · exact ⟨calls, same.trans journal, entries ▸ listed⟩
  · exact ⟨calls, same.trans journal, entries ▸ listed.trans (List.sublist_append_left _ _)⟩
  · refine ⟨calls ++ [call], ?_, ?_⟩
    · rw [taken, Journal.play_concat, journal]
    · rw [entries, List.map_append]
      exact listed.append_right _

/-- From an engine on, the journal took down everything that it was told. -/
def TakenDown (before : Journal Ticket) (first : Engine) (j : Juncture) : Prop :=
  ∃ calls, j.engine.journal = before.play calls ∧
    j.engine.entries = first.entries ++ calls.map Journal.Call.entry

theorem TakenDown.passes {before : Journal Ticket} {first : Engine}
    (h : TakenDown before first j) (working : j.engine.outages.journal = none)
    (passes : Passes may j k) : TakenDown before first k := by
  obtain ⟨calls, journal, entries⟩ := h
  rcases passes.log with ⟨same, unchanged⟩ | ⟨call, told, -, taken⟩
  · exact ⟨calls, same.trans journal, unchanged.trans entries⟩
  · refine ⟨calls ++ [call], ?_, ?_⟩
    · rw [taken working, Journal.play_concat, journal]
    · rw [told, entries, List.map_append, List.append_assoc]
      rfl

theorem startOrder_eq (e : Engine) : e.startOrder = e.entries.filterMap JournalEntry.start? :=
  List.filterMap_congr fun entry _ => by cases entry <;> rfl

/-- No task starts twice. -/
theorem Sound.startOrder_nodup (h : j.Sound) : j.engine.startOrder.Nodup := by
  rw [startOrder_eq, List.nodup_iff_count_le_one]
  intro id
  have few : (j.engine.entries.filterMap JournalEntry.start?).count id =
      ((j.engine.told id).filterMap JournalEntry.start?).length := by
    rw [told, List.filterMap_filter, List.count_eq_length_filter, List.filter_filterMap]
    refine congrArg List.length (List.filterMap_congr fun entry _ => ?_)
    cases entry with
    | started task parent target =>
      by_cases same : task = id <;> simp [JournalEntry.start?, JournalEntry.task, same]
    | ended task outcome error => simp [JournalEntry.start?]
  rw [few]
  by_cases known : id ∈ j.begun.map Task.id
  · obtain ⟨u, begun, rfl⟩ := List.mem_map.mp known
    obtain ⟨target, ends, -, told⟩ := h.told_cons begun
    rw [told, List.filterMap_cons, List.filterMap_map]
    have none : ends.filterMap (JournalEntry.start? ∘
        fun p : Outcome × Option String => .ended u.id p.1 p.2) = [] :=
      List.filterMap_eq_nil_iff.mpr fun p _ => rfl
    rw [none]
    exact Nat.le_refl 1
  · rw [h.told_nil known]
    exact Nat.zero_le 1

end Juncture

end HomeScenes
