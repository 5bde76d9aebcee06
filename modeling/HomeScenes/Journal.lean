import HomeScenes.Table
import HomeScenes.TaskRecord

/-!
# The journal

One record for each task, in the order in which tasks were started, at most as many as
the capacity: starting a task beyond it drops the oldest record. When a task ends, its
parent's record gets the sum of the outcomes of all children that have ended and are
still on record.
-/

namespace HomeScenes

structure Journal (κ : Type) where
  capacity : Nat
  /-- Tasks in start order. -/
  order : List κ
  records : Table κ (TaskRecord κ)

namespace Journal

variable {κ : Type}

def defaultCapacity : Nat := 10000

/-- An empty journal; it keeps at least one record. -/
def ofCapacity (capacity : Nat) : Journal κ :=
  ⟨max capacity 1, [], .empty⟩

instance : Inhabited (Journal κ) := ⟨ofCapacity defaultCapacity⟩

variable [DecidableEq κ]

def get? (j : Journal κ) (task : κ) : Option (TaskRecord κ) :=
  j.records.find? task

/-- All records in start order. -/
def all (j : Journal κ) : List (TaskRecord κ) :=
  j.order.filterMap j.get?

def childrenOf (j : Journal κ) (parent : κ) : List (TaskRecord κ) :=
  j.all.filter fun r => r.parent = some parent

/-- Drop the oldest records until the rest fits. -/
def evict (capacity : Nat) : List κ → Table κ (TaskRecord κ) → List κ × Table κ (TaskRecord κ)
  | [], records => ([], records)
  | task :: order, records =>
    if capacity < order.length + 1 then evict capacity order (records.erase task)
    else (task :: order, records)

/-- Put a task on record. A task that is on record already keeps its place. -/
def start (j : Journal κ) (task : κ) (parent : Option κ) (target : Target) (now : Instant) :
    Journal κ :=
  let order := if j.records.contains task then j.order else j.order ++ [task]
  let records := j.records.set task (.started task parent target now)
  let (order, records) := evict j.capacity order records
  { j with order := order, records := records }

/-- Outcomes of the children of a task that have ended. -/
def childOutcomes (records : Table κ (TaskRecord κ)) (parent : κ) : List Outcome :=
  (records.values.filter fun r => r.parent = some parent).filterMap (·.outcome)

/-- Record how a task ended; nothing when it is not on record. -/
def finish? (j : Journal κ) (task : κ) (outcome : Outcome) (error : Option String)
    (now : Instant) : Option (Journal κ) :=
  match j.get? task with
  | none => none
  | some record =>
    let records := j.records.modify task fun r => r.finish outcome error now
    match record.parent with
    | none => some { j with records := records }
    | some parent =>
      let sum := Outcome.summarize (childOutcomes records parent)
      some { j with
        records := records.modify parent fun r => { r with childrenOutcome := sum } }

def unknownTask [ToString κ] (task : κ) : Failure :=
  .storage ("no execution record for task " ++ toString task)

/-- Record how a task ended; a task that is not on record is a storage failure. -/
def finish [ToString κ] (j : Journal κ) (task : κ) (outcome : Outcome) (error : Option String)
    (now : Instant) : Except Failure (Journal κ) :=
  match j.finish? task outcome error now with
  | some j => .ok j
  | none => .error (unknownTask task)

end Journal

end HomeScenes
