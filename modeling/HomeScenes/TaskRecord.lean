import HomeScenes.Calendar.Instant
import HomeScenes.Outcome

/-!
# Records of tasks

One record for each execution of a task: what it acted upon, how it ended, and what
its children came to.
-/

namespace HomeScenes

/-- What a task acts upon. -/
inductive Target where
  | scene (id : SceneId) (name : String) (automatic : Bool)
  | device (id : DeviceId) (name : String)
  /-- Work of the engine itself. -/
  | internal (label : String)
deriving DecidableEq, Inhabited

def Target.text : Target → String
  | scene _ name automatic =>
    (if automatic then "auto scene " else "manual scene ") ++ Text.quoted name
  | device _ name => "device " ++ Text.quoted name
  | internal label => label

instance : ToString Target := ⟨Target.text⟩

/-- The record of a task with an id of type `κ`. -/
structure TaskRecord (κ : Type) where
  task : κ
  parent : Option κ
  target : Target
  /-- Outcome of the task itself; absent while it runs. -/
  outcome : Option Outcome
  error : Option String
  /-- Sum of the outcomes of its children. -/
  childrenOutcome : Option Outcome
  createdAt : Instant
  finishedAt : Option Instant
deriving DecidableEq

namespace TaskRecord

variable {κ : Type}

def started (task : κ) (parent : Option κ) (target : Target) (now : Instant) : TaskRecord κ :=
  ⟨task, parent, target, none, none, none, now, none⟩

def finish (r : TaskRecord κ) (outcome : Outcome) (error : Option String) (now : Instant) :
    TaskRecord κ :=
  { r with outcome := some outcome, error := error, finishedAt := some now }

def isFinished (r : TaskRecord κ) : Bool :=
  r.outcome.isSome

end TaskRecord

end HomeScenes
