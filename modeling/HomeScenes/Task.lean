import HomeScenes.Calendar.Instant
import HomeScenes.Outcome

/-!
# Tasks

Work that is put off until an instant. A task has a handle that says what it is, a
body, and wrappers that were put around the body one after the other, so that the last
one is outermost. What a body and a wrapper do is given by two functions when the task
runs.
-/

namespace HomeScenes

structure Handle (κ : Type) where
  id : κ
  parent : Option κ
  /-- Instant at which the task is due. -/
  due : Instant
  label : String
deriving DecidableEq, Inhabited

structure Task (κ β ω : Type) where
  handle : Handle κ
  body : β
  wrappers : List ω
deriving Inhabited

namespace Task

variable {κ β ω : Type}

def dueAt (id : κ) (due : Instant) (body : β) : Task κ β ω :=
  ⟨⟨id, none, due, ""⟩, body, []⟩

/-- Longest delay that is added, in nanoseconds; longer ones count as this one. -/
def longestDelay : Int := Instant.longestDuration

/-- A task due some nanoseconds after an instant, or at that instant when the sum is out of
range. -/
def dueAfter (id : κ) (start : Instant) (delay : Int) (body : β) : Task κ β ω :=
  dueAt id ((start.shift? (min delay longestDelay)).getD start) body

/-- The first parent that is set stays. -/
def withParent (t : Task κ β ω) (parent : κ) : Task κ β ω :=
  { t with handle := { t.handle with parent := t.handle.parent.orElse fun _ => some parent } }

def withLabel (t : Task κ β ω) (label : String) : Task κ β ω :=
  { t with handle := { t.handle with label := label } }

def withWrapper (t : Task κ β ω) (w : ω) : Task κ β ω :=
  { t with wrappers := t.wrappers ++ [w] }

def withDue (t : Task κ β ω) (due : Instant) : Task κ β ω :=
  { t with handle := { t.handle with due := due } }

def id (t : Task κ β ω) : κ := t.handle.id

def due (t : Task κ β ω) : Instant := t.handle.due

/-- What runs when a task with the given handle is due. -/
abbrev Run (m : Type → Type) (κ : Type) := Handle κ → m TaskResult

/-- Run the body inside all wrappers. -/
def run {m : Type → Type} (body : β → Run m κ) (wrapper : ω → Run m κ → Run m κ)
    (t : Task κ β ω) : m TaskResult :=
  t.wrappers.foldl (fun inner w => wrapper w inner) (body t.body) t.handle

/-- A parent as it is shown in the description of a task. -/
def parentText : Option String → String
  | none => "None"
  | some id => "Some(TaskId(" ++ id ++ "))"

/-- Description of a task with all that can be shown of it. -/
def describe [ToString κ] (t : Task κ β ω) : String :=
  "Task \x7b handle: TaskHandle \x7b id: TaskId(" ++ toString t.id ++ "), parent_id: " ++
    parentText (t.handle.parent.map toString) ++ ", priority: " ++ t.due.text ++ ", value: " ++
    Text.quoted t.handle.label ++ " \x7d, wrappers: " ++ toString t.wrappers.length ++ ", .. \x7d"

end Task

end HomeScenes
