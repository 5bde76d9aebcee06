import HomeScenes.Failure

/-!
# Outcomes

How a task ended, and what the outcomes of several tasks amount to together.
-/

namespace HomeScenes

/-- What running a task comes to. -/
abbrev TaskResult := Except Failure Unit

inductive Outcome where
  | success
  | partialSuccess
  | failed
  | timeout
  | deviceDeleted
  | deviceOffline
  | sceneDeleted
deriving DecidableEq, Inhabited

namespace Outcome

def text : Outcome → String
  | success => "success"
  | partialSuccess => "partial_success"
  | failed => "failed"
  | timeout => "timeout"
  | deviceDeleted => "device_already_deleted"
  | deviceOffline => "device_offline"
  | sceneDeleted => "scene_already_deleted"

instance : ToString Outcome := ⟨text⟩

def all : List Outcome :=
  [success, partialSuccess, failed, timeout, deviceDeleted, deviceOffline, sceneDeleted]

def ofText? (s : String) : Option Outcome :=
  all.find? fun o => o.text = s

def ofFailure : Failure → Outcome
  | .missing entity _ =>
    if entity = "Scene" then sceneDeleted
    else if entity = "Device" then deviceDeleted
    else failed
  | .offline _ => deviceOffline
  | .timedOut .. => timeout
  | _ => failed

def ofResult : TaskResult → Outcome
  | .ok _ => success
  | .error e => ofFailure e

/-- Nothing to sum up, all successes, some successes, one failure shared by all, or a mix of
failures. -/
def summarize : List Outcome → Option Outcome
  | [] => none
  | first :: rest =>
    let outcomes := first :: rest
    some <|
      if outcomes.all (· = success) then success
      else if outcomes.any (· = success) then partialSuccess
      else if outcomes.all (· = first) then first
      else failed

end Outcome

end HomeScenes
