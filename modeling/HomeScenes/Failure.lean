import HomeScenes.Uuid
import HomeScenes.Text.Quoted

/-!
# Failures

What can go wrong, by cause. The wording of every message is here and nowhere else.
-/

namespace HomeScenes

/-- A rule that a scene or device description breaks. -/
inductive Invalid where
  | emptyName
  | nameTooLong (max : Nat)
  | repeatDays (text : String)
  | repeatMismatch (kind days : String)
  | emptyWindow
  | conditionsOnManualScene
  | noConditions
  | manyTimings
  | noActions
  | emptyCommands
  | selfTarget
deriving DecidableEq, Inhabited

def Invalid.message : Invalid → String
  | emptyName => "name must not be empty"
  | nameTooLong max => "name must not exceed " ++ toString max ++ " characters"
  | repeatDays text =>
    "repeat days must be distinct digits between 1 and 7, got " ++ Text.quoted text
  | repeatMismatch kind days =>
    "repeat days " ++ Text.quoted days ++ " do not match repeat type " ++ kind
  | emptyWindow => "effect window start and end must differ"
  | conditionsOnManualScene => "manual scenes cannot declare conditions"
  | noConditions => "automatic scenes require at least one condition"
  | manyTimings => "scenes using ALL logic accept at most one timing condition"
  | noActions => "a scene requires at least one task"
  | emptyCommands => "device control tasks require at least one command"
  | selfTarget => "a scene task cannot target its own scene"

inductive Failure where
  | invalid (cause : Invalid)
  /-- A record that does not exist or has been deleted. -/
  | missing (entity id : String)
  | offline (device : DeviceId)
  | timedOut (operation : String) (millis : Nat)
  /-- A scene that would run again within its own chain. -/
  | cycle (scene : SceneId) (chain : List SceneId)
  | storage (cause : String)
  | transport (cause : String)
deriving DecidableEq, Inhabited

namespace Failure

def missingScene (id : SceneId) : Failure :=
  missing "Scene" (toString id)

def missingDevice (id : DeviceId) : Failure :=
  missing "Device" (toString id)

def message : Failure → String
  | invalid cause => "validation error: " ++ cause.message
  | missing entity id => entity ++ " " ++ id ++ " not found"
  | offline device => "device " ++ toString device ++ " is offline"
  | timedOut operation millis => operation ++ " timed out after " ++ toString millis ++ "ms"
  | cycle scene _ => "scene " ++ toString scene ++ " is already part of the running chain"
  | storage cause => "storage error: " ++ cause
  | transport cause => "transport error: " ++ cause

/-- The text of the failure underneath, for those that wrap another one. -/
def cause? : Failure → Option String
  | invalid cause => some cause.message
  | storage cause => some cause
  | transport cause => some cause
  | _ => none

end Failure

end HomeScenes
