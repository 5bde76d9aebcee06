import HomeScenes.Attribute
import HomeScenes.Calendar.TimeOfDay
import HomeScenes.Uuid

/-!
# Conditions

What makes an automatic scene fire: a time of day, or the value of an attribute.
-/

namespace HomeScenes

inductive Condition.Kind where
  /-- Met by the firing that was scheduled for this time, and by no other. -/
  | timing (time : TimeOfDay)
  /-- Met while the live value compares to the expected one. -/
  | status (device : DeviceId) (attr : AttributeRef) (comparison : Comparison)
      (value : AttributeValue)
deriving Inhabited

structure Condition where
  id : Uuid
  kind : Condition.Kind
deriving Inhabited

namespace Condition

def Kind.text : Kind → String
  | .timing t => "timing(" ++ t.hourMinuteSecondText ++ ")"
  | .status device attr comparison value =>
    "device(" ++ toString device ++ ")." ++ attr.text ++ " " ++ comparison.symbol ++ " " ++
      value.display

instance : ToString Kind := ⟨Kind.text⟩

/-- The time of a timing condition. -/
def timing? (c : Condition) : Option TimeOfDay :=
  match c.kind with
  | .timing t => some t
  | .status .. => none

def isTiming (c : Condition) : Bool :=
  c.timing?.isSome

/-- Whether a change of the attribute can change the condition. -/
def watches (c : Condition) (device : DeviceId) (attr : AttributeRef) : Bool :=
  match c.kind with
  | .timing _ => false
  | .status d a _ _ => d = device && a = attr

end Condition

/-- How the conditions of a scene are joined. -/
inductive Logic where
  | all
  | any
deriving DecidableEq, Inhabited

def Logic.text : Logic → String
  | .all => "all"
  | .any => "any"

instance : ToString Logic := ⟨Logic.text⟩

def Logic.ofText? (s : String) : Option Logic :=
  [all, any].find? fun l => l.text = s

end HomeScenes
