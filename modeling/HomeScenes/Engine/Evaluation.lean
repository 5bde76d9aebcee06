import HomeScenes.Engine.State

/-!
# Evaluating conditions

Whether a scene should act now. Device conditions read the live value; a device that
cannot be read in time makes its condition false.
-/

namespace HomeScenes.Engine

def timeoutNanos (e : Engine) : Nat :=
  e.settings.timeoutMillis * 1000000

/-- Whether the value that a device answers with is the one a condition waits for. -/
def replyHolds (comparison : Comparison) (expected : AttributeValue) :
    Except Failure (Option AttributeValue) → Bool
  | .ok (some actual) => comparison.holds actual expected
  | _ => false

def statusHolds (device : DeviceId) (attr : AttributeRef) (comparison : Comparison)
    (expected : AttributeValue) : Work Engine Bool :=
  .look fun e =>
    match e.readDevice device false with
    | .ok (some _) =>
      match e.network.get device attr with
      | .silence => .pause e.timeoutNanos (.done false)
      | .answer reply => .done (replyHolds comparison expected reply)
    | _ => .done false

/-- A timing condition holds for the firing of a timer only. -/
def conditionHolds (timed : Bool) (c : Condition) : Work Engine Bool :=
  match c.kind with
  | .timing _ => .done timed
  | .status device attr comparison expected => statusHolds device attr comparison expected

/-- Conditions are looked at in order, up to the first that does not hold. -/
def allHold (timed : Bool) : List Condition → Work Engine Bool
  | [] => .done true
  | c :: cs => (conditionHolds timed c).bind fun b => if b then allHold timed cs else .done false

/-- Conditions are looked at in order, up to the first that holds. -/
def anyHolds (timed : Bool) : List Condition → Work Engine Bool
  | [] => .done false
  | c :: cs => (conditionHolds timed c).bind fun b => if b then .done true else anyHolds timed cs

/-- A scene should act when it is armed and in effect and its conditions hold. -/
def satisfied (s : Scene) (now : LocalTime) (timed : Bool) : Work Engine Bool :=
  if !s.armed then .done false
  else if !s.inEffect now then .done false
  else match s.logic with
    | .all => allHold timed s.conditions
    | .any => anyHolds timed s.conditions

end HomeScenes.Engine
