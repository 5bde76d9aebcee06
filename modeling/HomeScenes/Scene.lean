import HomeScenes.Action
import HomeScenes.Condition
import HomeScenes.Weekdays
import HomeScenes.Window
import HomeScenes.Calendar.LocalTime
import HomeScenes.Text.Blank

/-!
# Scenes

A named list of actions. Manual scenes run on demand. Automatic scenes can be armed
and fire from their conditions, but only act when they are in effect: on one of their
weekdays, within their window.
-/

namespace HomeScenes

structure Scene where
  id : SceneId
  name : String
  /-- Automatic as opposed to manual. -/
  automatic : Bool
  /-- Of meaning for automatic scenes only. -/
  armed : Bool
  logic : Logic
  window : Window
  recurrence : Recurrence
  weekdays : Weekdays
  conditions : List Condition
  actions : List Action
  createdAt : Instant
  deletedAt : Option Instant
deriving Inhabited

namespace Scene

/-- Most characters that a name may have, not counting the blanks around it. -/
def maxNameLength : Nat := 40

def isDeleted (s : Scene) : Bool :=
  s.deletedAt.isSome

/-- Times of day at which the timing conditions fire. -/
def timings (s : Scene) : List TimeOfDay :=
  s.conditions.filterMap Condition.timing?

def hasTiming (s : Scene) : Bool :=
  s.conditions.any Condition.isTiming

def watches (s : Scene) (device : DeviceId) (attr : AttributeRef) : Bool :=
  s.conditions.any (·.watches device attr)

def repeatsOn (s : Scene) (weekday : Nat) : Bool :=
  s.weekdays.contains weekday

/-- A window past midnight is judged by the weekday of `now` itself. -/
def inEffect (s : Scene) (now : LocalTime) : Bool :=
  s.repeatsOn now.weekday && s.window.contains now.time

/-- Whether the scene may fire by itself. -/
def isLive (s : Scene) : Bool :=
  s.automatic && s.armed && !s.isDeleted

def checkName (s : Scene) : Except Invalid Unit :=
  let name := Text.trim s.name.toList
  if name.isEmpty then .error .emptyName
  else if maxNameLength < name.length then .error (.nameTooLong maxNameLength)
  else .ok ()

def checkConditions (s : Scene) : Except Invalid Unit :=
  if s.automatic then
    if s.conditions.isEmpty then .error .noConditions
    else if s.logic = .all ∧ 1 < s.timings.length then .error .manyTimings
    else .ok ()
  else if s.conditions.isEmpty then .ok ()
  else .error .conditionsOnManualScene

def checkAction (s : Scene) (a : Action) : Except Invalid Unit :=
  match a.kind with
  | .control _ commands => if commands.isEmpty then .error .emptyCommands else .ok ()
  | .run scene => if scene = s.id then .error .selfTarget else .ok ()
  | .enable scene => if scene = s.id then .error .selfTarget else .ok ()
  | .disable scene => if scene = s.id then .error .selfTarget else .ok ()

def checkActions (s : Scene) : Except Invalid Unit :=
  if s.actions.isEmpty then .error .noActions
  else s.actions.forM s.checkAction

/-- The first rule that a scene breaks: name, conditions, actions, weekdays, window. -/
def validate (s : Scene) : Except Invalid Unit := do
  s.checkName
  s.checkConditions
  s.checkActions
  s.recurrence.check s.weekdays
  s.window.validate

end Scene

/-- A scene as it is described, with everything optional that has a default. -/
structure Scene.Draft where
  id : Option SceneId := none
  name : Option String := none
  automatic : Bool := false
  armed : Option Bool := none
  logic : Logic := .all
  window : Window := .allDay
  recurrence : Recurrence := .daily
  weekdays : Option Weekdays := none
  conditions : List Condition := []
  actions : List Action := []
  createdAt : Option Instant := none
  deletedAt : Option Instant := none
deriving Inhabited

namespace Scene.Draft

/-- The weekdays described, those that the recurrence stands for, or every day. -/
def chosenWeekdays (d : Draft) : Weekdays :=
  (d.weekdays.orElse fun _ => d.recurrence.implied?).getD .everyDay

/-- The scene that a draft describes; a fresh id and the present instant fill what is left out. -/
def scene (d : Draft) (fresh : SceneId) (now : Instant) : Scene where
  id := d.id.getD fresh
  name := d.name.getD ""
  automatic := d.automatic
  armed := d.armed.getD true
  logic := d.logic
  window := d.window
  recurrence := d.recurrence
  weekdays := d.chosenWeekdays
  conditions := d.conditions
  actions := d.actions
  createdAt := d.createdAt.getD now
  deletedAt := d.deletedAt

def build (d : Draft) (fresh : SceneId) (now : Instant) : Except Invalid Scene :=
  let s := d.scene fresh now
  s.validate.map fun _ => s

end Scene.Draft

end HomeScenes
