import HomeScenes.Scene
import HomeScenes.Wire.Attribute

/-!
# JSON form of scenes

Conditions and actions carry the fields of their kind beside their own, with the name
of the kind under `type`.
-/

namespace HomeScenes

open Json (Node)

namespace Window

def toJson : Window → Json
  | allDay => .object [("type", .text "all_day")]
  | between start stop =>
    .object [("type", .text "custom"), ("start", start.toJson), ("end", stop.toJson)]

def ofNode? (n : Node) : Option Window := do
  let (tag, rest) ← n.tagged? ["all_day", "custom"]
  if tag = "all_day" then
    rest.noFields?
    return allDay
  else
    match ← rest.fields? ["start", "end"] with
    | [start, stop] =>
      let start ← Node.required? TimeOfDay.ofNode? start
      let stop ← Node.required? TimeOfDay.ofNode? stop
      return between start stop
    | _ => none

end Window

namespace Recurrence

def toJson (r : Recurrence) : Json := .text r.text

def ofNode? (n : Node) : Option Recurrence :=
  n.choice?.bind ofText?

end Recurrence

namespace Weekdays

def toJson (w : Weekdays) : Json := .text w.text

def ofNode? (n : Node) : Option Weekdays :=
  n.text?.bind fun s => ofChars? s.toList

end Weekdays

namespace Logic

def toJson (l : Logic) : Json := .text l.text

def ofNode? (n : Node) : Option Logic :=
  n.choice?.bind ofText?

end Logic

namespace Condition

def Kind.members : Kind → List (String × Json)
  | .timing t => [("type", .text "timing"), ("at", t.toJson)]
  | .status device attr comparison value =>
    [("type", .text "device_status"), ("device_id", device.toJson), ("attribute", attr.toJson),
     ("operator", comparison.toJson), ("value", value.toJson)]

def Kind.ofNode? (n : Node) : Option Kind := do
  let (tag, rest) ← n.tagged? ["timing", "device_status"]
  if tag = "timing" then
    match ← rest.fields? ["at"] with
    | [t] => (Node.required? TimeOfDay.ofNode? t).map .timing
    | _ => none
  else
    match ← rest.fields? ["device_id", "attribute", "operator", "value"] with
    | [device, attr, comparison, value] =>
      let device ← Node.required? DeviceId.ofNode? device
      let attr ← Node.required? AttributeRef.ofNode? attr
      let comparison ← Node.required? Comparison.ofNode? comparison
      let value ← Node.required? AttributeValue.ofNode? value
      return .status device attr comparison value
    | _ => none

def toJson (c : Condition) : Json :=
  .object (("id", c.id.toJson) :: c.kind.members)

def ofNode? (n : Node) : Option Condition := do
  let (fields, rest) ← n.splitFields? ["id"]
  match fields with
  | [id] =>
    let id ← Node.required? Uuid.ofNode? id
    let kind ← Kind.ofNode? rest
    return ⟨id, kind⟩
  | _ => none

end Condition

namespace Action

def Kind.members : Kind → List (String × Json)
  | .control device commands =>
    [("type", .text "control_device"), ("device_id", device.toJson),
     ("commands", .array (commands.map Command.toJson))]
  | .run scene => [("type", .text "run_scene"), ("scene_id", scene.toJson)]
  | .enable scene => [("type", .text "enable_scene"), ("scene_id", scene.toJson)]
  | .disable scene => [("type", .text "disable_scene"), ("scene_id", scene.toJson)]

def commandsOfNode? (n : Node) : Option (List Command) :=
  n.items?.bind fun items => items.mapM Command.ofNode?

def sceneOfFields? (n : Node) : Option SceneId := do
  match ← n.fields? ["scene_id"] with
  | [scene] => Node.required? SceneId.ofNode? scene
  | _ => none

def Kind.ofNode? (n : Node) : Option Kind := do
  let (tag, rest) ← n.tagged? ["control_device", "run_scene", "enable_scene", "disable_scene"]
  match tag with
  | "control_device" =>
    match ← rest.fields? ["device_id", "commands"] with
    | [device, commands] =>
      let device ← Node.required? DeviceId.ofNode? device
      let commands ← Node.required? commandsOfNode? commands
      return .control device commands
    | _ => none
  | "run_scene" => (sceneOfFields? rest).map .run
  | "enable_scene" => (sceneOfFields? rest).map .enable
  | _ => (sceneOfFields? rest).map .disable

def toJson (a : Action) : Json :=
  .object (("id", a.id.toJson) :: ("delay_seconds", .int a.delay.toNat) :: a.kind.members)

def delayOfNode? (n : Node) : Option UInt32 :=
  (n.natBelow? 4294967296).map UInt32.ofNat

/-- An action without a delay starts with its scene. -/
def ofNode? (n : Node) : Option Action := do
  let (fields, rest) ← n.splitFields? ["id", "delay_seconds"]
  match fields with
  | [id, delay] =>
    let id ← Node.required? Uuid.ofNode? id
    let delay ← match delay with
      | none => some 0
      | some d => delayOfNode? d
    let kind ← Kind.ofNode? rest
    return ⟨id, delay, kind⟩
  | _ => none

end Action

namespace Scene

def fieldNames : List String :=
  ["id", "name", "auto_run", "is_on", "condition_logic", "time_period", "repeat_type",
   "repeat_days", "conditions", "tasks", "created_at", "deleted_at"]

def toJson (s : Scene) : Json :=
  .object
    [("id", s.id.toJson), ("name", .text s.name), ("auto_run", .bool s.automatic),
     ("is_on", .bool s.armed), ("condition_logic", s.logic.toJson),
     ("time_period", s.window.toJson), ("repeat_type", s.recurrence.toJson),
     ("repeat_days", s.weekdays.toJson),
     ("conditions", .array (s.conditions.map Condition.toJson)),
     ("tasks", .array (s.actions.map Action.toJson)), ("created_at", s.createdAt.toJson),
     ("deleted_at", Json.ofOption Instant.toJson s.deletedAt)]

def conditionsOfNode? (n : Node) : Option (List Condition) :=
  n.items?.bind fun items => items.mapM Condition.ofNode?

def actionsOfNode? (n : Node) : Option (List Action) :=
  n.items?.bind fun items => items.mapM Action.ofNode?

/-- The scene of a record as it stands, valid or not. -/
def ofNode? (n : Node) : Option Scene := do
  match ← n.fields? fieldNames with
  | [id, name, automatic, armed, logic, window, recurrence, weekdays, conditions, actions,
      createdAt, deletedAt] =>
    return {
      id := ← Node.required? SceneId.ofNode? id
      name := ← Node.required? Node.text? name
      automatic := ← Node.required? Node.bool? automatic
      armed := ← Node.required? Node.bool? armed
      logic := ← Node.required? Logic.ofNode? logic
      window := ← Node.required? Window.ofNode? window
      recurrence := ← Node.required? Recurrence.ofNode? recurrence
      weekdays := ← Node.required? Weekdays.ofNode? weekdays
      conditions := ← Node.required? conditionsOfNode? conditions
      actions := ← Node.required? actionsOfNode? actions
      createdAt := ← Node.required? Instant.ofNode? createdAt
      deletedAt := ← Node.absentOr? Instant.ofNode? deletedAt }
  | _ => none

end Scene

end HomeScenes
