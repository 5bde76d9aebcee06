import HomeScenes.TaskRecord
import HomeScenes.Wire.Attribute

/-!
# JSON form of task records
-/

namespace HomeScenes

open Json (Node)

namespace Target

def toJson : Target → Json
  | scene id name automatic =>
    .object [("type", .text "scene"), ("id", id.toJson), ("name", .text name),
      ("auto_run", .bool automatic)]
  | device id name => .object [("type", .text "device"), ("id", id.toJson), ("name", .text name)]
  | internal label => .object [("type", .text "internal"), ("label", .text label)]

def ofNode? (n : Node) : Option Target := do
  let (tag, rest) ← n.tagged? ["scene", "device", "internal"]
  match tag with
  | "scene" =>
    match ← rest.fields? ["id", "name", "auto_run"] with
    | [id, name, automatic] =>
      let id ← Node.required? SceneId.ofNode? id
      let name ← Node.required? Node.text? name
      let automatic ← Node.required? Node.bool? automatic
      return scene id name automatic
    | _ => none
  | "device" =>
    match ← rest.fields? ["id", "name"] with
    | [id, name] =>
      let id ← Node.required? DeviceId.ofNode? id
      let name ← Node.required? Node.text? name
      return device id name
    | _ => none
  | _ =>
    match ← rest.fields? ["label"] with
    | [label] => (Node.required? Node.text? label).map internal
    | _ => none

end Target

namespace Outcome

def toJson (o : Outcome) : Json := .text o.text

def ofNode? (n : Node) : Option Outcome :=
  n.choice?.bind ofText?

end Outcome

namespace TaskRecord

def fieldNames : List String :=
  ["task_id", "parent_id", "target", "outcome", "error", "children_outcome", "created_at",
   "finished_at"]

def toJson (r : TaskRecord Uuid) : Json :=
  .object
    [("task_id", r.task.toJson), ("parent_id", Json.ofOption Uuid.toJson r.parent),
     ("target", r.target.toJson), ("outcome", Json.ofOption Outcome.toJson r.outcome),
     ("error", Json.ofOption Json.text r.error),
     ("children_outcome", Json.ofOption Outcome.toJson r.childrenOutcome),
     ("created_at", r.createdAt.toJson),
     ("finished_at", Json.ofOption Instant.toJson r.finishedAt)]

def ofNode? (n : Node) : Option (TaskRecord Uuid) := do
  match ← n.fields? fieldNames with
  | [task, parent, target, outcome, error, childrenOutcome, createdAt, finishedAt] =>
    return {
      task := ← Node.required? Uuid.ofNode? task
      parent := ← Node.absentOr? Uuid.ofNode? parent
      target := ← Node.required? Target.ofNode? target
      outcome := ← Node.absentOr? Outcome.ofNode? outcome
      error := ← Node.absentOr? Node.text? error
      childrenOutcome := ← Node.absentOr? Outcome.ofNode? childrenOutcome
      createdAt := ← Node.required? Instant.ofNode? createdAt
      finishedAt := ← Node.absentOr? Instant.ofNode? finishedAt }
  | _ => none

end TaskRecord

end HomeScenes
