import HomeScenes.Attribute
import HomeScenes.Calendar.Instant
import HomeScenes.Json.Node
import HomeScenes.Uuid

/-!
# JSON form of identifiers, times and attributes

An attribute value has no tag: its kind is that of the JSON value. A number that is no
64-bit integer is a floating-point number, and null, arrays and objects are free values.
-/

namespace HomeScenes

open Json (Node)

namespace Uuid

def toJson (u : Uuid) : Json := .text u.text

def ofNode? (n : Node) : Option Uuid :=
  n.text?.bind ofText?

end Uuid

def SceneId.toJson (id : SceneId) : Json := id.uuid.toJson

def SceneId.ofNode? (n : Node) : Option SceneId := (Uuid.ofNode? n).map SceneId.mk

def DeviceId.toJson (id : DeviceId) : Json := id.uuid.toJson

def DeviceId.ofNode? (n : Node) : Option DeviceId := (Uuid.ofNode? n).map DeviceId.mk

def TimeOfDay.toJson (t : TimeOfDay) : Json := .text t.text

def TimeOfDay.ofNode? (n : Node) : Option TimeOfDay := n.text?.bind TimeOfDay.ofText?

def Instant.toJson (t : Instant) : Json := .text t.text

def Instant.ofNode? (n : Node) : Option Instant := n.text?.bind Instant.ofText?

/-- The form of a value that may be absent. -/
def Json.ofOption {α : Type} (form : α → Json) : Option α → Json
  | none => .null
  | some a => form a

namespace AttributeValue

def toJson : AttributeValue → Json
  | bool b => .bool b
  | int i => .int i.toInt
  | float d => .float d
  | text s => .text s
  | json v => v

/-- The kind of a free value decides what it is an attribute value of. -/
def ofJson : Json → AttributeValue
  | .bool b => bool b
  | .int i =>
    if -9223372036854775808 ≤ i ∧ i < 9223372036854775808 then int (Int64.ofInt i)
    else float (Double.ofInt i)
  | .float d => float d
  | .text s => text s
  | v => json v

def ofNode? (n : Node) : Option AttributeValue :=
  (n.settle?.bind fun n => n.raw.toJson?).map ofJson

end AttributeValue

namespace AttributeRef

def fieldNames : List String := ["instance_id", "attribute"]

def members (a : AttributeRef) : List (String × Json) :=
  [("instance_id", .int a.service.toNat), ("attribute", .text a.name)]

def toJson (a : AttributeRef) : Json := .object a.members

def serviceOfNode? (n : Node) : Option UInt32 :=
  (n.natBelow? 4294967296).map UInt32.ofNat

def ofFields? : List (Option Node) → Option AttributeRef
  | [service, name] => do
    let service ← Node.required? serviceOfNode? service
    let name ← Node.required? Node.text? name
    return ⟨service, name⟩
  | _ => none

def ofNode? (n : Node) : Option AttributeRef :=
  (n.fields? fieldNames).bind ofFields?

end AttributeRef

namespace Command

/-- The place of the attribute and the value stand side by side. -/
def toJson (c : Command) : Json :=
  .object (c.target.members ++ [("value", c.value.toJson)])

def ofNode? (n : Node) : Option Command := do
  let (fields, rest) ← n.splitFields? ["value"]
  match fields with
  | [value] =>
    let value ← Node.required? AttributeValue.ofNode? value
    let target ← AttributeRef.ofNode? rest
    return ⟨target, value⟩
  | _ => none

end Command

namespace Comparison

def toJson (c : Comparison) : Json := .text c.symbol

def ofNode? (n : Node) : Option Comparison :=
  n.choice?.bind ofSymbol?

end Comparison

end HomeScenes
