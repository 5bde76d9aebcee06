import HomeScenes.Device
import HomeScenes.Wire.Attribute

/-!
# JSON form of devices and their events
-/

namespace HomeScenes

open Json (Node)

namespace Device

def fieldNames : List String :=
  ["id", "name", "manufacturer", "model", "plugin_id", "identity", "deleted_at"]

def toJson (d : Device) : Json :=
  .object
    [("id", d.id.toJson), ("name", .text d.name),
     ("manufacturer", Json.ofOption Json.text d.manufacturer),
     ("model", Json.ofOption Json.text d.model), ("plugin_id", .text d.plugin),
     ("identity", .text d.identity), ("deleted_at", Json.ofOption Instant.toJson d.deletedAt)]

def ofNode? (n : Node) : Option Device := do
  match ← n.fields? fieldNames with
  | [id, name, manufacturer, model, plugin, identity, deletedAt] =>
    return {
      id := ← Node.required? DeviceId.ofNode? id
      name := ← Node.required? Node.text? name
      manufacturer := ← Node.absentOr? Node.text? manufacturer
      model := ← Node.absentOr? Node.text? model
      plugin := ← Node.required? Node.text? plugin
      identity := ← Node.required? Node.text? identity
      deletedAt := ← Node.absentOr? Instant.ofNode? deletedAt }
  | _ => none

end Device

namespace DeviceEvent

def fieldNames : List String :=
  ["device_id", "attribute", "value", "timestamp"]

def toJson (e : DeviceEvent) : Json :=
  .object
    [("device_id", e.device.toJson), ("attribute", e.attr.toJson), ("value", e.value.toJson),
     ("timestamp", e.timestamp.toJson)]

def ofNode? (n : Node) : Option DeviceEvent := do
  match ← n.fields? fieldNames with
  | [device, attr, value, timestamp] =>
    return {
      device := ← Node.required? DeviceId.ofNode? device
      attr := ← Node.required? AttributeRef.ofNode? attr
      value := ← Node.required? AttributeValue.ofNode? value
      timestamp := ← Node.required? Instant.ofNode? timestamp }
  | _ => none

end DeviceEvent

end HomeScenes
