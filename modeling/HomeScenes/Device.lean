import HomeScenes.Attribute
import HomeScenes.Calendar.Instant
import HomeScenes.Failure
import HomeScenes.Text.Blank

/-!
# Devices

The records kept of devices, and the events that report a change of an attribute. A
deleted record is kept, so that what still refers to it can be named.
-/

namespace HomeScenes

structure Device where
  id : DeviceId
  name : String
  manufacturer : Option String
  model : Option String
  /-- Plugin that provides the device. -/
  plugin : String
  /-- Name of the device inside its plugin. -/
  identity : String
  deletedAt : Option Instant
deriving DecidableEq, Inhabited

namespace Device

def isDeleted (d : Device) : Bool :=
  d.deletedAt.isSome

def validate (d : Device) : Except Invalid Unit :=
  if (Text.trim d.name.toList).isEmpty then .error .emptyName else .ok ()

end Device

/-- A device as it is described. -/
structure Device.Draft where
  id : Option DeviceId := none
  name : Option String := none
  manufacturer : Option String := none
  model : Option String := none
  plugin : Option String := none
  identity : Option String := none
  deletedAt : Option Instant := none
deriving Inhabited

namespace Device.Draft

/-- A device without an identity is known to its plugin by the text of its id. -/
def device (d : Draft) (fresh : DeviceId) : Device :=
  let id := d.id.getD fresh
  { id
    name := d.name.getD ""
    manufacturer := d.manufacturer
    model := d.model
    plugin := d.plugin.getD ""
    identity := d.identity.getD (toString id)
    deletedAt := d.deletedAt }

def build (d : Draft) (fresh : DeviceId) : Except Invalid Device :=
  let device := d.device fresh
  device.validate.map fun _ => device

end Device.Draft

/-- An attribute of a device has changed. -/
structure DeviceEvent where
  device : DeviceId
  attr : AttributeRef
  value : AttributeValue
  timestamp : Instant
deriving Inhabited

end HomeScenes
