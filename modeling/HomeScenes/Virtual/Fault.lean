import HomeScenes.Attribute
import HomeScenes.Failure

/-!
# Faults of virtual devices
-/

namespace HomeScenes.Virtual

inductive Fault where
  | offline (device : DeviceId)
  | unknownDevice (device : DeviceId)
  | unsupported (attr : AttributeRef)
  | invalidValue (attr : AttributeRef) (value : String)
  | readOnly (attr : AttributeRef)
deriving DecidableEq, Inhabited

namespace Fault

def message : Fault → String
  | offline device => "virtual device " ++ toString device ++ " is offline"
  | unknownDevice device => "no virtual device " ++ toString device
  | unsupported attr => "attribute " ++ attr.text ++ " is not supported"
  | invalidValue attr value => "attribute " ++ attr.text ++ " does not accept " ++ value
  | readOnly attr => "attribute " ++ attr.text ++ " is read-only"

/-- A device that is offline is one for all transports alike; other faults are the transport's. -/
def toFailure : Fault → Failure
  | offline device => .offline device
  | fault => .transport fault.message

end Fault

end HomeScenes.Virtual
