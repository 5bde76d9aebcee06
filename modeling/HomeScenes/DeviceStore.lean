import HomeScenes.Device
import HomeScenes.Table

/-!
# Stored devices

Device records by id; deleted ones stay and can be read on request.
-/

namespace HomeScenes

structure DeviceStore where
  devices : Table DeviceId Device := .empty
deriving Inhabited

namespace DeviceStore

def get? (s : DeviceStore) (id : DeviceId) (withDeleted : Bool) : Option Device :=
  (s.devices.find? id).filter fun device => withDeleted || !device.isDeleted

/-- Take in a device, in place of any earlier version. -/
def save (s : DeviceStore) (device : Device) : Except Failure DeviceStore :=
  match device.validate with
  | .ok _ => .ok ⟨s.devices.set device.id device⟩
  | .error e => .error (.invalid e)

def softDelete (s : DeviceStore) (id : DeviceId) (now : Instant) : Except Failure DeviceStore :=
  match s.get? id false with
  | some _ => .ok ⟨s.devices.modify id fun device => { device with deletedAt := some now }⟩
  | none => .error (.missingDevice id)

end DeviceStore

end HomeScenes
