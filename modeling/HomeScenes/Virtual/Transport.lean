import HomeScenes.Outcome
import HomeScenes.Table
import HomeScenes.Virtual.Appliance

/-!
# The virtual transport

Carries commands to virtual appliances and keeps a history of those accepted. A request
is a list of commands: they are carried out in order up to the first that is rejected.
Events are published for a request that was accepted as a whole.
-/

namespace HomeScenes.Virtual

structure Transport where
  appliances : Table DeviceId Appliance := .empty
  offline : List DeviceId := []
  /-- Commands accepted so far, oldest first. -/
  history : List (DeviceId × Command) := []
deriving Inhabited

namespace Transport

def add (t : Transport) (a : Appliance) : Transport :=
  { t with appliances := t.appliances.set a.id a }

/-- One appliance of each kind. -/
def standard (light switch sensor : DeviceId) : Transport :=
  let empty : Transport := {}
  ((empty.add ⟨light, "Virtual Light", .newLight⟩).add
    ⟨switch, "Virtual Switch", .newSwitch⟩).add ⟨sensor, "Virtual Sensor", .newSensor⟩

def setOnline (t : Transport) (device : DeviceId) (online : Bool) : Transport :=
  let others := t.offline.filter (· ≠ device)
  { t with offline := if online then others else device :: others }

def describedBefore (a b : Device) : Bool :=
  if a.name = b.name then a.id.uuid.toNat ≤ b.id.uuid.toNat else a.name < b.name

/-- The records of all appliances by name. -/
def describeAll (t : Transport) : Except Failure (List Device) :=
  (t.appliances.values.mapM Appliance.describe).map fun ds => ds.mergeSort describedBefore

/-- The appliance that answers for a device. -/
def lookup (t : Transport) (device : DeviceId) : Except Fault Appliance :=
  if t.offline.contains device then .error (.offline device)
  else match t.appliances.find? device with
    | some a => .ok a
    | none => .error (.unknownDevice device)

/-- Carry out one command on an appliance. -/
def applyOne (t : Transport) (a : Appliance) (c : Command) :
    Except Fault (AttributeValue × Appliance × Transport) :=
  match a.state.apply c with
  | .error fault => .error fault
  | .ok (stored, state) =>
    let a := { a with state := state }
    .ok (stored, a,
      { t with appliances := t.appliances.set a.id a, history := t.history ++ [(a.id, c)] })

/-- Carry out commands up to the first rejected one; the values stored come in order. -/
def applyAll (t : Transport) (a : Appliance) :
    List Command → Except Fault (List (AttributeRef × AttributeValue)) × Transport
  | [] => (.ok [], t)
  | c :: cs =>
    match t.applyOne a c with
    | .error fault => (.error fault, t)
    | .ok (stored, a, t) =>
      let (rest, t) := applyAll t a cs
      (rest.map fun stored' => (c.target, stored) :: stored', t)

/-- A request to set attributes of a device: its result and the events it publishes. -/
def setAttributes (t : Transport) (device : DeviceId) (commands : List Command) (now : Instant) :
    TaskResult × List DeviceEvent × Transport :=
  match t.lookup device with
  | .error fault => (.error fault.toFailure, [], t)
  | .ok a =>
    match t.applyAll a commands with
    | (.error fault, t) => (.error fault.toFailure, [], t)
    | (.ok stored, t) =>
      (.ok (), stored.map fun s => ⟨device, s.1, s.2, now⟩, t)

def getAttribute (t : Transport) (device : DeviceId) (attr : AttributeRef) :
    Except Failure (Option AttributeValue) :=
  match t.lookup device with
  | .error fault => .error fault.toFailure
  | .ok a => .ok (a.state.read attr)

/-- A sensor takes a new reading, whether it is online or not. -/
def report (t : Transport) (device : DeviceId) (celsius : Double) (now : Instant) :
    TaskResult × List DeviceEvent × Transport :=
  match t.appliances.find? device with
  | some ⟨id, name, .sensor _⟩ =>
    (.ok (), [⟨device, ⟨service, "temperature"⟩, .float celsius, now⟩],
      { t with appliances := t.appliances.set device ⟨id, name, .sensor celsius⟩ })
  | _ => (.error (Fault.unknownDevice device).toFailure, [], t)

end Transport

end HomeScenes.Virtual
