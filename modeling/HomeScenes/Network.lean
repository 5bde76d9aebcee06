import HomeScenes.EventBus
import HomeScenes.Virtual.Transport

/-!
# The device network

Where requests to devices go. A stalled device never answers. A passive device keeps
whatever value an attribute is set to. All other devices are reached through the virtual
transport, whose events go to the bus.
-/

namespace HomeScenes

/-- A device that is nothing but its attributes. -/
structure PassiveDevice where
  values : Table AttributeRef AttributeValue := .empty
  offline : Bool := false
deriving Inhabited

structure Network where
  stalled : List DeviceId
  passive : Table DeviceId PassiveDevice
  /-- Commands that passive devices accepted, oldest first. -/
  calls : List (DeviceId × Command)
  transport : Virtual.Transport
  bus : EventBus
deriving Inhabited

namespace Network

/-- What comes back from a device. -/
inductive Reply (α : Type) where
  | silence
  | answer (result : Except Failure α)

def ofBus (bus : EventBus) : Network :=
  ⟨[], .empty, [], {}, bus⟩

def plug (n : Network) (device : DeviceId) : Network :=
  { n with passive := n.passive.set device {} }

def setValue (n : Network) (device : DeviceId) (attr : AttributeRef) (value : AttributeValue) :
    Network :=
  { n with
    passive := n.passive.modify device fun p => { p with values := p.values.set attr value } }

def setStalled (n : Network) (device : DeviceId) (stalled : Bool) : Network :=
  let others := n.stalled.filter (· ≠ device)
  { n with stalled := if stalled then device :: others else others }

def setOffline (n : Network) (device : DeviceId) (offline : Bool) : Network :=
  if n.passive.contains device then
    { n with passive := n.passive.modify device fun p => { p with offline := offline } }
  else { n with transport := n.transport.setOnline device !offline }

/-- Set attributes of a device, all in one request. -/
def set (n : Network) (device : DeviceId) (commands : List Command) (now : Instant) :
    Reply Unit × Network :=
  if n.stalled.contains device then (.silence, n)
  else match n.passive.find? device with
    | some p =>
      if p.offline then (.answer (.error (.offline device)), n)
      else
        let values := commands.foldl (fun values c => values.set c.target c.value) p.values
        (.answer (.ok ()),
          { n with
            passive := n.passive.set device { p with values := values }
            calls := n.calls ++ commands.map fun c => (device, c) })
    | none =>
      let (result, events, transport) := n.transport.setAttributes device commands now
      (.answer result, { n with transport := transport, bus := n.bus.publishAll events })

/-- Read an attribute of a device. -/
def get (n : Network) (device : DeviceId) (attr : AttributeRef) :
    Reply (Option AttributeValue) :=
  if n.stalled.contains device then .silence
  else match n.passive.find? device with
    | some p =>
      if p.offline then .answer (.error (.offline device))
      else .answer (.ok (p.values.find? attr))
    | none => .answer (n.transport.getAttribute device attr)

/-- A virtual sensor takes a new reading. -/
def report (n : Network) (device : DeviceId) (celsius : Double) (now : Instant) :
    TaskResult × Network :=
  let (result, events, transport) := n.transport.report device celsius now
  (result, { n with transport := transport, bus := n.bus.publishAll events })

end Network

end HomeScenes
