import HomeScenes.Engine.State

/-!
# Upkeep

Changes to what the engine works with: stored scenes and devices, the network, queued
tasks, and what is out of order.
-/

namespace HomeScenes.Engine

def changeScenes (e : Engine) (change : SceneStore → Except Failure SceneStore) :
    TaskResult × Engine :=
  match e.outages.scenes with
  | some failure => (.error failure, e)
  | none =>
    match change e.scenes with
    | .error failure => (.error failure, e)
    | .ok scenes => (.ok (), { e with scenes := scenes })

/-- Store a scene; nothing is scheduled by that. -/
def saveScene (e : Engine) (s : Scene) : TaskResult × Engine :=
  e.changeScenes fun scenes => scenes.save s

/-- Delete a scene; its firings stay queued and find it deleted. -/
def deleteScene (e : Engine) (id : SceneId) : TaskResult × Engine :=
  e.changeScenes fun scenes => scenes.softDelete id e.now

def deleteDevice (e : Engine) (id : DeviceId) : TaskResult × Engine :=
  match e.outages.devices with
  | some failure => (.error failure, e)
  | none =>
    match e.devices.softDelete id e.now with
    | .error failure => (.error failure, e)
    | .ok devices => (.ok (), { e with devices := devices })

def changeNetwork (e : Engine) (change : Network → Network) : Engine :=
  { e with network := change e.network }

/-- A virtual sensor takes a new reading now. -/
def report (e : Engine) (device : DeviceId) (celsius : Double) : TaskResult × Engine :=
  let (result, network) := e.network.report device celsius e.now
  (result, { e with network := network })

/-- Hand a receiver of the bus the events that wait for it. -/
def drainEvents? (e : Engine) (receiver : Nat) : Option (EventBus.Delivery × Engine) :=
  (e.network.bus.drain? receiver).map fun (delivery, bus) =>
    (delivery, e.changeNetwork fun n => { n with bus := bus })

/-- Move a queued task to another due instant. -/
def reschedule (e : Engine) (task : Ticket) (due : Instant) : Bool × Engine :=
  let (moved, server) := e.server.reschedule task due
  (moved, { e with server := server })

/-- Take a task out of the queue. -/
def withdraw (e : Engine) (task : Ticket) : Bool × Engine :=
  let (taken, server) := e.server.remove task
  (taken, { e with server := server })

/-- Tasks in the order in which they started. -/
def startOrder (e : Engine) : List Ticket :=
  e.entries.filterMap fun
    | .started task _ _ => some task
    | .ended .. => none

/-- An engine on given stores and a network, with nothing queued. -/
def ofParts (settings : Settings) (clock : LocalTime) (scenes : SceneStore)
    (devices : DeviceStore) (network : Network) (journal : Journal Ticket) : Engine where
  settings := settings
  clock := clock
  scenes := scenes
  devices := devices
  outages := {}
  network := network
  journal := journal
  entries := []
  server := .empty
  pending := .empty
  issued := 0
  listeners := []

end HomeScenes.Engine
