import HomeScenes.Dispatch.Server
import HomeScenes.DeviceStore
import HomeScenes.Journal
import HomeScenes.Network
import HomeScenes.SceneStore
import HomeScenes.Work

/-!
# The state of the engine

The engine turns scenes into queued tasks and runs them. A queued task says what is to
be done, not how: every firing reads its scene again when it runs. Timer firings that
are queued are also indexed by scene, so that they can be dropped together.
-/

namespace HomeScenes

/-- Tasks of the engine are numbered in the order in which they are made. -/
abbrev Ticket := Nat

/-- What a queued task does. -/
inductive Duty where
  /-- Fire a scene. The lineage are the scenes that led to it, the first one first. -/
  | fire (scene : SceneId) (lineage : List SceneId) (timed : Bool)
  /-- Carry out one action of a scene. The lineage ends with that scene. -/
  | act (action : Action.Kind) (lineage : List SceneId)
  /-- Queue the timer firings of the day after a local time, and the next arrangement. -/
  | arrange (time : LocalTime)
deriving Inhabited

/-- The wrapper of every task of the engine keeps the journal for a target. -/
abbrev EngineTask := Task Ticket Duty Target

structure Engine.Settings where
  /-- Time of day at which the timer firings of the next day are queued: five to midnight. -/
  arrangeAt : TimeOfDay := ⟨86100, 0, by decide, by decide⟩
  /-- Longest wait for a device, in milliseconds. -/
  timeoutMillis : Nat := 10000
deriving Inhabited

/-- Failures that the stores answer with to everything while they are out of order. -/
structure Engine.Outages where
  scenes : Option Failure := none
  devices : Option Failure := none
  journal : Option Failure := none
deriving Inhabited

/-- What the journal is told, whether or not it takes it. -/
inductive JournalEntry where
  | started (task : Ticket) (parent : Option Ticket) (target : Target)
  | ended (task : Ticket) (outcome : Outcome) (error : Option String)
deriving DecidableEq, Inhabited

structure Engine where
  settings : Engine.Settings
  clock : LocalTime
  scenes : SceneStore
  devices : DeviceStore
  outages : Engine.Outages
  network : Network
  journal : Journal Ticket
  /-- All that the journal was told, oldest first. -/
  entries : List JournalEntry
  server : Dispatch.Server Ticket Duty Target
  /-- Timer firings that are queued or handed out but not started, by scene. -/
  pending : Table SceneId (List Ticket)
  /-- Number of tickets given out. -/
  issued : Nat
  /-- Receivers of the bus whose events the engine handles. -/
  listeners : List Nat
deriving Inhabited

namespace Engine

def now (e : Engine) : Instant := e.clock.utc

def readScene (e : Engine) (id : SceneId) (withDeleted : Bool) : Except Failure (Option Scene) :=
  match e.outages.scenes with
  | some failure => .error failure
  | none => .ok (e.scenes.get? id withDeleted)

def readDevice (e : Engine) (id : DeviceId) (withDeleted : Bool) :
    Except Failure (Option Device) :=
  match e.outages.devices with
  | some failure => .error failure
  | none => .ok (e.devices.get? id withDeleted)

/-- A scene that exists and is not deleted. -/
def loadScene (e : Engine) (id : SceneId) : Except Failure Scene :=
  match e.readScene id false with
  | .error failure => .error failure
  | .ok none => .error (.missingScene id)
  | .ok (some scene) => .ok scene

def setArmed (e : Engine) (id : SceneId) (armed : Bool) : TaskResult × Engine :=
  match e.outages.scenes with
  | some failure => (.error failure, e)
  | none =>
    match e.scenes.setArmed id armed with
    | .error failure => (.error failure, e)
    | .ok scenes => (.ok (), { e with scenes := scenes })

/-- Timer firings of a scene that wait to be started. -/
def pendingCount (e : Engine) (id : SceneId) : Nat :=
  ((e.pending.find? id).getD []).length

def addPending (e : Engine) (scene : SceneId) (task : Ticket) : Engine :=
  { e with pending := e.pending.set scene (((e.pending.find? scene).getD []) ++ [task]) }

/-- Take a firing that starts out of the index; a scene without firings leaves it. -/
def forgetPending (e : Engine) (scene : SceneId) (task : Ticket) : Engine :=
  match e.pending.find? scene with
  | none => e
  | some tasks =>
    let left := tasks.filter (· ≠ task)
    { e with pending := if left.isEmpty then e.pending.erase scene else e.pending.set scene left }

end Engine

end HomeScenes
