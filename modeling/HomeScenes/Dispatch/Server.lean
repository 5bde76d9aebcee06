import HomeScenes.DueQueue

/-!
# The queue server

The due queue with a flag that something was pushed or moved since the dispatch loop
last looked, and the step that hands out the earliest task once it is due.
-/

namespace HomeScenes.Dispatch

/-- Nanoseconds until the next look at the queue after a dispatch or a push. -/
def shortWait : Nat := 200000

/-- Nanoseconds until the next look at an empty queue: five minutes. -/
def idleWait : Nat := 300000000000

/-- What a look at the queue comes to. -/
inductive Tick (κ β ω : Type) where
  /-- Nothing is queued. -/
  | idle
  /-- The earliest task is due after some nanoseconds. -/
  | wait (nanos : Nat)
  /-- The earliest task is due and has left the queue. -/
  | ready (task : Task κ β ω)

structure Server (κ β ω : Type) [BEq κ] [Hashable κ] where
  queue : DueQueue κ β ω
  /-- Whether the loop has been notified and has not taken that up yet. -/
  notified : Bool

namespace Server

variable {κ β ω : Type} [BEq κ] [Hashable κ]

def empty : Server κ β ω := ⟨.empty, false⟩

instance : Inhabited (Server κ β ω) := ⟨empty⟩

def push (s : Server κ β ω) (t : Task κ β ω) : Server κ β ω :=
  ⟨s.queue.push t, true⟩

/-- Drop a queued task; the answer is false when it is not queued. The loop is not notified. -/
def remove (s : Server κ β ω) (id : κ) : Bool × Server κ β ω :=
  match s.queue.remove? id with
  | some (_, queue) => (true, { s with queue := queue })
  | none => (false, s)

/-- Move a queued task to another due instant; the answer is false when it is not queued. -/
def reschedule (s : Server κ β ω) (id : κ) (due : Instant) : Bool × Server κ β ω :=
  match s.queue.update? id due with
  | some queue => (true, ⟨queue, true⟩)
  | none => (false, s)

/-- Take the earliest task if it is due. One that is not yet due goes back into the queue. -/
def tick (s : Server κ β ω) (now : Instant) : Tick κ β ω × Server κ β ω :=
  match s.queue.pop? with
  | none => (.idle, s)
  | some (task, rest) =>
    if now < task.due then
      let left := task.due.since now
      (.wait (if 0 ≤ left then left.toNat else shortWait), { s with queue := rest.push task })
    else (.ready task, { s with queue := rest })

end Server

end HomeScenes.Dispatch
