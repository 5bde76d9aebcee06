import HomeScenes.Dispatch.Loop
import HomeScenes.Work

/-!
# Sessions

A world with a queue server, the dispatch loop that may be running on it, and the
dispatched tasks that have paused. Time passes from event to event: to the end of the
loop's sleep or of a pause, rounded up to the resolution of timers. At each event the
loop takes up what there is, tasks go on up to their next pause, and the world reacts.
-/

namespace HomeScenes.Dispatch

/-- Nanoseconds between two instants at which timers can go off. -/
def resolution : Nat := 1000000

/-- The first instant at which a timer set for `deadline` goes off. -/
def expiry (deadline : Nat) : Nat :=
  (deadline + (resolution - 1)) / resolution * resolution

/-- How a session gets at the parts of its world. -/
structure Host (σ κ β ω : Type) [BEq κ] [Hashable κ] where
  server : σ → Server κ β ω
  withServer : Server κ β ω → σ → σ
  /-- The clock that due instants are measured by. -/
  clock : σ → Instant
  /-- Nanoseconds pass. -/
  pass : Nat → σ → σ
  /-- What a dispatched task does. -/
  perform : Task κ β ω → Work σ Unit
  /-- What others do after each event. -/
  react : σ → σ

/-- A dispatched task in a pause. -/
structure Paused (σ : Type) where
  wakes : Nat
  rest : Work σ Unit

structure Session (σ : Type) where
  world : σ
  loop : Option Loop
  paused : List (Paused σ)

namespace Session

variable {σ κ β ω : Type} [BEq κ] [Hashable κ]

def ofWorld (world : σ) : Session σ := ⟨world, none, []⟩

/-- Whether the loop is there and has not ended. -/
def isRunning (s : Session σ) : Bool :=
  match s.loop with
  | some l => !l.ended
  | none => false

/-- Carry out work up to its next pause and keep the rest for later. -/
def carryOut (now : Nat) (w : Work σ Unit) (s : Session σ) : Session σ :=
  match w.advance s.world with
  | (.finished _, world) => { s with world := world }
  | (.paused nanos rest, world) =>
    { s with world := world, paused := s.paused ++ [⟨now + nanos, rest⟩] }

/-- The loop goes on with a cause if it is there. -/
def poll (h : Host σ κ β ω) (now : Nat) (cause : Cause) (s : Session σ) : Session σ :=
  match s.loop with
  | none => s
  | some l =>
    let server := h.server s.world
    if l.isReady server (expiry l.deadline ≤ now) cause then
      let r := l.step server now (h.clock s.world) cause
      let s := { s with world := h.withServer r.server s.world, loop := some r.loop }
      match r.dispatched with
      | none => s
      | some task => s.carryOut now (h.perform task)
    else s

/-- Tasks whose pause is over go on, in the order in which they paused. -/
def resume (now : Nat) (s : Session σ) : Session σ :=
  let due := s.paused.filter fun p => expiry p.wakes ≤ now
  let later := s.paused.filter fun p => !(expiry p.wakes ≤ now)
  due.foldl (fun s p => s.carryOut now p.rest) { s with paused := later }

/-- All that happens at one instant. What is pushed meanwhile notifies the loop, which takes that
up before time goes on. -/
def settle (h : Host σ κ β ω) (now : Nat) (s : Session σ) : Session σ :=
  let s := (s.poll h now .signal).poll h now .notification
  let s := (s.poll h now .timer).resume now
  let s := { s with world := h.react s.world }
  (s.poll h now .signal).poll h now .notification

/-- Timers that are set. -/
def timers (s : Session σ) : List Nat :=
  let pauses := s.paused.map fun p => expiry p.wakes
  match s.loop with
  | some l => if l.ended then pauses else expiry l.deadline :: pauses
  | none => pauses

/-- The next event after `now`, at the latest at `target`. -/
def nextEvent (now target : Nat) (s : Session σ) : Nat :=
  (s.timers.filter (now < ·)).foldl min target

/-- Let time pass from `now` to `target`. -/
def advance (h : Host σ κ β ω) (now target : Nat) (s : Session σ) : Session σ :=
  if hlt : now < target then
    let event := s.nextEvent now target
    if _he : now < event then
      let s := { s with world := h.pass (event - now) s.world }
      advance h event target (s.settle h event)
    else s
  else s
termination_by target - now

/-- Carry out work while the session goes on around it; its pauses take time. The answer comes
with the instant at which the work is done. -/
def await {α : Type} (h : Host σ κ β ω) (now : Nat) (s : Session σ) :
    Work σ α → α × Nat × Session σ
  | .done a => (a, now, s)
  | .look next => await h now s (next s.world)
  | .put world next => await h now { s with world := world } next
  | .pause nanos next =>
    if nanos = 0 then await h now s next
    else
      let target := expiry (now + nanos)
      await h target ((s.settle h now).advance h now target) next

/-- Begin the dispatch loop. -/
def start (now : Nat) (stop : Bool) (s : Session σ) : Session σ :=
  { s with loop := some (Loop.start (.holding stop) now) }

/-- Write the stop signal; the answer says whether a loop is there to receive it. -/
def write (stop : Bool) (s : Session σ) : Bool × Session σ :=
  match s.loop with
  | none => (false, s)
  | some l =>
    if l.ended then (false, s)
    else (true, { s with loop := some { l with signal := l.signal.write stop } })

/-- Write true to the stop signal or drop it, and let the loop end; the answer says whether it
has. -/
def stop (h : Host σ κ β ω) (now : Nat) (drop : Bool) (s : Session σ) : Bool × Session σ :=
  match s.loop with
  | none => (false, s)
  | some l =>
    let signal := if drop then l.signal.drop else l.signal.write true
    let s := ({ s with loop := some { l with signal := signal } }).settle h now
    (!s.isRunning, { s with loop := none })

end Session

end HomeScenes.Dispatch
