import HomeScenes.Dispatch.Session
import HomeScenes.Engine.Run

/-!
# The hub

An engine with its dispatch loop. Before the hub is live its clock stands still and
pauses take no time; from then on the clock runs with the time of the session, the loop
dispatches due tasks, and a task that waits for a device does not hold up the others.
-/

namespace HomeScenes

structure Hub where
  session : Dispatch.Session Engine
  /-- Nanoseconds since the hub was made. -/
  elapsed : Nat
  live : Bool

namespace Hub

open Dispatch

def host : Host Engine Ticket Duty Target where
  server e := e.server
  withServer server e := { e with server := server }
  clock e := e.now
  pass nanos e := { e with clock := e.clock.shift nanos }
  perform task := (Engine.perform task).bind fun _ => .done ()
  react e := e.react

def ofEngine (e : Engine) : Hub :=
  ⟨.ofWorld e, 0, false⟩

def engine (h : Hub) : Engine := h.session.world

/-- What happens once a step is over: listeners handle what it published, and the loop takes up
what it pushed. -/
def settle (h : Hub) : Hub :=
  if h.live then { h with session := h.session.settle host h.elapsed }
  else { h with session := { h.session with world := h.session.world.react } }

/-- Carry out one step on the engine. -/
def step {α : Type} (h : Hub) (w : Work Engine α) : α × Hub :=
  if h.live then
    let (a, elapsed, session) := h.session.await host h.elapsed w
    (a, ({ h with session := session, elapsed := elapsed }).settle)
  else
    let (a, engine) := w.run h.session.world
    (a, ({ h with session := { h.session with world := engine } }).settle)

/-- Start the engine and its loop; the clock runs from now on. -/
def start (h : Hub) : TaskResult × Hub :=
  let (result, e) := h.engine.start
  let session := { h.session with world := e }
  let session := match result with
    | .ok _ => session.start h.elapsed false
    | .error _ => session
  (result, ({ h with session := session, live := true }).settle)

/-- Let time pass. -/
def sleep (h : Hub) (nanos : Nat) : Hub :=
  let target := h.elapsed + nanos
  if h.live then
    let session := (h.session.settle host h.elapsed).advance host h.elapsed target
    { h with session := session, elapsed := target }
  else { h with elapsed := target }

/-- End the loop and all listeners; the answer is how many ended. -/
def stop (h : Hub) (drop : Bool) : Nat × Hub :=
  let listeners := h.engine.listeners.length
  let (ended, session) := h.session.stop host h.elapsed drop
  let session := { session with world := { session.world with listeners := [] } }
  ((if ended then 1 else 0) + listeners, { h with session := session })

end Hub

end HomeScenes
