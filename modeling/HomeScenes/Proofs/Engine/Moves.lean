import HomeScenes.Engine.Run
import HomeScenes.Engine.Upkeep

/-!
# Moves of the engine

What can happen to an engine, one thing after another: it is told to schedule, arm, disarm
or delete, an attribute changes, the clock is read later, a due task is handed out, or a
task that was handed out runs. Several tasks may be handed out before the first of them
runs, and they may run in any order.
-/

namespace HomeScenes

/-- An engine and the tasks that were handed out and have not run. -/
structure Moment where
  engine : Engine
  handed : List EngineTask

inductive Move where
  | addScene (s : Scene)
  | addById (scene : SceneId)
  | addForDay (day : LocalTime)
  | drop (scene : SceneId)
  | restart (scene : SceneId)
  | arm (scene : SceneId)
  | disarm (scene : SceneId)
  | change (device : DeviceId) (attr : AttributeRef)
  | save (s : Scene)
  | deleteScene (scene : SceneId)
  | deleteDevice (device : DeviceId)
  /-- The devices behave in some way. -/
  | network (network : Network)
  | advance (utc : Instant)
  | tick
  /-- The task at a place among those that were handed out runs. -/
  | run (place : Nat)

namespace Moment

def handOut (m : Moment) : Moment :=
  match m.engine.server.tick m.engine.now with
  | (.ready t, server) => ⟨{ m.engine with server := server }, m.handed ++ [t]⟩
  | (_, server) => ⟨{ m.engine with server := server }, m.handed⟩

def runAt (m : Moment) (place : Nat) : Moment :=
  match m.handed[place]? with
  | some t => ⟨((Engine.perform t).run m.engine).2, m.handed.eraseIdx place⟩
  | none => m

def apply (m : Moment) : Move → Moment
  | .addScene s => { m with engine := (m.engine.addScene s).2 }
  | .addById scene => { m with engine := (m.engine.addSceneById scene).2 }
  | .addForDay day => { m with engine := (m.engine.addForDay day).2 }
  | .drop scene => { m with engine := (m.engine.dropFirings scene).2 }
  | .restart scene => { m with engine := (m.engine.restart scene).2 }
  | .arm scene => { m with engine := (m.engine.arm scene).2 }
  | .disarm scene => { m with engine := (m.engine.disarm scene).2 }
  | .change device attr => { m with engine := (m.engine.deviceChanged device attr).2 }
  | .save s => { m with engine := (m.engine.saveScene s).2 }
  | .deleteScene scene => { m with engine := (m.engine.deleteScene scene).2 }
  | .deleteDevice device => { m with engine := (m.engine.deleteDevice device).2 }
  | .network network => { m with engine := m.engine.changeNetwork fun _ => network }
  | .advance utc =>
    { m with engine := { m.engine with clock := { m.engine.clock with utc := utc } } }
  | .tick => m.handOut
  | .run place => m.runAt place

/-- Moves one after another, each of them allowed where it is made. -/
inductive Runs (allowed : Moment → Move → Prop) (m : Moment) : Moment → Prop where
  | refl : Runs allowed m m
  | step {r : Moment} (before : Runs allowed m r) (move : Move) (ok : allowed r move) :
      Runs allowed m (r.apply move)

variable {allowed : Moment → Move → Prop} {m r s : Moment}

theorem Runs.trans (hr : Runs allowed m r) (hs : Runs allowed r s) : Runs allowed m s := by
  induction hs with
  | refl => exact hr
  | step before move ok ih => exact ih.step move ok

/-- What holds at first and is kept by the moves that are allowed holds all the time. -/
theorem Runs.invariant {P : Moment → Prop} (run : Runs allowed m r) (first : P m)
    (kept : ∀ s move, allowed s move → P s → P (s.apply move)) : P r := by
  induction run with
  | refl => exact first
  | step before move ok ih => exact kept _ move ok ih

/-- An engine that was started on given stores, before anything else happened. -/
def started (settings : Engine.Settings) (clock : LocalTime) (scenes : SceneStore)
    (devices : DeviceStore) (network : Network) (journal : Journal Ticket) : Moment :=
  ⟨(Engine.ofParts settings clock scenes devices network journal).start.2, []⟩

end Moment

end HomeScenes
