import HomeScenes.Engine.State

/-!
# Scheduling

How firings, actions and arrangements get into the queue, and how the timer firings of
a scene get out of it again.
-/

namespace HomeScenes

/-- Label of the daily arrangement. -/
def arrangeLabel : String := "arrange_scenes"

def Scene.target (s : Scene) : Target :=
  .scene s.id s.name s.automatic

namespace Engine

/-- Queue a task, wrapped so that the journal is kept for its target. -/
def pushTask (e : Engine) (t : EngineTask) (target : Target) : Engine :=
  { e with server := e.server.push (t.withWrapper target), issued := e.issued + 1 }

/-- Queue a firing of a scene; timer firings are also indexed. -/
def pushFiring (e : Engine) (s : Scene) (due : Instant) (lineage : List SceneId) (timed : Bool)
    (parent : Option Ticket) : Engine :=
  let task := (Task.dueAt e.issued due (.fire s.id lineage timed)).withLabel
    ("scene " ++ Text.quoted s.name)
  let task := match parent with
    | some p => task.withParent p
    | none => task
  let indexed := if timed then e.addPending s.id e.issued else e
  indexed.pushTask task s.target

/-- Queue one firing for each timing condition of a scene on a day, unless its instant lies
before `notBefore`. The answer is the number of firings. -/
def scheduleTimings (e : Engine) (s : Scene) (day notBefore : LocalTime) : Nat × Engine :=
  s.timings.foldl
    (fun (r : Nat × Engine) time =>
      let due := day.onSameDay time
      if due < notBefore then r
      else (r.1 + 1, r.2.pushFiring s due.utc [] true none))
    (0, e)

/-- Schedule a scene: a manual one runs now, an armed automatic one gets the firings that are
still ahead today and, once today's arrangement is past, those of tomorrow. -/
def addScene (e : Engine) (s : Scene) : Nat × Engine :=
  if !s.automatic then (1, e.pushFiring s e.now [] false none)
  else if !s.armed then (0, e)
  else
    let now := e.clock
    let (today, e) := e.scheduleTimings s now now
    if now.onSameDay e.settings.arrangeAt ≤ now then
      let tomorrow := now.addDays 1
      if s.repeatsOn tomorrow.weekday then
        let (more, e) := e.scheduleTimings s tomorrow now
        (today + more, e)
      else (today, e)
    else (today, e)

def addSceneById (e : Engine) (id : SceneId) : Except Failure Nat × Engine :=
  match e.loadScene id with
  | .error failure => (.error failure, e)
  | .ok s =>
    let (count, e) := e.addScene s
    (.ok count, e)

/-- Queue the timer firings of all live scenes that repeat on the weekday of a day. -/
def addForDay (e : Engine) (day : LocalTime) : Except Failure Nat × Engine :=
  match e.outages.scenes with
  | some failure => (.error failure, e)
  | none =>
    let now := e.clock
    let scenes := (e.scenes.armedFor day.weekday).filter Scene.hasTiming
    let (count, e) := scenes.foldl
      (fun (r : Nat × Engine) s =>
        let (count, e) := r.2.scheduleTimings s day now
        (r.1 + count, e))
      (0, e)
    (.ok count, e)

/-- Queue the arrangement that is due at a local time. -/
def addArrangement (e : Engine) (time : LocalTime) : Engine :=
  e.pushTask ((Task.dueAt e.issued time.utc (.arrange time)).withLabel arrangeLabel)
    (.internal arrangeLabel)

/-- The arrangement of a day: the next one is queued first, then the firings of the next day. -/
def arrange (e : Engine) (time : LocalTime) : TaskResult × Engine :=
  let next := time.addDays 1
  let (result, e) := (e.addArrangement next).addForDay next
  (result.map fun _ => (), e)

/-- Queue what is still ahead today, and the arrangement of today. -/
def start (e : Engine) : TaskResult × Engine :=
  let now := e.clock
  match e.addForDay now with
  | (.error failure, e) => (.error failure, e)
  | (.ok _, e) => (.ok (), e.addArrangement (now.onSameDay e.settings.arrangeAt))

/-- Take tasks out of the queue; the answer is the number of those that were queued. -/
def removeTasks (e : Engine) (tasks : List Ticket) : Nat × Engine :=
  tasks.foldl
    (fun (r : Nat × Engine) task =>
      let (removed, server) := r.2.server.remove task
      (if removed then r.1 + 1 else r.1, { r.2 with server := server }))
    (0, e)

/-- Drop all timer firings of a scene that are queued. -/
def dropFirings (e : Engine) (scene : SceneId) : Nat × Engine :=
  let tasks := (e.pending.find? scene).getD []
  removeTasks { e with pending := e.pending.erase scene } tasks

/-- Drop the timer firings of a scene and queue them again as it is stored now. -/
def restart (e : Engine) (scene : SceneId) : TaskResult × Engine :=
  let (_, e) := e.dropFirings scene
  match e.loadScene scene with
  | .error failure => (.error failure, e)
  | .ok s => (.ok (), if s.automatic then (e.addScene s).2 else e)

/-- Arm a scene and queue its firings. -/
def arm (e : Engine) (scene : SceneId) : TaskResult × Engine :=
  match e.setArmed scene true with
  | (.error failure, e) => (.error failure, e)
  | (.ok _, e) =>
    match e.loadScene scene with
    | .error failure => (.error failure, e)
    | .ok s => (.ok (), if s.automatic then ((e.dropFirings scene).2.addScene s).2 else e)

/-- Drop the firings of a scene and disarm it. The firings go even when disarming fails. -/
def disarm (e : Engine) (scene : SceneId) : TaskResult × Engine :=
  (e.dropFirings scene).2.setArmed scene false

/-- Whether a change of an attribute may fire a scene that watches it: not if the scene also
waits for a timer. -/
def firesOnChange (s : Scene) : Bool :=
  !(s.logic = .all && s.hasTiming)

/-- An attribute has changed: fire the live scenes that watch it. -/
def deviceChanged (e : Engine) (device : DeviceId) (attr : AttributeRef) :
    Except Failure Nat × Engine :=
  match e.outages.scenes with
  | some failure => (.error failure, e)
  | none =>
    let now := e.now
    let scenes := (e.scenes.watching device attr).filter firesOnChange
    (.ok scenes.length, scenes.foldl (fun e s => e.pushFiring s now [] false none) e)

/-- Handle the events that one receiver of the bus has. A failure loses the event. -/
def handleEvents (e : Engine) (receiver : Nat) : Engine :=
  match e.network.bus.drain? receiver with
  | none => e
  | some (delivery, bus) =>
    delivery.events.foldl (fun e event => (e.deviceChanged event.device event.attr).2)
      { e with network := { e.network with bus := bus } }

/-- Handle the events that all listeners have. -/
def react (e : Engine) : Engine :=
  e.listeners.foldl handleEvents e

/-- Handle the events of the bus from now on. -/
def listen (e : Engine) : Engine :=
  let (receiver, bus) := e.network.bus.subscribe
  { e with
    network := { e.network with bus := bus }
    listeners := e.listeners ++ [receiver] }

end Engine

end HomeScenes
