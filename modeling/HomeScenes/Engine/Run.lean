import HomeScenes.Engine.Evaluation
import HomeScenes.Engine.Schedule

/-!
# Running tasks

What the tasks of the engine do when they are due. A firing reads its scene again and
queues one task for each action; an action controls a device, fires another scene, or
arms or disarms one. The journal is told when a task starts and how it ends.
-/

namespace HomeScenes.Engine

/-- Set attributes of a device, one request for each command, up to the first that fails. The
device is looked up again for each. -/
def control (device : DeviceId) : List Command → Work Engine TaskResult
  | [] => .done (.ok ())
  | c :: cs =>
    .look fun e =>
      match e.readDevice device false with
      | .error failure => .done (.error failure)
      | .ok none => .done (.error (.missingDevice device))
      | .ok (some _) =>
        match e.network.set device [c] e.now with
        | (.silence, _) =>
          .pause e.timeoutNanos
            (.done (.error (.timedOut "set_attributes" e.settings.timeoutMillis)))
        | (.answer (.error failure), network) =>
          .put { e with network := network } (.done (.error failure))
        | (.answer (.ok _), network) =>
          .put { e with network := network } (control device cs)

/-- What an action acts upon, if it is on record; deleted records count. -/
def resolveTarget? (e : Engine) (a : Action) : Option Target :=
  let sceneTarget? (id : SceneId) : Option Target :=
    match e.readScene id true with
    | .ok (some s) => some s.target
    | _ => none
  match a.kind with
  | .control device _ =>
    match e.readDevice device true with
    | .ok (some d) => some (.device d.id d.name)
    | _ => none
  | .run scene => sceneTarget? scene
  | .enable scene => sceneTarget? scene
  | .disable scene => sceneTarget? scene

/-- Queue an action of a firing that started at an instant, if its target is on record. -/
def pushAction (start : Instant) (lineage : List SceneId) (parent : Ticket) (e : Engine)
    (a : Action) : Engine :=
  match e.resolveTarget? a with
  | none => e
  | some target =>
    let task := ((Task.dueAfter e.issued start a.delayNanos (.act a.kind lineage)).withParent
      parent).withLabel a.kind.text
    e.pushTask task target

/-- Queue the actions of a firing in order. -/
def fanOut (start : Instant) (lineage : List SceneId) (parent : Ticket) (actions : List Action)
    (e : Engine) : Engine :=
  actions.foldl (pushAction start lineage parent) e

/-- Whether a scene acts when it is fired; manual scenes always do. -/
def acts (s : Scene) (timed : Bool) : Work Engine Bool :=
  if s.automatic then .look fun e => satisfied s e.clock timed else .done true

/-- Fire a scene as it is stored now. -/
def fire (h : Handle Ticket) (scene : SceneId) (lineage : List SceneId) (timed : Bool) :
    Work Engine TaskResult :=
  .look fun e =>
    let e := e.forgetPending scene h.id
    .put e <|
      match e.loadScene scene with
      | .error failure => .done (.error failure)
      | .ok s =>
        (acts s timed).bind fun yes =>
          if yes then
            .look fun e =>
              .put (fanOut e.now (lineage ++ [scene]) h.id s.actions e) (.done (.ok ()))
          else .done (.ok ())

/-- Fire another scene from an action, unless it is one of those that led to it. -/
def runScene (e : Engine) (h : Handle Ticket) (scene : SceneId) (lineage : List SceneId) :
    TaskResult × Engine :=
  if lineage.contains scene then (.error (.cycle scene lineage), e)
  else match e.loadScene scene with
    | .error failure => (.error failure, e)
    | .ok s => (.ok (), e.pushFiring s e.now lineage false (some h.id))

def act (h : Handle Ticket) (kind : Action.Kind) (lineage : List SceneId) :
    Work Engine TaskResult :=
  match kind with
  | .control device commands => control device commands
  | .run scene => .change fun e => e.runScene h scene lineage
  | .enable scene => .change fun e => e.arm scene
  | .disable scene => .change fun e => e.disarm scene

/-- The body of a task. -/
def body (d : Duty) (h : Handle Ticket) : Work Engine TaskResult :=
  match d with
  | .fire scene lineage timed => fire h scene lineage timed
  | .act kind lineage => act h kind lineage
  | .arrange time => .change fun e => e.arrange time

/-- Tell the journal that a task starts. -/
def recordStart (e : Engine) (h : Handle Ticket) (target : Target) : Engine :=
  let e := { e with entries := e.entries ++ [JournalEntry.started h.id h.parent target] }
  match e.outages.journal with
  | some _ => e
  | none => { e with journal := e.journal.start h.id h.parent target e.now }

/-- Tell the journal how a task ended. A failure of the journal is passed over. -/
def recordResult (e : Engine) (h : Handle Ticket) (result : TaskResult) : Engine :=
  let outcome := Outcome.ofResult result
  let error := match result with
    | .ok _ => none
    | .error failure => some failure.message
  let e := { e with entries := e.entries ++ [JournalEntry.ended h.id outcome error] }
  match e.outages.journal with
  | some _ => e
  | none =>
    match e.journal.finish? h.id outcome error e.now with
    | some journal => { e with journal := journal }
    | none => e

/-- Keep the journal around a body. -/
def journaled (target : Target) (inner : Task.Run (Work Engine) Ticket) :
    Task.Run (Work Engine) Ticket := fun h =>
  .look fun e => .put (e.recordStart h target) <|
    (inner h).bind fun result =>
      .look fun e => .put (e.recordResult h result) (.done result)

/-- Run a task that was handed out. -/
def perform (t : EngineTask) : Work Engine TaskResult :=
  t.run body journaled

/-- A task that ran: its label and its result. -/
structure Ran where
  label : String
  result : TaskResult

/-- Why no more tasks were run. -/
inductive Rest where
  | idle
  | wait (nanos : Nat)
  | limit

/-- Run due tasks one after the other with the clock at rest, at most a given number. -/
def runDue : Nat → Engine → (List Ran × Rest) × Engine
  | 0, e => (([], .limit), e)
  | n + 1, e =>
    match e.server.tick e.now with
    | (.idle, server) => (([], .idle), { e with server := server })
    | (.wait nanos, server) => (([], .wait nanos), { e with server := server })
    | (.ready task, server) =>
      let (result, e) := (perform task).run { e with server := server }
      let ((ran, rest), e) := runDue n e
      ((⟨task.handle.label, result⟩ :: ran, rest), e)

end HomeScenes.Engine
