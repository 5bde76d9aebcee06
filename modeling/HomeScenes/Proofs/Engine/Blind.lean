import HomeScenes.Proofs.Engine.History
import HomeScenes.Proofs.Work

/-!
# Nothing depends on the log

The journal, what it was told, and whether it is out of order make up the log of an engine. No
operation and no body of a task takes notice of it: with another log they do the same, give the
same answers, and leave the other log as it was.
-/

namespace HomeScenes

structure Engine.Log where
  journal : Journal Ticket
  entries : List JournalEntry
  outage : Option Failure

namespace Engine

def log (e : Engine) : Log :=
  ⟨e.journal, e.entries, e.outages.journal⟩

def withLog (e : Engine) (l : Log) : Engine :=
  { e with
    journal := l.journal
    entries := l.entries
    outages := { e.outages with journal := l.outage } }

@[simp] theorem withLog_log (e : Engine) : e.withLog e.log = e := rfl

variable (e : Engine) (l : Log)

@[simp] theorem loadScene_withLog (scene : SceneId) :
    (e.withLog l).loadScene scene = e.loadScene scene := rfl

@[simp] theorem enqueue_withLog (r : Errand) :
    (e.withLog l).enqueue r = (e.enqueue r).withLog l := rfl

@[simp] theorem enqueueAll_withLog (rs : List Errand) :
    (e.withLog l).enqueueAll rs = (e.enqueueAll rs).withLog l := by
  induction rs generalizing e with
  | nil => rfl
  | cons r rs ih => exact ih (e.enqueue r)

@[simp] theorem forgetPending_withLog (scene : SceneId) (task : Ticket) :
    (e.withLog l).forgetPending scene task = (e.forgetPending scene task).withLog l := by
  simp only [forgetPending, withLog]
  split <;> rfl

@[simp] theorem removeTasks_withLog (ids : List Ticket) :
    ((e.withLog l).removeTasks ids).2 = (e.removeTasks ids).2.withLog l := by
  rw [removeTasks_eq, removeTasks_eq]
  induction ids generalizing e with
  | nil => rfl
  | cons id ids ih => exact ih { e with server := (e.server.remove id).2 }

@[simp] theorem dropFirings_withLog (scene : SceneId) :
    ((e.withLog l).dropFirings scene).2 = (e.dropFirings scene).2.withLog l :=
  removeTasks_withLog { e with pending := e.pending.erase scene } l _

@[simp] theorem addScene_withLog (s : Scene) :
    (e.withLog l).addScene s = ((e.addScene s).1, (e.addScene s).2.withLog l) := by
  rw [addScene_eq, addScene_eq, ← enqueueAll_withLog]
  rfl

@[simp] theorem addForDay_withLog (day : LocalTime) :
    (e.withLog l).addForDay day = ((e.addForDay day).1, (e.addForDay day).2.withLog l) := by
  cases working : e.outages.scenes with
  | none =>
    have still : (e.withLog l).outages.scenes = none := working
    rw [addForDay_eq _ day working, addForDay_eq _ day still, ← enqueueAll_withLog]
    rfl
  | some failure => simp [addForDay, withLog, working]

@[simp] theorem addById_withLog (scene : SceneId) :
    (e.withLog l).addSceneById scene =
      ((e.addSceneById scene).1, (e.addSceneById scene).2.withLog l) := by
  simp only [addSceneById, loadScene_withLog, addScene_withLog]
  split <;> rfl

@[simp] theorem arrange_withLog (time : LocalTime) :
    (e.withLog l).arrange time = ((e.arrange time).1, (e.arrange time).2.withLog l) := by
  simp only [arrange, addArrangement_eq, enqueue_withLog, addForDay_withLog]

@[simp] theorem start_withLog : (e.withLog l).start = (e.start.1, e.start.2.withLog l) := by
  simp only [start, show (e.withLog l).clock = e.clock from rfl, addForDay_withLog]
  rcases e.addForDay e.clock with ⟨failure | count, r⟩ <;> rfl

@[simp] theorem setArmed_withLog (scene : SceneId) (armed : Bool) :
    (e.withLog l).setArmed scene armed =
      ((e.setArmed scene armed).1, (e.setArmed scene armed).2.withLog l) := by
  simp only [setArmed, withLog]
  split
  · rfl
  · split <;> rfl

@[simp] theorem restart_withLog (scene : SceneId) :
    (e.withLog l).restart scene = ((e.restart scene).1, (e.restart scene).2.withLog l) := by
  simp only [restart, dropFirings_withLog, loadScene_withLog]
  split
  · rfl
  · split
    · rw [addScene_withLog]
    · rfl

@[simp] theorem arm_withLog (scene : SceneId) :
    (e.withLog l).arm scene = ((e.arm scene).1, (e.arm scene).2.withLog l) := by
  simp only [arm, setArmed_withLog]
  rcases e.setArmed scene true with ⟨failure | done, r⟩
  · rfl
  · simp only [loadScene_withLog, dropFirings_withLog]
    split
    · rfl
    · split
      · rw [addScene_withLog]
      · rfl

@[simp] theorem disarm_withLog (scene : SceneId) :
    (e.withLog l).disarm scene = ((e.disarm scene).1, (e.disarm scene).2.withLog l) := by
  simp only [disarm, dropFirings_withLog, setArmed_withLog]

@[simp] theorem deviceChanged_withLog (device : DeviceId) (attr : AttributeRef) :
    (e.withLog l).deviceChanged device attr =
      ((e.deviceChanged device attr).1, (e.deviceChanged device attr).2.withLog l) := by
  cases working : e.outages.scenes with
  | none =>
    have still : (e.withLog l).outages.scenes = none := working
    refine Prod.ext ?_ ?_
    · simp only [deviceChanged, working, still]
      rfl
    · rw [deviceChanged_eq _ _ _ still, deviceChanged_eq _ _ _ working, enqueueAll_withLog]
      rfl
  | some failure => simp [deviceChanged, withLog, working]

@[simp] theorem runScene_withLog (h : Handle Ticket) (scene : SceneId) (lineage : List SceneId) :
    (e.withLog l).runScene h scene lineage =
      ((e.runScene h scene lineage).1, (e.runScene h scene lineage).2.withLog l) := by
  rw [runScene_eq, runScene_eq, loadScene_withLog]
  split
  · rfl
  · split <;> rfl

@[simp] theorem fanOut_withLog (start : Instant) (lineage : List SceneId) (parent : Ticket)
    (actions : List Action) :
    fanOut start lineage parent actions (e.withLog l) =
      (fanOut start lineage parent actions e).withLog l := by
  rw [fanOut_eq, fanOut_eq, ← enqueueAll_withLog]
  rfl

@[simp] theorem changeScenes_withLog (change : SceneStore → Except Failure SceneStore) :
    (e.withLog l).changeScenes change =
      ((e.changeScenes change).1, (e.changeScenes change).2.withLog l) := by
  simp only [changeScenes, withLog]
  split
  · rfl
  · split <;> rfl

@[simp] theorem deleteDevice_withLog (device : DeviceId) :
    (e.withLog l).deleteDevice device =
      ((e.deleteDevice device).1, (e.deleteDevice device).2.withLog l) := by
  simp only [deleteDevice, show (e.withLog l).outages.devices = e.outages.devices from rfl,
    show (e.withLog l).devices = e.devices from rfl, show (e.withLog l).now = e.now from rfl]
  split
  · rfl
  · split <;> rfl

end Engine

def Event.silence : Event → Event
  | .outage outages => .outage { outages with journal := none }
  | event => event

namespace Moment

open Engine

theorem handOut_withLog (e : Engine) (l : Log) (handed : List EngineTask) :
    (Moment.mk (e.withLog l) handed).handOut =
      ⟨(Moment.mk e handed).handOut.engine.withLog l, (Moment.mk e handed).handOut.handed⟩ := by
  simp only [handOut, show (e.withLog l).server = e.server from rfl,
    show (e.withLog l).now = e.now from rfl]
  split <;> rfl

/-- The engine alone changes when neither a task is handed out nor run. -/
theorem handed_outer (m : Moment) {event : Event} (outer : event.Outer) :
    (m.happen event).handed = m.handed := by
  have happens := happens m event
  generalize m.happen event = r at happens ⊢
  cases happens with
  | within => rfl
  | opened => rfl
  | around => rfl
  | tick => exact outer.elim
  | run => exact outer.elim

/-- With another log, an event in which no task runs does the same to everything else. -/
theorem happen_withLog (e : Engine) (l : Log) (handed : List EngineTask) {event : Event}
    (outer : event.Outer) : ∃ outage, (happen ⟨e.withLog l, handed⟩ event).engine =
      (happen ⟨e, handed⟩ event.silence).engine.withLog { l with outage := outage } := by
  cases event with
  | start => exact ⟨l.outage, by simp [happen, Event.silence]⟩
  | arrange time => exact ⟨l.outage, rfl⟩
  | outage outages => exact ⟨outages.journal, rfl⟩
  | move move =>
    refine ⟨l.outage, ?_⟩
    cases move with
    | tick => exact outer.elim
    | run place => exact outer.elim
    | deleteScene scene =>
      exact congrArg Prod.snd (changeScenes_withLog e l fun scenes => scenes.softDelete scene e.now)
    | save s => exact congrArg Prod.snd (changeScenes_withLog e l fun scenes => scenes.save s)
    | network network => rfl
    | advance utc => rfl
    | _ => simp [happen, apply, Event.silence]

end Moment

namespace Engine

/-- The same engine, but for the log. -/
def Unlogged (e r : Engine) : Prop :=
  ∃ l, r = e.withLog l

/-- Work that takes no notice of the log. -/
abbrev Blind {α : Type} (w : Work Engine α) : Prop :=
  w.Alike Unlogged w

theorem blind_change {α : Type} {f : Engine → α × Engine}
    (same : ∀ e l, f (e.withLog l) = ((f e).1, (f e).2.withLog l)) : Blind (.change f) := by
  refine .look fun e r unlogged => ?_
  obtain ⟨l, rfl⟩ := unlogged
  rw [same]
  exact .put ⟨l, rfl⟩ (.done _)

theorem statusHolds_blind (device : DeviceId) (attr : AttributeRef) (comparison : Comparison)
    (expected : AttributeValue) : Blind (statusHolds device attr comparison expected) := by
  refine .look fun e r unlogged => ?_
  obtain ⟨l, rfl⟩ := unlogged
  simp only [show (e.withLog l).readDevice device false = e.readDevice device false from rfl,
    show (e.withLog l).network = e.network from rfl]
  split
  · split
    · exact .pause _ (.done false)
    · exact .done _
  · exact .done false

theorem conditionHolds_blind (timed : Bool) (c : Condition) : Blind (conditionHolds timed c) := by
  rw [conditionHolds]
  split
  · exact .done timed
  · exact statusHolds_blind _ _ _ _

theorem allHold_blind (timed : Bool) (cs : List Condition) : Blind (allHold timed cs) := by
  induction cs with
  | nil => exact .done true
  | cons c cs ih =>
    refine (conditionHolds_blind timed c).bind fun b => ?_
    cases b with
    | true => exact ih
    | false => exact .done false

theorem anyHolds_blind (timed : Bool) (cs : List Condition) : Blind (anyHolds timed cs) := by
  induction cs with
  | nil => exact .done false
  | cons c cs ih =>
    refine (conditionHolds_blind timed c).bind fun b => ?_
    cases b with
    | true => exact .done true
    | false => exact ih

theorem acts_blind (s : Scene) (timed : Bool) : Blind (acts s timed) := by
  rw [acts]
  split
  · refine .look fun e r unlogged => ?_
    obtain ⟨l, rfl⟩ := unlogged
    rw [show (e.withLog l).clock = e.clock from rfl, satisfied]
    split
    · exact .done false
    · split
      · exact .done false
      · split
        · exact allHold_blind timed s.conditions
        · exact anyHolds_blind timed s.conditions
  · exact .done true

theorem control_blind (device : DeviceId) (cs : List Command) : Blind (control device cs) := by
  induction cs with
  | nil => exact .done _
  | cons c cs ih =>
    refine .look fun e r unlogged => ?_
    obtain ⟨l, rfl⟩ := unlogged
    simp only [show (e.withLog l).readDevice device false = e.readDevice device false from rfl,
      show (e.withLog l).network = e.network from rfl, show (e.withLog l).now = e.now from rfl]
    split
    · exact .done _
    · exact .done _
    · split
      · exact .pause _ (.done _)
      · exact .put ⟨l, rfl⟩ (.done _)
      · exact .put ⟨l, rfl⟩ ih

theorem fire_blind (h : Handle Ticket) (scene : SceneId) (lineage : List SceneId) (timed : Bool) :
    Blind (fire h scene lineage timed) := by
  refine .look fun e r unlogged => ?_
  obtain ⟨l, rfl⟩ := unlogged
  dsimp only
  rw [forgetPending_withLog, loadScene_withLog]
  refine .put ⟨l, rfl⟩ ?_
  split
  · exact .done _
  · refine (acts_blind _ timed).bind fun yes => ?_
    split
    · refine .look fun e r unlogged => ?_
      obtain ⟨l, rfl⟩ := unlogged
      rw [fanOut_withLog]
      exact .put ⟨l, rfl⟩ (.done _)
    · exact .done _

/-- The body of a task takes no notice of the log. -/
theorem body_blind (d : Duty) (h : Handle Ticket) : Blind (body d h) := by
  cases d with
  | fire scene lineage timed => exact fire_blind h scene lineage timed
  | arrange time => exact blind_change fun e l => arrange_withLog e l time
  | act kind lineage =>
    cases kind with
    | control device commands => exact control_blind device commands
    | run scene => exact blind_change fun e l => runScene_withLog e l h scene lineage
    | enable scene => exact blind_change fun e l => arm_withLog e l scene
    | disable scene => exact blind_change fun e l => disarm_withLog e l scene

end Engine

end HomeScenes
