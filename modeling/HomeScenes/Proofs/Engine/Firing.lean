import HomeScenes.Proofs.Engine.Evaluation
import HomeScenes.Proofs.Engine.Records
import HomeScenes.Proofs.Engine.Stored

/-!
# Firings act on live scenes

Whatever happened to a scene since a firing of it was queued, the firing judges the scene as it
is stored when it runs. It queues actions only if the scene is stored and not deleted and, if it
is automatic, armed, in effect and with conditions that hold for this kind of firing. Otherwise
the run takes the firing out of the index and the journal is told of it, and that is all.

A run is one step: nothing else happens while it waits for a device.
-/

namespace HomeScenes

def Duty.firing? : Duty → Option (SceneId × List SceneId × Bool)
  | .fire scene lineage timed => some (scene, lineage, timed)
  | _ => none

theorem Duty.eq_fire {d : Duty} {scene : SceneId} {lineage : List SceneId} {timed : Bool}
    (h : d.firing? = some (scene, lineage, timed)) : d = .fire scene lineage timed := by
  cases d <;> cases h
  rfl

namespace Engine

variable {e : Engine} {t : EngineTask} {m : Moment} {past : List (Moment × Event)}

structure ActsOn (e : Engine) (scene : SceneId) (timed : Bool) (s : Scene) : Prop where
  working : e.outages.scenes = none
  stored : e.scenes.scenes.find? scene = some s
  live : s.isDeleted = false
  met : s.automatic = true → e.Met timed s

/-- Scenes that can be read are those that are stored and not deleted. -/
theorem actsOn_iff {scene : SceneId} {timed : Bool} {s : Scene} : e.ActsOn scene timed s ↔
    e.loadScene scene = .ok s ∧ ((acts s timed).run e).1 = true := by
  rw [loadScene_ok, SceneStore.get?_live_iff, acts_iff]
  constructor
  · exact fun h => ⟨⟨h.working, h.stored, h.live⟩, h.met⟩
  · rintro ⟨⟨working, stored, live⟩, met⟩
    exact ⟨working, stored, live, met⟩

/-- The same engine, but for the index and the journal. -/
def Rebooked (e r : Engine) : Prop :=
  ∃ pending journal entries, r = { e with pending := pending, journal := journal, entries := entries }

theorem rebooked_forgetPending (e : Engine) (scene : SceneId) (task : Ticket) :
    Rebooked e (e.forgetPending scene task) :=
  ⟨_, e.journal, e.entries, forgetPending_frame e scene task⟩

theorem rebooked_recordStart (e : Engine) (h : Handle Ticket) (target : Target) :
    Rebooked e (e.recordStart h target) :=
  ⟨e.pending, _, _, recordStart_eq e h target⟩

theorem Rebooked.refl (e : Engine) : Rebooked e e :=
  ⟨e.pending, e.journal, e.entries, rfl⟩

theorem Rebooked.trans {a b c : Engine} (hab : Rebooked a b) (hbc : Rebooked b c) :
    Rebooked a c := by
  obtain ⟨pending, journal, entries, rfl⟩ := hab
  obtain ⟨pending', journal', entries', rfl⟩ := hbc
  exact ⟨pending', journal', entries', rfl⟩

theorem Rebooked.symm {r : Engine} (same : Rebooked e r) : Rebooked r e := by
  obtain ⟨pending, journal, entries, rfl⟩ := same
  exact ⟨e.pending, e.journal, e.entries, rfl⟩

theorem Rebooked.holds {r : Engine} (same : Rebooked e r) {timed : Bool} {c : Condition}
    (h : e.Holds timed c) : r.Holds timed c := by
  obtain ⟨pending, journal, entries, rfl⟩ := same
  exact h.congr rfl rfl rfl

theorem Rebooked.actsOn {r : Engine} (same : Rebooked e r) {scene : SceneId} {timed : Bool}
    {s : Scene} (h : e.ActsOn scene timed s) : r.ActsOn scene timed s := by
  have holds : ∀ c, e.Holds timed c → r.Holds timed c := fun c => same.holds
  obtain ⟨pending, journal, entries, rfl⟩ := same
  refine ⟨h.working, h.stored, h.live, fun own => ?_⟩
  have met := h.met own
  exact ⟨met.armed, met.weekday, met.window, fun all c hc => holds c (met.all all c hc),
    fun any => (met.any any).imp fun c hc => ⟨hc.1, holds c hc.2⟩⟩

/-- Whether a scene acts does not depend on the books. -/
theorem Rebooked.actsOn_iff {r : Engine} (same : Rebooked e r) {scene : SceneId} {timed : Bool}
    {s : Scene} : r.ActsOn scene timed s ↔ e.ActsOn scene timed s :=
  ⟨same.symm.actsOn, same.actsOn⟩

def answer (e : Engine) (scene : SceneId) : TaskResult :=
  (e.loadScene scene).map fun _ => ()

def actionsOf (e : Engine) (h : Handle Ticket) (scene : SceneId) (lineage : List SceneId)
    (s : Scene) : List Errand :=
  s.actions.filterMap (e.errand? e.now (lineage ++ [scene]) h.id)

/-- What a firing queues: the actions of the scene it acts on, or nothing if there is none. -/
inductive Queues (e : Engine) (h : Handle Ticket) (scene : SceneId) (lineage : List SceneId)
    (timed : Bool) : List Errand → Prop where
  | acts {s : Scene} (acts : e.ActsOn scene timed s) :
      Queues e h scene lineage timed (e.actionsOf h scene lineage s)
  | rests (rests : ∀ s, ¬ e.ActsOn scene timed s) : Queues e h scene lineage timed []

/-- A firing leaves the index, reads its scene, and queues what it has to. -/
theorem run_fire (e : Engine) (h : Handle Ticket) (scene : SceneId) (lineage : List SceneId)
    (timed : Bool) : ∃ rs, e.Queues h scene lineage timed rs ∧
      (fire h scene lineage timed).run e =
        (e.answer scene, (e.forgetPending scene h.id).enqueueAll rs) := by
  have same := rebooked_forgetPending e scene h.id
  have load : (e.forgetPending scene h.id).loadScene scene = e.loadScene scene := by
    rw [forgetPending_frame]
    rfl
  rw [fire, Work.run, Work.run, load, answer]
  cases loaded : e.loadScene scene with
  | error failure =>
    refine ⟨[], .rests fun s acts => ?_, rfl⟩
    have read := (Engine.actsOn_iff.mp acts).1
    rw [loaded] at read
    cases read
  | ok s =>
    have judged : ((acts s timed).run (e.forgetPending scene h.id)).1 = true ↔
        e.ActsOn scene timed s := by
      rw [← same.actsOn_iff, Engine.actsOn_iff, load, loaded]
      exact (and_iff_right rfl).symm
    simp only [Work.run_bind, acts_quiet s timed (e.forgetPending scene h.id)]
    by_cases acts : e.ActsOn scene timed s
    · refine ⟨_, .acts acts, ?_⟩
      rw [if_pos (judged.mpr acts), Work.run, Work.run, Work.run, fanOut_eq, forgetPending_frame]
      rfl
    · refine ⟨[], .rests fun other own => ?_, ?_⟩
      · have read := (Engine.actsOn_iff.mp own).1
        rw [loaded] at read
        cases read
        exact acts own
      · rw [if_neg (mt judged.mp acts)]
        rfl

/-- A run of a firing that was handed out, with the journal kept for its target. -/
theorem runAt_fire {place : Nat} {scene : SceneId} {lineage : List SceneId} {timed : Bool}
    {target : Target} (found : m.handed[place]? = some t)
    (duty : t.body = .fire scene lineage timed) (wrapped : t.wrappers = [target]) :
    ∃ rs, m.engine.Queues t.handle scene lineage timed rs ∧
      ((perform t).run m.engine).1 = m.engine.answer scene ∧
      m.runAt place = ⟨((((m.engine.recordStart t.handle target).forgetPending scene
        t.id).enqueueAll rs).recordResult t.handle (m.engine.answer scene)),
          m.handed.eraseIdx place⟩ := by
  obtain ⟨rs, queues, ran⟩ := run_fire (m.engine.recordStart t.handle target) t.handle scene
    lineage timed
  have same := rebooked_recordStart m.engine t.handle target
  have answered : (m.engine.recordStart t.handle target).answer scene = m.engine.answer scene := by
    rw [recordStart_eq]
    rfl
  have performed : (perform t).run m.engine = (m.engine.answer scene,
      (((m.engine.recordStart t.handle target).forgetPending scene t.id).enqueueAll
        rs).recordResult t.handle (m.engine.answer scene)) := by
    rw [perform, Task.run, wrapped, List.foldl_cons, List.foldl_nil, journaled, Work.run, Work.run,
      Work.run_bind, duty, body, ran, answered]
    rfl
  refine ⟨rs, ?_, ?_, ?_⟩
  · cases queues with
    | @acts s acts =>
      have listed : (m.engine.recordStart t.handle target).actionsOf t.handle scene lineage s =
          m.engine.actionsOf t.handle scene lineage s := by
        rw [recordStart_eq]
        rfl
      rw [listed]
      exact .acts (same.actsOn_iff.mp acts)
    | rests rests => exact .rests fun s acts => rests s (same.actsOn_iff.mpr acts)
  · rw [performed]
  · rw [Moment.runAt, found]
    simp only [performed]

/-- All that is left of a task that ran for nothing: it is not in the index any more, and the
journal was told that it started and how it ended. -/
structure Vain (e : Engine) (t : EngineTask) (result : TaskResult) (after : Engine) : Prop where
  rest : after = { e with
    pending := after.pending, journal := after.journal, entries := after.entries }
  noted : ∀ scene, after.noted scene = (e.noted scene).filter (· ≠ t.id)
  entries : ∃ target, after.entries = e.entries ++ [.started t.id t.handle.parent target,
    .ended t.id (.ofResult result) (failureText result)]
  journal : e.journal.Others t.id t.handle.parent after.journal

theorem vain_run {target : Target} {handed : List EngineTask} {scene : SceneId}
    {lineage : List SceneId} {timed : Bool} (consistent : Consistent e (t :: handed))
    (duty : t.body = .fire scene lineage timed) (result : TaskResult) :
    e.Vain t result
      (((e.recordStart t.handle target).forgetPending scene t.id).recordResult t.handle result) := by
  have started := recordStart_eq e t.handle target
  have forgotten := forgetPending_frame (e.recordStart t.handle target) scene t.id
  constructor
  · rw [recordResult_eq, forgotten, started]
  · intro other
    have same : (((e.recordStart t.handle target).forgetPending scene t.id).recordResult t.handle
        result).noted other =
          if other = scene then (e.noted other).filter (· ≠ t.id) else e.noted other := by
      rw [recordResult_eq]
      refine (noted_forgetPending _ scene t.id other).trans ?_
      rw [started]
      rfl
    rw [same]
    split
    · rfl
    · rename_i differ
      refine (List.filter_eq_self.mpr fun id hid => decide_eq_true ?_).symm
      rintro rfl
      obtain ⟨u, hu, id, timer⟩ := consistent.known other t.id hid
      rw [consistent.same hu (List.mem_append_right _ List.mem_cons_self) id, duty] at timer
      cases timed <;> cases timer
      exact differ rfl
  · refine ⟨target, ?_⟩
    rw [recordResult_eq, forgotten, started]
    exact List.append_assoc _ _ _
  · exact others_recordResult t.handle target result (by rw [forgotten]) (by rw [forgotten, started])

/-- What a firing queues are its children, and actions of the scene it acts on. -/
theorem Queues.child {h : Handle Ticket} {scene : SceneId} {lineage : List SceneId} {timed : Bool}
    {rs : List Errand} (queues : e.Queues h scene lineage timed rs) {r : Errand} (listed : r ∈ rs) :
    ∃ s, e.ActsOn scene timed s ∧ r.parent = some h.id ∧
      ∃ a ∈ s.actions, r.duty = .act a.kind (lineage ++ [scene]) := by
  cases queues with
  | @acts s acts =>
    obtain ⟨a, action, found⟩ := List.mem_filterMap.mp listed
    obtain ⟨target, -, rfl⟩ := Option.map_eq_some_iff.mp found
    exact ⟨s, acts, rfl, a, action, rfl⟩
  | rests rests => cases listed

theorem answer_missing {scene : SceneId} (working : e.outages.scenes = none)
    (gone : ∀ s, e.scenes.scenes.find? scene = some s → s.isDeleted = true) :
    e.answer scene = .error (.missingScene scene) := by
  have none : e.scenes.get? scene false = none := by
    refine Option.eq_none_iff_forall_ne_some.mpr fun s found => ?_
    obtain ⟨stored, live⟩ := SceneStore.get?_live_iff.mp found
    rw [gone s stored] at live
    cases live
  rw [answer, loadScene_eq working, none]
  rfl

theorem answer_found {scene : SceneId} {s : Scene} (working : e.outages.scenes = none)
    (stored : e.scenes.scenes.find? scene = some s) (live : s.isDeleted = false) :
    e.answer scene = .ok () := by
  rw [answer, loadScene_ok.mpr ⟨working, SceneStore.get?_live_iff.mpr ⟨stored, live⟩⟩]
  rfl

theorem answer_failed {scene : SceneId} {failure : Failure}
    (failed : e.outages.scenes = some failure) : e.answer scene = .error failure := by
  rw [answer, loadScene, readScene, failed]
  rfl

/-- A task that is handed out leaves the queue, and nothing else changes. -/
theorem handOut_takes (hv : m.engine.server.queue.Valid)
    (out : m.handOut.handed = m.handed ++ [t]) :
    m.engine.server.queue.tasks.Perm (t :: m.handOut.engine.server.queue.tasks) ∧
      m.handOut.engine = { m.engine with server := m.handOut.engine.server } := by
  obtain ⟨server, -, ⟨same, -⟩ | ⟨u, same, taken, -⟩⟩ := handOut_cases hv
  · rw [same] at out
    have lengths := congrArg List.length out
    rw [List.length_append, List.length_singleton] at lengths
    exact absurd lengths (Nat.ne_of_lt (Nat.lt_succ_self _))
  · rw [same] at out ⊢
    obtain rfl : u = t := by simpa using out
    exact ⟨taken, rfl⟩

/-- In every state that an engine reaches, a firing that was queued leaves the queue when it is
handed out, and nothing else changes. When it runs, all it queues are actions of the scene that is
stored now, as its children, and only if that scene acts. If there is no scene to act on, the run
changes the index and the journal and nothing else. A scene that is missing or deleted makes it
fail, and so does a store that is out of order, but conditions that are not met do not. -/
theorem firings_act_on_live_scenes {settings : Settings} {clock : LocalTime} {scenes : SceneStore}
    {devices : DeviceStore} {network : Network} {journal : Journal Ticket}
    (history : Moment.History (fun _ _ => True)
      (Moment.fresh settings clock scenes devices network journal) past m) :
    (∀ t, m.handOut.handed = m.handed ++ [t] →
      m.engine.server.queue.tasks.Perm (t :: m.handOut.engine.server.queue.tasks) ∧
      m.handOut.engine = { m.engine with server := m.handOut.engine.server }) ∧
    ∀ place t scene lineage timed, m.handed[place]? = some t → t.body = .fire scene lineage timed →
      let result := ((perform t).run m.engine).1
      let after := m.runAt place
      let stored := m.engine.scenes.scenes.find? scene
      after.handed = m.handed.eraseIdx place ∧
      (∀ u ∈ after.engine.server.queue.tasks, u ∉ m.engine.server.queue.tasks →
        ∃ s, m.engine.ActsOn scene timed s ∧ u.handle.parent = some t.id ∧
          ∃ a ∈ s.actions, u.body = .act a.kind (lineage ++ [scene])) ∧
      ((∀ s, ¬ m.engine.ActsOn scene timed s) → m.engine.Vain t result after.engine) ∧
      (m.engine.outages.scenes = none → (∀ s, stored = some s → s.isDeleted = true) →
        result = .error (.missingScene scene)) ∧
      (m.engine.outages.scenes = none → (∃ s, stored = some s ∧ s.isDeleted = false) →
        result = .ok ()) ∧
      ∀ failure, m.engine.outages.scenes = some failure → result = .error failure := by
  obtain ⟨consistent, wrapped⟩ := wrappedOnce_history history
  constructor
  · exact fun t out => handOut_takes consistent.valid out
  · intro place t scene lineage timed found duty result after stored
    obtain ⟨target, wrapped⟩ := wrapped t (List.mem_append_right _ (List.mem_of_getElem? found))
    obtain ⟨rs, queues, answered, ran⟩ := runAt_fire found duty wrapped
    have perm := (runAt_effect found).1
    have answered : result = m.engine.answer scene := answered
    have ran : after = _ := ran
    refine ⟨?_, ?_, ?_, ?_, ?_, ?_⟩
    · rw [ran]
    · intro u hu fresh
      rw [ran, recordResult_eq] at hu
      rcases List.mem_append.mp ((tasks_enqueueAll _ rs).mem_iff.mp hu) with old | new
      · rw [forgetPending_frame, recordStart_eq] at old
        exact absurd old fresh
      · obtain ⟨r, listed, i, rfl, -⟩ := Errand.mem_tasks new
        exact queues.child listed
    · intro rests
      cases queues with
      | acts acts => exact absurd acts (rests _)
      | rests _ =>
        rw [ran, answered]
        exact vain_run (consistent.perm perm.symm) duty _
    · intro working gone
      rw [answered]
      exact answer_missing working gone
    · rintro working ⟨s, found, live⟩
      rw [answered]
      exact answer_found working found live
    · intro failure failed
      rw [answered]
      exact answer_failed failed

/-- A scene that was deleted after it was queued: its firing is handed out, fails and does nothing. -/
theorem firings_act_on_live_scenes_deleted :
    let a : SceneId := ⟨.ofNat 1⟩
    let b : SceneId := ⟨.ofNat 2⟩
    let events := [.move (.save (relay a b)), .move (.save (relay b a)),
      .move (.addScene (relay a b)), .move (.deleteScene a), .move .tick]
    let first := Moment.fresh {} ⟨⟨0, .midnight⟩, 0⟩ {} {} default default
    let m := events.foldl Moment.happen first
    ∃ t, m.handed[0]? = some t ∧ t.body = .fire a [] false ∧
      ((perform t).run m.engine).1 = .error (.missingScene a) ∧
      m.engine.Vain t (.error (.missingScene a)) (m.runAt 0).engine := by
  intro a b events first m
  have out : (m.handed[0]?.bind fun t => t.body.firing?) = some (a, [], false) := by
    decide +kernel
  have working : m.engine.outages.scenes = none := by decide +kernel
  have deleted : (m.engine.scenes.scenes.find? a).all Scene.isDeleted = true := by decide +kernel
  obtain ⟨t, found, fires⟩ := Option.bind_eq_some_iff.mp out
  have duty := Duty.eq_fire fires
  have gone : ∀ s, m.engine.scenes.scenes.find? a = some s → s.isDeleted = true := by
    intro s stored
    rw [stored] at deleted
    exact deleted
  have rests : ∀ s, ¬ m.engine.ActsOn a false s := by
    intro s acts
    have live := acts.live
    rw [gone s acts.stored] at live
    cases live
  obtain ⟨past, history⟩ : ∃ past, Moment.History (fun _ _ => True) first past m :=
    Moment.History.begin.append events fun _ _ _ => trivial
  obtain ⟨-, -, vain, missing, -⟩ :=
    (firings_act_on_live_scenes (m := m) history).2 0 t a [] false found duty
  have fails := missing working gone
  rw [fails] at vain
  exact ⟨t, found, duty, fails, vain rests⟩

/-- The same scene, not deleted, queues its action. -/
example :
    let a : SceneId := ⟨.ofNat 1⟩
    let b : SceneId := ⟨.ofNat 2⟩
    let events := [.move (.save (relay a b)), .move (.save (relay b a)),
      .move (.addScene (relay a b)), .move .tick, .move (.run 0)]
    let first := Moment.fresh {} ⟨⟨0, .midnight⟩, 0⟩ {} {} default default
    (events.foldl Moment.happen first).engine.server.queue.tasks.length = 1 := by
  decide +kernel

end Engine

end HomeScenes
