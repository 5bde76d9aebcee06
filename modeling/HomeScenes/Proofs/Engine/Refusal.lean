import HomeScenes.Proofs.Engine.Dues
import HomeScenes.Proofs.Engine.Junctures

/-!
# Operations on a scene that is gone

Scheduling, arming, restarting and disarming a scene fail exactly if it is missing or deleted. The
first two have changed nothing then. The other two drop its timer firings before they look at the
scene, so these are gone, and nothing else has changed. The firings of a scene that was deleted stay
queued until one of the two is told so.
-/

namespace HomeScenes

namespace Engine

def Gone (e : Engine) (scene : SceneId) : Prop :=
  ∀ s, e.scenes.scenes.find? scene = some s → s.isDeleted = true

/-- An operation fails exactly if the scene is gone, because it does not find it, and leaves a
certain state then. -/
structure FailsIfGone {α : Type} (e : Engine) (scene : SceneId) (left : Engine → Prop)
    (r : Except Failure α × Engine) : Prop where
  fails : ∀ failure, r.1 = .error failure ↔ failure = .missingScene scene ∧ e.Gone scene
  left : e.Gone scene → left r.2

/-- The only change is that the timer firings of a scene are gone from the queue and from the
index. What the index had noted were those in the queue, and those that were handed out. -/
structure Cleared (e : Engine) (handed : List EngineTask) (scene : SceneId) (r : Engine) :
    Prop where
  queue : r.server.queue.tasks.Perm
    (e.server.queue.tasks.filter fun t => t.body.timer? ≠ some scene)
  index : ∀ other, r.pending.find? other =
    if other = scene then none else e.pending.find? other
  noted : ∀ id ∈ e.noted scene, ∃ t ∈ e.server.queue.tasks ++ handed,
    t.id = id ∧ t.body.timer? = some scene
  frame : r = { e with server := ⟨r.server.queue, e.server.notified⟩, pending := r.pending }

variable {α : Type} {e : Engine} {handed : List EngineTask} {scene : SceneId} {s : Scene}
  {left : Engine → Prop}

theorem gone_iff : e.Gone scene ↔ e.scenes.get? scene false = none := by
  rw [SceneStore.get?, Option.filter_eq_none_iff]
  simp [Gone]

/-- It is enough to know what the operation comes to on a scene that is not found and on one that
is. -/
theorem FailsIfGone.of_found {r : Except Failure α × Engine}
    (missing : e.scenes.get? scene false = none → r.1 = .error (.missingScene scene) ∧ left r.2)
    (stored : ∀ s, e.scenes.get? scene false = some s → ∃ a, r.1 = .ok a) :
    FailsIfGone e scene left r := by
  refine ⟨fun failure => ?_, fun gone => (missing (gone_iff.mp gone)).2⟩
  rw [gone_iff]
  cases found : e.scenes.get? scene false with
  | none =>
    rw [(missing found).1]
    constructor
    · rintro ⟨⟩
      exact ⟨rfl, rfl⟩
    · rintro ⟨rfl, -⟩
      rfl
  | some s =>
    obtain ⟨a, ok⟩ := stored s found
    rw [ok]
    simp

theorem dropFirings_notified (e : Engine) (scene : SceneId) :
    (e.dropFirings scene).2.server.notified = e.server.notified := by
  have all : ∀ (ids : List Ticket) (e : Engine),
      (e.removeTasks ids).2.server.notified = e.server.notified := by
    intro ids
    simp only [removeTasks_eq]
    induction ids with
    | nil => exact fun e => rfl
    | cons id ids ih => exact fun e => (ih _).trans (Dispatch.Server.remove_notified rfl)
  exact all _ _

theorem Consistent.cleared (h : Consistent e handed) (scene : SceneId) :
    Cleared e handed scene (e.dropFirings scene).2 where
  queue := (h.dropFirings scene).2
  index other := by
    rw [dropFirings_frame, Table.find?_erase]
  noted := h.known scene
  frame := by
    rw [← dropFirings_notified e scene, dropFirings_frame]

theorem addSceneById_fails (working : e.outages.scenes = none) (scene : SceneId) :
    FailsIfGone e scene (· = e) (e.addSceneById scene) := by
  refine .of_found (fun missing => ?_) fun s stored => ⟨(e.addScene s).1, ?_⟩
  · simp only [addSceneById, loadScene_eq working, missing, and_self]
  · simp only [addSceneById, loadScene_eq working, stored]

theorem arm_fails (working : e.outages.scenes = none) (scene : SceneId) :
    FailsIfGone e scene (· = e) (e.arm scene) := by
  refine .of_found (fun missing => ?_) fun s stored => ⟨(), ?_⟩
  · rw [arm_missing working missing]
    exact ⟨rfl, rfl⟩
  · obtain ⟨scenes, -, done⟩ := arm_stored working stored
    rw [done]

theorem restart_fails (h : Consistent e handed) (working : e.outages.scenes = none)
    (scene : SceneId) : FailsIfGone e scene (Cleared e handed scene) (e.restart scene) := by
  refine .of_found (fun missing => ?_) fun s stored => ⟨(), ?_⟩
  · rw [restart_missing working missing]
    exact ⟨rfl, h.cleared scene⟩
  · rw [restart_stored working stored]

theorem disarm_fails (h : Consistent e handed) (working : e.outages.scenes = none)
    (scene : SceneId) : FailsIfGone e scene (Cleared e handed scene) (e.disarm scene) := by
  refine .of_found (fun missing => ?_) fun s stored => ⟨(), ?_⟩
  · rw [disarm_missing working missing]
    exact ⟨rfl, h.cleared scene⟩
  · obtain ⟨scenes, -, done⟩ := disarm_stored working stored
    rw [done]

/-- Whatever disarming a scene answers, no timer firing of it is queued afterwards. -/
theorem Consistent.not_timed_disarm (h : Consistent e handed) (working : e.outages.scenes = none)
    (scene : SceneId) :
    ∀ t ∈ (e.disarm scene).2.server.queue.tasks, t.body.timer? ≠ some scene := by
  have dropped : ∀ t ∈ (e.dropFirings scene).2.server.queue.tasks, t.body.timer? ≠ some scene :=
    fun t ht => of_decide_eq_true
      (List.mem_filter.mp ((h.dropFirings scene).2.mem_iff.mp ht)).2
  rcases disarm_cases working scene with ⟨-, left⟩ | ⟨scenes, -, left⟩
  · rw [left]
    exact dropped
  · rw [left]
    exact dropped

/-- Whatever disarming a scene answers, it is not stored as armed afterwards unless deleted. -/
theorem disarmed (working : e.outages.scenes = none) (scene : SceneId) :
    ∀ s, (e.disarm scene).2.scenes.get? scene false = some s → s.armed = false := by
  intro s stored
  rcases disarm_cases working scene with ⟨missing, left⟩ | ⟨scenes, set, left⟩
  · rw [left, dropFirings_frame, missing] at stored
    cases stored
  · rw [left, SceneStore.get?_setArmed set, if_pos rfl] at stored
    obtain ⟨old, -, rfl⟩ := Option.map_eq_some_iff.mp stored
    rfl

end Engine

namespace Juncture

open Engine

/-- Scheduling and arming a scene that is gone fail and change nothing. Disarming and restarting it
fail and drop its timer firings. Disarming any scene leaves it neither armed nor queued. -/
theorem refused_if_gone {j : Juncture} (reached : j.Reached)
    (working : j.engine.outages.scenes = none) (scene : SceneId) :
    let e := j.engine
    FailsIfGone e scene (· = e) (e.arm scene) ∧
    FailsIfGone e scene (· = e) (e.addSceneById scene) ∧
    FailsIfGone e scene (Cleared e j.handed scene) (e.disarm scene) ∧
    FailsIfGone e scene (Cleared e j.handed scene) (e.restart scene) ∧
    (∀ t ∈ (e.disarm scene).2.server.queue.tasks, t.body.timer? ≠ some scene) ∧
    ∀ s, (e.disarm scene).2.scenes.scenes.find? scene = some s → s.isDeleted = false →
      s.armed = false := by
  intro e
  have consistent := reached.consistent
  refine ⟨arm_fails working scene, addSceneById_fails working scene,
    disarm_fails consistent working scene, restart_fails consistent working scene,
    consistent.not_timed_disarm working scene, fun s found live => ?_⟩
  exact disarmed working scene s (SceneStore.get?_live_iff.mpr ⟨found, live⟩)

/-- A scene is deleted while a timer firing of it is queued. Arming it fails and leaves the firing
there, disarming it fails and takes the firing away. -/
theorem refused_once_deleted :
    let eight : TimeOfDay := ⟨28800, 0, by decide, by decide⟩
    let s := daily eight
    let first := fresh {} ⟨⟨0, .midnight⟩, 0⟩ (dailyStore eight) {} default default
    let scheduled := first.happen perform (.event (.move (.addScene s)) trivial)
    let j := scheduled.happen perform (.event (.move (.deleteScene s.id)) trivial)
    (j.engine.arm s.id).1 = .error (.missingScene s.id) ∧
      (j.engine.arm s.id).2.server.queue.tasks.length = 1 ∧
      (j.engine.disarm s.id).1 = .error (.missingScene s.id) ∧
      (j.engine.disarm s.id).2.server.queue.tasks = [] := by
  intro eight s first scheduled j
  have reached : j.Reached :=
    .turn (.turn (.fresh _ _ _ _ _ _) _) _
  let rs := sceneFirings first.engine.settings first.engine.clock s
  have firings : (Errand.tasks 0 rs).length = 1 := by decide +kernel
  have timed : ∀ u ∈ rs, u.duty.timer? = some s.id := sceneFirings_timer rfl
  have added : scheduled.engine = first.engine.enqueueAll rs := by
    simp only [scheduled, Juncture.happen, Moment.happen, Moment.apply, addScene_eq, rs]
  have removed : j.engine = (scheduled.engine.deleteScene s.id).2 := by
    simp only [j, Juncture.happen, Moment.happen, Moment.apply]
  clear_value j scheduled rs
  have up : scheduled.engine.outages.scenes = none := by
    rw [added, enqueueAll_frame]
    rfl
  have stored : scheduled.engine.scenes.get? s.id false = some s := by
    rw [added, enqueueAll_scenes]
    exact dailyStore_live eight
  obtain ⟨scenes, deleted, done⟩ := deleteScene_stored up stored
  have state : j.engine = { scheduled.engine with scenes := scenes } := by
    rw [removed, done]
  have working : j.engine.outages.scenes = none := by
    rw [state]
    exact up
  have gone : j.engine.Gone s.id := by
    rw [gone_iff, state, SceneStore.get?_softDelete deleted, if_pos rfl]
  have queued : j.engine.server.queue.tasks.Perm (Errand.tasks 0 rs) := by
    rw [state, added]
    exact tasks_enqueueAll first.engine rs
  obtain ⟨arm, -, disarm, -, none, -⟩ := refused_if_gone reached working s.id
  have cleared := disarm.left gone
  refine ⟨(arm.fails _).mpr ⟨rfl, gone⟩, ?_, (disarm.fails _).mpr ⟨rfl, gone⟩, ?_⟩
  · rw [arm.left gone, queued.length_eq, firings]
  · refine List.eq_nil_iff_forall_not_mem.mpr fun t member => ?_
    have old := (List.mem_filter.mp (cleared.queue.mem_iff.mp member)).1
    obtain ⟨u, listed, i, rfl, -⟩ := Errand.mem_tasks (queued.mem_iff.mp old)
    exact none _ member (timed u listed)

end Juncture

end HomeScenes
