import HomeScenes.Proofs.Engine.Operations
import HomeScenes.Proofs.Table

/-!
# The index of timer firings

The engine notes under each scene which timer firings it has queued. The notes agree with
the queue: a queued timer firing is noted under its scene, and what is noted is a timer
firing of that scene which is queued or has been handed out. So the engine can drop the
queued timer firings of a scene, and nothing else.
-/

namespace HomeScenes.Engine

def noted (e : Engine) (scene : SceneId) : List Ticket :=
  (e.pending.find? scene).getD []

/-- The queue and the index agree, also about the tasks that were handed out. -/
structure Consistent (e : Engine) (handed : List EngineTask) : Prop where
  valid : e.server.queue.Valid
  distinct : ((e.server.queue.tasks ++ handed).map Task.id).Nodup
  issued : ∀ t ∈ e.server.queue.tasks ++ handed, t.id < e.issued
  queued : ∀ t ∈ e.server.queue.tasks, ∀ scene, t.body.timer? = some scene → t.id ∈ e.noted scene
  known : ∀ scene, ∀ id ∈ e.noted scene, ∃ t ∈ e.server.queue.tasks ++ handed,
    t.id = id ∧ t.body.timer? = some scene

variable {e r : Engine} {handed : List EngineTask}

variable {handed' : List EngineTask}

/-- Tasks may be handed out, as long as none is lost. -/
theorem Consistent.move (h : Consistent e handed) (valid : r.server.queue.Valid)
    (all : (r.server.queue.tasks ++ handed').Perm (e.server.queue.tasks ++ handed))
    (fewer : ∀ t ∈ r.server.queue.tasks, t ∈ e.server.queue.tasks)
    (pending : r.pending = e.pending) (issued : r.issued = e.issued) : Consistent r handed' := by
  have notes : ∀ scene, r.noted scene = e.noted scene := by
    intro scene
    rw [noted, noted, pending]
  constructor
  · exact valid
  · exact (all.map Task.id).nodup_iff.mpr h.distinct
  · intro t ht
    rw [issued]
    exact h.issued t (all.mem_iff.mp ht)
  · intro t ht scene timed
    rw [notes]
    exact h.queued t (fewer t ht) scene timed
  · intro scene id hid
    rw [notes] at hid
    obtain ⟨t, ht, found⟩ := h.known scene id hid
    exact ⟨t, all.mem_iff.mpr ht, found⟩

theorem Consistent.congr (h : Consistent e handed) (server : r.server.queue = e.server.queue)
    (pending : r.pending = e.pending) (issued : r.issued = e.issued) : Consistent r handed := by
  refine h.move ?_ ?_ ?_ pending issued <;> rw [server]
  · exact h.valid
  · exact fun t ht => ht

theorem Consistent.perm (h : Consistent e handed) (perm : handed'.Perm handed) :
    Consistent e handed' :=
  h.move h.valid (perm.append_left _) (fun _ ht => ht) rfl rfl

/-- Two tasks with the same id are one. -/
theorem Consistent.same (h : Consistent e handed) {t u : EngineTask}
    (ht : t ∈ e.server.queue.tasks ++ handed) (hu : u ∈ e.server.queue.tasks ++ handed)
    (id : t.id = u.id) : t = u :=
  List.inj_on_of_nodup_map h.distinct ht hu id

/-- A task is noted under a scene exactly if it is a timer firing of it. -/
theorem Consistent.noted_iff (h : Consistent e handed) {t : EngineTask}
    (ht : t ∈ e.server.queue.tasks) {scene : SceneId} :
    t.id ∈ e.noted scene ↔ t.body.timer? = some scene := by
  refine ⟨fun hid => ?_, h.queued t ht scene⟩
  obtain ⟨u, hu, id, timed⟩ := h.known scene t.id hid
  rw [h.same (List.mem_append_left _ ht) hu id.symm]
  exact timed

theorem noted_enqueue (e : Engine) (r : Errand) (scene : SceneId) :
    (e.enqueue r).noted scene =
      if r.duty.timer? = some scene then e.noted scene ++ [e.issued] else e.noted scene := by
  rw [noted, enqueue]
  cases timed : r.duty.timer? with
  | none => simp [noted]
  | some own =>
    simp only [Table.find?_set, Option.some.injEq]
    by_cases same : scene = own
    · rw [if_pos same, if_pos same.symm, same]
      rfl
    · rw [if_neg same, if_neg (Ne.symm same)]
      rfl

theorem Consistent.enqueue (h : Consistent e handed) (r : Errand) :
    Consistent (e.enqueue r) handed := by
  have perm := DueQueue.tasks_push e.server.queue (r.task e.issued)
  have all : ((e.enqueue r).server.queue.tasks ++ handed).Perm
      (r.task e.issued :: (e.server.queue.tasks ++ handed)) := perm.append_right handed
  have fresh : ∀ t ∈ e.server.queue.tasks ++ handed, t.id ≠ e.issued :=
    fun t ht => Nat.ne_of_lt (h.issued t ht)
  constructor
  · exact DueQueue.push_valid h.valid fun t ht => fresh t (List.mem_append_left _ ht)
  · rw [(all.map Task.id).nodup_iff, List.map_cons, List.nodup_cons]
    refine ⟨?_, h.distinct⟩
    rintro old
    obtain ⟨t, ht, id⟩ := List.mem_map.mp old
    exact fresh t ht id
  · intro t ht
    rcases List.mem_cons.mp (all.mem_iff.mp ht) with rfl | ht
    · exact Nat.lt_succ_self e.issued
    · exact Nat.lt_succ_of_lt (h.issued t ht)
  · intro t ht scene timed
    rw [noted_enqueue]
    rcases List.mem_cons.mp (perm.mem_iff.mp ht) with rfl | ht
    · have timed : r.duty.timer? = some scene := timed
      rw [if_pos timed]
      exact List.mem_append_right _ (List.mem_singleton_self _)
    · have old := h.queued t ht scene timed
      split
      · exact List.mem_append_left _ old
      · exact old
  · intro scene id hid
    have old : id ∈ e.noted scene → ∃ t ∈ (e.enqueue r).server.queue.tasks ++ handed,
        t.id = id ∧ t.body.timer? = some scene := by
      intro hid
      obtain ⟨t, ht, found⟩ := h.known scene id hid
      exact ⟨t, all.mem_iff.mpr (List.mem_cons_of_mem _ ht), found⟩
    rw [noted_enqueue] at hid
    split at hid
    · rename_i timed
      rcases List.mem_append.mp hid with hid | hid
      · exact old hid
      · rw [List.mem_singleton.mp hid]
        exact ⟨r.task e.issued, all.mem_iff.mpr List.mem_cons_self, rfl, timed⟩
    · exact old hid

theorem removeTasks_spec (hv : e.server.queue.Valid) (ids : List Ticket) :
    (e.removeTasks ids).2.server.queue.Valid ∧
      (e.removeTasks ids).2.server.queue.tasks.Perm
        (e.server.queue.tasks.filter fun t => t.id ∉ ids) := by
  rw [removeTasks_eq]
  induction ids generalizing e with
  | nil =>
    refine ⟨hv, ?_⟩
    rw [List.filter_eq_self.mpr (by simp)]
    rfl
  | cons id ids ih =>
    obtain ⟨valid, perm⟩ := Dispatch.Server.tasks_remove hv id
    obtain ⟨valid, rest⟩ := ih (e := { e with server := (e.server.remove id).2 }) valid
    refine ⟨valid, rest.trans ((perm.filter _).trans ?_)⟩
    rw [List.filter_filter]
    refine List.Perm.of_eq (List.filter_congr fun t _ => ?_)
    by_cases same : t.id = id <;> simp [same]

/-- Dropping takes the timer firings of the scene out of queue and index, and nothing else. -/
theorem Consistent.dropFirings (h : Consistent e handed) (scene : SceneId) :
    Consistent (e.dropFirings scene).2 handed ∧
      (e.dropFirings scene).2.server.queue.tasks.Perm
        (e.server.queue.tasks.filter fun t => t.body.timer? ≠ some scene) := by
  obtain ⟨valid, perm⟩ :=
    removeTasks_spec (e := { e with pending := e.pending.erase scene }) h.valid (e.noted scene)
  have frame := dropFirings_frame e scene
  change (e.dropFirings scene).2.server.queue.Valid at valid
  change (e.dropFirings scene).2.server.queue.tasks.Perm _ at perm
  have left : (e.dropFirings scene).2.server.queue.tasks.Perm
      (e.server.queue.tasks.filter fun t => t.body.timer? ≠ some scene) := by
    refine perm.trans (List.Perm.of_eq (List.filter_congr fun t ht => ?_))
    rw [decide_eq_decide, not_iff_not]
    exact h.noted_iff ht
  have notes : ∀ other, (e.dropFirings scene).2.noted other =
      if other = scene then [] else e.noted other := by
    intro other
    rw [noted, frame, Table.find?_erase]
    split <;> rfl
  have all := left.append_right handed
  have fewer : List.Sublist
      ((e.server.queue.tasks.filter fun t => t.body.timer? ≠ some scene) ++ handed)
      (e.server.queue.tasks ++ handed) := List.filter_sublist.append_right handed
  refine ⟨⟨valid, ?_, ?_, ?_, ?_⟩, left⟩
  · exact (all.map Task.id).nodup_iff.mpr (h.distinct.sublist (fewer.map Task.id))
  · intro t ht
    rw [frame]
    exact h.issued t (fewer.subset (all.mem_iff.mp ht))
  · intro t ht other timed
    obtain ⟨ht, kept⟩ := List.mem_filter.mp (left.mem_iff.mp ht)
    rw [notes]
    split
    · rename_i same
      rw [timed, same] at kept
      simp at kept
    · exact h.queued t ht other timed
  · intro other id hid
    rw [notes] at hid
    split at hid
    · cases hid
    · rename_i differ
      obtain ⟨t, ht, found, timed⟩ := h.known other id hid
      refine ⟨t, ?_, found, timed⟩
      rcases List.mem_append.mp ht with ht | ht
      · refine List.mem_append_left _ (left.mem_iff.mpr (List.mem_filter.mpr ⟨ht, ?_⟩))
        rw [timed]
        simpa using differ
      · exact List.mem_append_right _ ht

theorem noted_forgetPending (e : Engine) (own : SceneId) (task : Ticket) (scene : SceneId) :
    (e.forgetPending own task).noted scene =
      if scene = own then (e.noted scene).filter (· ≠ task) else e.noted scene := by
  rw [noted, forgetPending, noted]
  cases found : e.pending.find? own with
  | none =>
    by_cases same : scene = own
    · rw [if_pos same, same, found]
      rfl
    · rw [if_neg same]
  | some tasks =>
    by_cases same : scene = own
    · rw [if_pos same, same, found]
      dsimp only
      split
      next empty =>
        rw [Table.find?_erase, if_pos rfl]
        exact (List.isEmpty_iff.mp empty).symm
      next => rw [Table.find?_set, if_pos rfl]; rfl
    · rw [if_neg same]
      dsimp only
      split
      · rw [Table.find?_erase, if_neg same]
      · rw [Table.find?_set, if_neg same]

/-- A task that was handed out may be let go once it is not noted any more. -/
theorem Consistent.release {t : EngineTask} (h : Consistent e (t :: handed))
    (unknown : ∀ scene, t.id ∉ e.noted scene) : Consistent e handed where
  valid := h.valid
  distinct := by
    have sub : List.Sublist (e.server.queue.tasks ++ handed)
        (e.server.queue.tasks ++ t :: handed) :=
      (List.sublist_cons_self t handed).append_left e.server.queue.tasks
    exact h.distinct.sublist (sub.map Task.id)
  issued u hu := by
    refine h.issued u ?_
    rcases List.mem_append.mp hu with hu | hu
    · exact List.mem_append_left _ hu
    · exact List.mem_append_right _ (List.mem_cons_of_mem t hu)
  queued := h.queued
  known scene id hid := by
    obtain ⟨u, hu, found, timed⟩ := h.known scene id hid
    rcases List.mem_append.mp hu with hu | hu
    · exact ⟨u, List.mem_append_left _ hu, found, timed⟩
    · rcases List.mem_cons.mp hu with rfl | hu
      · exact absurd (found ▸ hid) (unknown scene)
      · exact ⟨u, List.mem_append_right _ hu, found, timed⟩

/-- A task that was handed out and is not noted under other scenes is not noted at all once it left
the index under its own. -/
theorem Consistent.not_noted {t : EngineTask} (h : Consistent e handed) (here : t ∈ handed)
    {scene : SceneId} (own : ∀ other, t.body.timer? = some other → other = scene)
    (other : SceneId) : t.id ∉ (e.forgetPending scene t.id).noted other := by
  intro hid
  rw [noted_forgetPending] at hid
  split at hid
  · simp at hid
  · rename_i differ
    obtain ⟨u, hu, id, timed⟩ := h.known other t.id hid
    rw [h.same hu (List.mem_append_right _ here) id] at timed
    exact differ (own other timed)

/-- The index may forget a task that was handed out. -/
theorem Consistent.forgetPending {t : EngineTask} (h : Consistent e handed) (here : t ∈ handed)
    (scene : SceneId) : Consistent (e.forgetPending scene t.id) handed := by
  rw [forgetPending_frame]
  refine ⟨h.valid, h.distinct, h.issued, ?_, ?_⟩
  · intro u hu other timed
    change u.id ∈ (e.forgetPending scene t.id).noted other
    have old := h.queued u hu other timed
    rw [noted_forgetPending]
    split
    · refine List.mem_filter.mpr ⟨old, decide_eq_true fun same => ?_⟩
      have := h.distinct
      rw [List.map_append, List.nodup_append] at this
      exact this.2.2 u.id (List.mem_map_of_mem hu) t.id (List.mem_map_of_mem here) same
    · exact old
  · intro other id hid
    change id ∈ (e.forgetPending scene t.id).noted other at hid
    rw [noted_forgetPending] at hid
    split at hid
    · exact h.known other id (List.mem_filter.mp hid).1
    · exact h.known other id hid

theorem Consistent.forget {t : EngineTask} (h : Consistent e (t :: handed)) {scene : SceneId}
    (own : ∀ other, t.body.timer? = some other → other = scene) :
    Consistent (e.forgetPending scene t.id) handed :=
  (h.forgetPending List.mem_cons_self scene).release (h.not_noted List.mem_cons_self own)

theorem consistent_stable (handed : List EngineTask) : Stable fun e => Consistent e handed where
  enqueue _ h := h.enqueue _
  drop scene h := (h.dropFirings scene).1
  armed h _ := h.congr rfl rfl rfl
  deleted h _ := h.congr rfl rfl rfl
  aside h _ _ _ _ := h.congr rfl rfl rfl

theorem Consistent.acted {t : EngineTask} (h : Consistent e (t :: handed))
    (untimed : t.body.timer? = none) : Consistent e handed := by
  refine h.release fun scene hid => ?_
  obtain ⟨u, hu, id, timed⟩ := h.known scene t.id hid
  rw [h.same hu (List.mem_append_right _ List.mem_cons_self) id, untimed] at timed
  cases timed

theorem Consistent.fired {t : EngineTask} (h : Consistent e (t :: handed)) {scene : SceneId}
    {lineage : List SceneId} {timed : Bool} (duty : t.body = .fire scene lineage timed) :
    Consistent (e.forgetPending scene t.id) handed := by
  refine h.forget fun other own => ?_
  rw [duty] at own
  cases timed <;> cases own
  rfl

theorem Consistent.effect {t : EngineTask} (h : Consistent e (t :: handed)) (yes : Bool) :
    Consistent (e.effect t.handle yes t.body) handed := by
  have stable := consistent_stable handed
  cases own : t.body.arrangement? with
  | none =>
    refine stable.effect t.handle yes own ?_ ?_
    · exact fun scene lineage timed duty => h.fired duty
    · exact fun kind lineage duty => h.acted (by rw [duty]; rfl)
  | some time =>
    have duty := Duty.eq_arrange own
    have left := h.acted (by rw [duty]; rfl)
    rw [duty]
    exact stable.addForDay (left.enqueue (arrangement (time.addDays 1))) (time.addDays 1)

theorem consistent_started (settings : Settings) (clock : LocalTime) (scenes : SceneStore)
    (devices : DeviceStore) (network : Network) (journal : Journal Ticket) :
    Consistent (Moment.started settings clock scenes devices network journal).engine [] := by
  have empty : Consistent (ofParts settings clock scenes devices network journal) [] := by
    refine ⟨DueQueue.empty_valid, List.nodup_nil, ?_, ?_, ?_⟩
    · rintro t ⟨⟩
    · rintro t ⟨⟩
    · rintro scene id ⟨⟩
  rw [Moment.started_engine, enqueueAll_append]
  exact ((consistent_stable []).toRooted.enqueueAll empty dayFirings_root).enqueue _

theorem Consistent.handOut {m : Moment} (h : Consistent m.engine m.handed) :
    Consistent m.handOut.engine m.handOut.handed := by
  obtain ⟨server, valid, ⟨out, same, -⟩ | ⟨t, out, taken, -, -⟩⟩ := handOut_cases h.valid
  · rw [out]
    exact h.move valid (same.append_right m.handed) (fun u hu => same.mem_iff.mp hu) rfl rfl
  · have all : (server.queue.tasks ++ (m.handed ++ [t])).Perm
        (m.engine.server.queue.tasks ++ m.handed) := by
      rw [← List.append_assoc]
      exact (List.perm_append_singleton t _).trans (taken.append_right m.handed).symm
    rw [out]
    exact h.move valid all (fun u hu => taken.mem_iff.mpr (List.mem_cons_of_mem t hu)) rfl rfl

theorem Consistent.runAt {m : Moment} (h : Consistent m.engine m.handed) (place : Nat) :
    Consistent (m.runAt place).engine (m.runAt place).handed := by
  cases found : m.handed[place]? with
  | none =>
    rw [runAt_none found]
    exact h
  | some t =>
    obtain ⟨perm, left, start, yes, before, after⟩ := runAt_effect found
    rw [left]
    have first := (consistent_stable _).beside (h.perm perm.symm) before
    exact (consistent_stable _).beside (first.effect yes) after

theorem Consistent.apply {m : Moment} (h : Consistent m.engine m.handed) (move : Move) :
    Consistent (m.apply move).engine (m.apply move).handed := by
  by_cases outer : move.Outer
  · obtain ⟨after, handed⟩ := (consistent_stable m.handed).apply h outer
    rw [handed]
    exact after
  · cases move with
    | save s =>
      obtain ⟨scenes, frame⟩ := saveScene_frame m.engine s
      rw [Moment.apply, frame]
      exact h.congr rfl rfl rfl
    | advance utc => exact h.congr rfl rfl rfl
    | tick => exact h.handOut
    | run place => exact h.runAt place
    | _ => exact absurd trivial outer

end HomeScenes.Engine
