import HomeScenes.Proofs.Engine.Doubling
import HomeScenes.Proofs.Engine.Junctures

/-!
# Arming forgets what was queued

Arming an automatic scene, or restarting it while it is armed, leaves those timer firings of it in
the queue that the clock and the stored scene call for, whatever was queued for it before. To do it
again at the same time changes nothing about when they are due or how many they are. Nothing is
claimed about their tickets, which are new each time.
-/

namespace HomeScenes

namespace Engine

/-- When the timer firings of a scene are due that is armed now: those that are not before the
clock today, and once today's arrangement is past and if the scene repeats tomorrow, all of
tomorrow. -/
def renewedDues (settings : Settings) (clock : LocalTime) (s : Scene) : List Instant :=
  ((s.timings.filter fun time => ¬ clock.onSameDay time < clock).map fun time =>
      (clock.onSameDay time).utc) ++
    if clock.onSameDay settings.arrangeAt ≤ clock ∧ s.repeatsOn (clock.addDays 1).weekday then
      s.timings.map fun time => ((clock.addDays 1).onSameDay time).utc
    else []

inductive Renews (e : Engine) (s : Scene) : TaskResult × Engine → Prop where
  | arm : Renews e s (e.arm s.id)
  | restart (armed : s.armed = true) : Renews e s (e.restart s.id)

/-- The firings of a scene are those that are called for now, and nothing else has changed. -/
structure Renewed (e : Engine) (s : Scene) (r : TaskResult × Engine) : Prop where
  succeeds : r.1 = .ok ()
  dues : (dues s.id r.2.server.queue.tasks).Perm (renewedDues e.settings e.clock s)
  count : r.2.pendingCount s.id = (renewedDues e.settings e.clock s).length
  others : (r.2.server.queue.tasks.filter fun t => t.body.timer? ≠ some s.id).Perm
    (e.server.queue.tasks.filter fun t => t.body.timer? ≠ some s.id)
  index : ∀ other, other ≠ s.id → r.2.pending.find? other = e.pending.find? other
  armed : r.2.scenes.get? s.id false = some { s with armed := true }
  scenes : ∀ other, other ≠ s.id → r.2.scenes.scenes.find? other = e.scenes.scenes.find? other
  frame : r.2 = { e with
    scenes := r.2.scenes
    server := r.2.server
    pending := r.2.pending
    issued := r.2.issued }

variable {e r : Engine} {handed : List EngineTask} {s : Scene}

/-- No firing of the next day is before the clock. -/
theorem timerFirings_tomorrow (clock : LocalTime) (s : Scene) :
    timerFirings (clock.addDays 1) clock s = s.timings.map fun time =>
      firing s ((clock.addDays 1).onSameDay time).utc [] true none := by
  have later : clock.day < (clock.addDays 1).day := by
    rw [LocalTime.day_addDays_one]
    omega
  rw [timerFirings, List.filter_eq_self.mpr]
  intro time _
  have offset : clock.offset = (clock.addDays 1).offset := rfl
  have ahead := lt_onSameDay offset later time
  exact decide_eq_true fun past => Std.not_lt.mpr (Std.le_of_lt ahead) (LocalTime.lt_def.mp past)

theorem dues_sceneFirings {settings : Settings} {clock : LocalTime}
    (automatic : s.automatic = true) :
    (sceneFirings settings clock { s with armed := true }).map Errand.due =
      renewedDues settings clock s := by
  rw [sceneFirings_armed automatic, timerFirings_tomorrow, renewedDues, timerFirings,
    List.map_append, List.map_map]
  split
  · rw [List.map_map]
    rfl
  · rfl

/-- The index notes each timer firing that is queued. -/
theorem length_noted_enqueueAll (e : Engine) (rs : List Errand) (scene : SceneId) :
    ((e.enqueueAll rs).noted scene).length =
      (e.noted scene).length + (Errand.dues scene rs).length := by
  induction rs generalizing e with
  | nil => rfl
  | cons u rs ih =>
    have rest : ((e.enqueueAll (u :: rs)).noted scene).length = _ := ih (e.enqueue u)
    rw [rest, noted_enqueue]
    by_cases timed : u.duty.timer? = some scene
    · simp only [Errand.dues, List.filterMap_cons, if_pos timed, List.length_append,
        List.length_cons, List.length_nil]
      omega
    · simp only [Errand.dues, List.filterMap_cons, if_neg timed]

/-- Queueing timer firings of one scene leaves the notes of the others alone. -/
theorem find?_pending_enqueueAll {rs : List Errand} {scene other : SceneId}
    (own : ∀ u ∈ rs, u.duty.timer? = some scene) (differ : other ≠ scene) :
    (e.enqueueAll rs).pending.find? other = e.pending.find? other :=
  enqueueAll_keeps (P := fun r => r.pending.find? other = e.pending.find? other)
    (fun {_ u} timed same => by simp [enqueue, timed, Table.find?_set, differ, same]) rfl own

/-- What is left of the queue when the firings of a scene are dropped and others of it queued. -/
theorem others_again (hc : Consistent e handed) {rs : List Errand} {scene : SceneId}
    (own : ∀ u ∈ rs, u.duty.timer? = some scene) :
    (((e.dropFirings scene).2.enqueueAll rs).server.queue.tasks.filter
        fun t => t.body.timer? ≠ some scene).Perm
      (e.server.queue.tasks.filter fun t => t.body.timer? ≠ some scene) := by
  have none : (Errand.tasks (e.dropFirings scene).2.issued rs).filter
      (fun t => t.body.timer? ≠ some scene) = [] := by
    refine List.filter_eq_nil_iff.mpr fun t member => ?_
    obtain ⟨u, listed, i, rfl, -⟩ := Errand.mem_tasks member
    have timed : (u.task i).body.timer? = some scene := own u listed
    simp [timed]
  have queued := (tasks_enqueueAll (e.dropFirings scene).2 rs).filter
    fun t => t.body.timer? ≠ some scene
  rw [List.filter_append, none, List.append_nil] at queued
  refine queued.trans (((hc.dropFirings scene).2.filter _).trans (.of_eq ?_))
  rw [List.filter_filter]
  exact List.filter_congr fun t _ => by simp

/-- As many firings are in the index as were queued again. -/
theorem pendingCount_again (e : Engine) {rs : List Errand} {scene : SceneId}
    (own : ∀ u ∈ rs, u.duty.timer? = some scene) :
    ((e.dropFirings scene).2.enqueueAll rs).pendingCount scene = rs.length := by
  have noted := length_noted_enqueueAll (e.dropFirings scene).2 rs scene
  have none : (e.dropFirings scene).2.noted scene = [] := by
    rw [dropFirings_frame, Engine.noted, Table.find?_erase, if_pos rfl]
    rfl
  rw [none, dues_own own, List.length_map, List.length_nil, Nat.zero_add] at noted
  exact noted

/-- Firings that are dropped and queued again, once the scene is stored as armed. -/
theorem Renewed.of_again (scenes : SceneStore) (hc : Consistent e handed)
    (automatic : s.automatic = true)
    (armed : scenes.get? s.id false = some { s with armed := true })
    (same : ∀ other, other ≠ s.id → scenes.scenes.find? other = e.scenes.scenes.find? other)
    (again : r = (({ e with scenes := scenes }.dropFirings s.id).2.addScene
      { s with armed := true }).2) : Renewed e s (.ok (), r) := by
  have stored : Consistent { e with scenes := scenes } handed := hc.congr rfl rfl rfl
  have frame := dropFirings_frame { e with scenes := scenes } s.id
  have own : ∀ u ∈ sceneFirings e.settings e.clock { s with armed := true },
      u.duty.timer? = some s.id := sceneFirings_timer automatic
  have queued : r = ({ e with scenes := scenes }.dropFirings s.id).2.enqueueAll
      (sceneFirings e.settings e.clock { s with armed := true }) := by
    rw [again, addScene_eq, frame]
  have dueOf : (sceneFirings e.settings e.clock { s with armed := true }).map Errand.due =
      renewedDues e.settings e.clock s := dues_sceneFirings automatic
  have whole : r = { e with
      scenes := scenes
      server := r.server
      pending := r.pending
      issued := r.issued } := by
    rw [queued, enqueueAll_frame, frame]
  constructor
  case succeeds => rfl
  case dues =>
    have due := dues_again stored (s := { s with armed := true }) rfl automatic s.id
    rw [if_pos rfl, dueOf, ← again] at due
    exact due
  case count => rw [queued, pendingCount_again _ own, ← dueOf, List.length_map]
  case others =>
    rw [queued]
    exact others_again stored own
  case index =>
    intro other differ
    rw [queued, find?_pending_enqueueAll own differ, frame, Table.find?_erase, if_neg differ]
  case armed =>
    rw [whole]
    exact armed
  case scenes =>
    rw [whole]
    exact same
  case frame => rw [whole]

theorem Renews.renewed (hc : Consistent e handed) (working : e.outages.scenes = none)
    (stored : e.scenes.get? s.id false = some s) (automatic : s.automatic = true)
    {answer : TaskResult × Engine} (renews : Renews e s answer) : Renewed e s answer := by
  cases renews with
  | arm =>
    obtain ⟨scenes, set, done⟩ := arm_stored working stored
    obtain ⟨-, same⟩ := SceneStore.setArmed_eq set
    rw [if_pos automatic] at done
    rw [done]
    refine .of_again scenes hc automatic ?_ (fun other differ => ?_) rfl
    · rw [SceneStore.get?_setArmed set, if_pos rfl, stored]
      rfl
    · rw [same, Table.find?_modify, if_neg differ]
  | restart armed =>
    have whole : { s with armed := true } = s := by rw [← armed]
    rw [restart_stored working stored, if_pos automatic]
    refine .of_again e.scenes hc automatic ?_ (fun _ _ => rfl) (by rw [whole])
    rw [whole]
    exact stored

theorem Renews.consistent (hc : Consistent e handed) {answer : TaskResult × Engine}
    (renews : Renews e s answer) : Consistent answer.2 handed := by
  have rooted := (consistent_stable handed).toRooted
  cases renews with
  | arm => exact rooted.arm hc s.id
  | restart armed => exact rooted.restart hc s.id

end Engine

namespace Juncture

open Engine

/-- At every juncture, arming a live automatic scene or restarting an armed one leaves exactly the
firings in the queue that are called for then, and all else as it was. Doing so once more changes
no instant at which they are due, and not how many they are. -/
theorem renewal_forgets_history {j : Juncture} (reached : j.Reached)
    (working : j.engine.outages.scenes = none) {s : Scene}
    (stored : j.engine.scenes.get? s.id false = some s) (automatic : s.automatic = true)
    {once : TaskResult × Engine} (renews : Renews j.engine s once) :
    Renewed j.engine s once ∧
    ∀ twice, Renews once.2 { s with armed := true } twice →
      Renewed once.2 { s with armed := true } twice ∧
      (dues s.id twice.2.server.queue.tasks).Perm (dues s.id once.2.server.queue.tasks) ∧
      twice.2.pendingCount s.id = once.2.pendingCount s.id := by
  have first := renews.renewed reached.consistent working stored automatic
  refine ⟨first, fun twice again => ?_⟩
  have up : once.2.outages.scenes = none := by
    rw [first.frame]
    exact working
  have second := again.renewed (s := { s with armed := true })
    (renews.consistent reached.consistent) up first.armed automatic
  have same : renewedDues once.2.settings once.2.clock { s with armed := true } =
      renewedDues j.engine.settings j.engine.clock s := by
    rw [first.frame]
    rfl
  refine ⟨second, ?_, ?_⟩
  · exact (second.dues.trans (.of_eq same)).trans first.dues.symm
  · exact second.count.trans ((congrArg List.length same).trans first.count.symm)

/-- A scene is armed at the very time at which it fires and the arrangement is due: there is one
firing today and one tomorrow, also when it is restarted at once, and whether or not the one of
today was queued before. -/
theorem renewed_at_arrangement :
    let late : TimeOfDay := ⟨86100, 0, by decide, by decide⟩
    let s := daily late
    let first := fresh {} ⟨⟨0, .midnight⟩, 0⟩ (dailyStore late) {} default default
    let scheduled := first.happen perform (.event (.move (.addScene s)) trivial)
    let j := scheduled.happen perform (.event (.move (.advance ⟨0, late⟩)) trivial)
    let once := j.engine.arm s.id
    let twice := once.2.restart s.id
    (dues s.id once.2.server.queue.tasks).Perm [⟨0, late⟩, ⟨1, late⟩] ∧
      (dues s.id twice.2.server.queue.tasks).Perm [⟨0, late⟩, ⟨1, late⟩] ∧
      twice.2.pendingCount s.id = 2 := by
  intro late s first scheduled j once twice
  have reached : j.Reached :=
    .turn (.turn (.fresh _ _ _ _ _ _) _) _
  have called : renewedDues {} ⟨⟨0, late⟩, 0⟩ s = [⟨0, late⟩, ⟨1, late⟩] := by decide +kernel
  have added : scheduled.engine = first.engine.enqueueAll
      (sceneFirings first.engine.settings first.engine.clock s) := by
    simp only [scheduled, Juncture.happen, Moment.happen, Moment.apply, addScene_eq]
  have advanced : j.engine =
      { scheduled.engine with clock := { scheduled.engine.clock with utc := ⟨0, late⟩ } } := by
    simp only [j, Juncture.happen, Moment.happen, Moment.apply]
  clear_value j scheduled
  have state : ∃ server pending issued, j.engine = { first.engine with
      clock := ⟨⟨0, late⟩, 0⟩, server := server, pending := pending, issued := issued } := by
    rw [advanced, added, enqueueAll_frame]
    exact ⟨_, _, _, rfl⟩
  obtain ⟨server, pending, issued, state⟩ := state
  have working : j.engine.outages.scenes = none := by rw [state]; rfl
  have stored : j.engine.scenes.get? s.id false = some s := by
    rw [state]
    exact dailyStore_live late
  have dueNow : renewedDues j.engine.settings j.engine.clock s = [⟨0, late⟩, ⟨1, late⟩] := by
    rw [state]
    exact called
  obtain ⟨renewed, again⟩ := renewal_forgets_history reached working stored rfl .arm
  obtain ⟨-, dues, count⟩ := again twice (.restart rfl)
  refine ⟨renewed.dues.trans (.of_eq dueNow), ?_, ?_⟩
  · exact dues.trans (renewed.dues.trans (.of_eq dueNow))
  · rw [count, renewed.count, dueNow]
    rfl

end Juncture

end HomeScenes
