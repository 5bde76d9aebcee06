import HomeScenes.Proofs.Engine.Plans

/-!
# Edits between scheduling and firing

A timer firing carries the scene and that a timer fires it, but not the time for which it was
queued. When it runs, the scene that is stored then is judged, and a timing condition holds whatever
its time is. So an edit that takes away a time of a scene, while a firing of that time waits, leaves
behind a firing that acts at a time which the scene does not have. As long as no edit does that,
a timer firing acts at a time of the scene that is stored.
-/

namespace HomeScenes

def Scene.Declares (s : Scene) (offset : Int) (x : Instant) : Prop :=
  ∃ time ∈ s.timings, ∃ day, x = (LocalTime.onDay offset day time).utc

namespace Moment

/-- A version of a scene that is stored has the times for which firings of the scene wait, and one
that is scheduled has no other times than the one that is stored. -/
structure Faithful (m : Moment) (event : Event) : Prop where
  onClock : m.OnClock event
  saved : ∀ s, event = .move (.save s) → ∀ t ∈ m.waiting, t.body.timer? = some s.id →
    s.Declares m.engine.clock.offset t.due
  shown : ∀ s, event = .move (.addScene s) → ∀ now, m.engine.scenes.get? s.id false = some now →
    ∀ time ∈ s.timings, time ∈ now.timings

end Moment

namespace Engine

variable {settings : Settings} {clock : LocalTime} {scenes : SceneStore} {devices : DeviceStore}
  {network : Network} {journal : Journal Ticket} {m : Moment} {event : Event} {id : SceneId}
  {x : Instant} {t : EngineTask} {past : List (Moment × Event)}

/-- A scene has the times for which firings of it wait, and those which an event brings. -/
def Upholds (m : Moment) (event : Event) (id : SceneId) (s : Scene) : Prop :=
  ∀ x, (∃ t ∈ m.waiting, t.body.timer? = some id ∧ t.due = x) ∨ m.Brings event id x →
    s.Declares m.engine.clock.offset x

/-- All scenes that are stored do after an event if they did before. -/
theorem upholds_storing (m : Moment) (event : Event) :
    Storing (fun r => r.All (Upholds m event)) fun s => Upholds m event s.id s where
  armed h set := h.setArmed set fun _ _ same => same
  deleted h gone := h.softDelete gone
  saved ok h saved := h.save saved ok

theorem declares_dayDue {s : Scene} {day notBefore : LocalTime}
    (h : x ∈ (timerFirings day notBefore s).map Errand.due) : s.Declares day.offset x := by
  obtain ⟨r, hr, rfl⟩ := List.mem_map.mp h
  obtain ⟨time, htime, -, rfl⟩ := mem_timerFirings.mp hr
  exact ⟨time, htime, day.day, rfl⟩

theorem timings_of_plans (ok : m.Faithful event) {s now : Scene} {day : LocalTime}
    (plans : m.Plans event id s day) (stored : m.engine.scenes.get? id false = some now) :
    ∀ time ∈ s.timings, time ∈ now.timings := by
  have booked : m.Books id s event → ∀ time ∈ s.timings, time ∈ now.timings := by
    intro books
    have same : m.engine.scenes.get? id false = some s →
        ∀ time ∈ s.timings, time ∈ now.timings := by
      intro found time listed
      cases found.symm.trans stored
      exact listed
    cases event with
    | move move =>
      cases move with
      | addScene given =>
        obtain ⟨rfl, rfl⟩ := books
        exact ok.shown given rfl now stored
      | addById scene => exact same books.2
      | restart scene => exact same books.2
      | arm scene => exact same books.2
      | run place => exact same books.1
      | _ => exact books.elim
    | _ => exact books.elim
  cases plans with
  | today books => exact booked books
  | tomorrow books repeats => exact booked books
  | listed lists found repeats =>
    cases found.symm.trans stored
    exact fun _ listed => listed

structure Timely (settings : Settings) (m : Moment) : Prop where
  working : Working settings m
  declared : m.engine.scenes.All fun id s => ∀ t ∈ m.waiting, t.body.timer? = some id →
    s.Declares m.engine.clock.offset t.due

theorem Timely.upholds (h : Timely settings m) (ok : m.Faithful event) :
    m.engine.scenes.All (Upholds m event) := by
  rintro id now stored x (⟨t, ht, timer, rfl⟩ | ⟨s, day, plans, hx⟩)
  · exact h.declared id now stored t ht timer
  · obtain ⟨time, listed, own, due⟩ := declares_dayDue hx
    rw [h.working.plans_offset ok.onClock plans] at due
    exact ⟨time, timings_of_plans ok plans stored time listed, own, due⟩

/-- Nothing is scheduled when a scene is stored. -/
theorem not_brings_save {s : Scene} : ¬ m.Brings (.move (.save s)) id x := by
  rintro ⟨_, _, plans, -⟩
  cases plans with
  | today books => exact books.elim
  | tomorrow books repeats => exact books.elim
  | listed lists stored repeats => exact lists.elim

theorem Timely.happen (h : Timely settings m) (ok : m.Faithful event) :
    Timely settings (m.happen event) where
  working := h.working.happen ok.onClock
  declared := by
    have upheld : (m.happen event).engine.scenes.All (Upholds m event) := by
      refine (upholds_storing m event).happen (h.upholds ok) fun s save x known => ?_
      subst save
      rcases known with ⟨t, ht, timer, rfl⟩ | brings
      · exact ok.saved s rfl t ht timer
      · exact absurd brings not_brings_save
    intro id s stored t ht timer
    rw [offset_happen ok.onClock]
    exact upheld id s stored t.due (timer_happen h.working ht timer)

theorem timely_history (reached : scenes.Reached)
    (history : Moment.History Moment.Faithful
      (Moment.fresh settings clock scenes devices network journal) past m) :
    Timely settings m ∧ m.engine.clock.offset = clock.offset := by
  induction history with
  | begin =>
    refine ⟨⟨working_fresh settings clock devices network journal reached.keyed, ?_⟩, rfl⟩
    rintro id s - t ⟨⟩
  | next before event ok ih => exact ⟨ih.1.happen ok, (offset_happen ok.onClock).trans ih.2⟩

/-- What is run depends on the id and the parent of the task only. -/
def Dateless (inner : Task.Run (Work Engine) Ticket) : Prop :=
  ∀ h due, inner { h with due := due } = inner h

theorem dateless_body (d : Duty) : Dateless (body d) := by
  intro h due
  cases d with
  | fire scene lineage timed => rfl
  | arrange time => rfl
  | act kind lineage => cases kind <;> rfl

theorem Dateless.journaled {inner : Task.Run (Work Engine) Ticket} (h : Dateless inner)
    (target : Target) : Dateless (journaled target inner) := by
  intro handle due
  simp only [Engine.journaled, h handle due]
  rfl

theorem perform_withDue (t : EngineTask) (due : Instant) : perform (t.withDue due) = perform t := by
  suffices wrapped : ∀ (ws : List Target) (inner : Task.Run (Work Engine) Ticket), Dateless inner →
      Dateless (ws.foldl (fun inner w => journaled w inner) inner) from
    wrapped t.wrappers (body t.body) (dateless_body t.body) t.handle due
  intro ws
  induction ws with
  | nil => exact fun inner h => h
  | cons w ws ih => exact fun inner h => ih _ (h.journaled w)

theorem time_onDay {offset day : Int} {time : TimeOfDay} (h : time.Ordinary) :
    (LocalTime.onDay offset day time).time = time := by
  rw [LocalTime.time, LocalTime.wall_onDay h]

/-- A timer firing that queues anything has found its scene. -/
theorem stored_of_pushed (hc : Consistent m.engine m.handed) {place : Nat}
    (found : m.handed[place]? = some t) (timer : t.body.timer? = some id) {u : EngineTask}
    (pushed : u ∈ (m.runAt place).engine.server.queue.tasks)
    (new : u ∉ m.engine.server.queue.tasks) : ∃ s, m.engine.scenes.get? id false = some s := by
  obtain ⟨lineage, duty⟩ : ∃ lineage, t.body = .fire id lineage true := by
    cases body : t.body with
    | fire scene lineage timed =>
      rw [body] at timer
      cases timed <;> cases timer
      exact ⟨lineage, rfl⟩
    | _ => rw [body] at timer; cases timer
  rcases (grown_runAt hc place).tasks u pushed with old | ⟨r, i, raised, -, -⟩
  · exact absurd old new
  · cases raised with
    | root outer root => exact outer.elim
    | opened opens => cases opens
    | sown here sows root =>
      cases found.symm.trans here
      rw [duty] at sows
      exact sows.elim
    | next here arranges =>
      cases found.symm.trans here
      rw [duty] at arranges
      cases arranges
    | child here child =>
      cases found.symm.trans here
      rw [duty] at child
      cases child with
      | action loaded => exact ⟨_, (loadScene_ok.mp loaded).2⟩

def midnight : Moment :=
  .fresh { arrangeAt := oclock 23 } ⟨⟨0, .midnight⟩, 0⟩ {} {} default default

def shelved : Moment :=
  (midnight.happen (.move (.save (relay ⟨.ofNat 4⟩ ⟨.ofNat 1⟩)))).happen
    (.move (.save (daily (oclock 8))))

def scheduled : Moment :=
  shelved.happen (.move (.addById ⟨.ofNat 1⟩))

/-- Another version of it is stored, and at eight the firing is handed out. -/
def edited (version : Scene) : Moment :=
  ((scheduled.happen (.move (.save version))).happen (.move (.advance ⟨0, oclock 8⟩))).happen
    (.move .tick)

theorem faithful_save {s : Scene} (declared : ∀ y ∈ dues s.id m.waiting,
    s.Declares m.engine.clock.offset y) : m.Faithful (.move (.save s)) where
  onClock := trivial
  saved := by
    rintro _ ⟨⟩ t ht timer
    exact declared t.due (mem_dues.mpr ⟨t, ht, timer, rfl⟩)
  shown := by rintro _ ⟨⟩

theorem scheduled_history : ∃ past, Moment.History Moment.Faithful midnight past scheduled := by
  have idle : ∀ (m : Moment) (s : Scene), dues s.id m.waiting = [] → m.Faithful (.move (.save s)) :=
    fun m s none => faithful_save fun y hy => absurd (none ▸ hy) List.not_mem_nil
  have first := Moment.History.begin.next (.move (.save (relay ⟨.ofNat 4⟩ ⟨.ofNat 1⟩)))
    (idle midnight _ (by decide +kernel))
  have second := first.next (.move (.save (daily (oclock 8)))) (idle _ _ (by decide +kernel))
  exact ⟨_, second.next (.move (.addById ⟨.ofNat 1⟩))
    ⟨trivial, by rintro s ⟨⟩, by rintro s ⟨⟩⟩⟩

theorem edited_history {allowed : Moment → Event → Prop} {version : Scene}
    (weaker : ∀ s event, Moment.Faithful s event → allowed s event)
    (ok : allowed scheduled (.move (.save version))) :
    ∃ past, Moment.History allowed midnight past (edited version) := by
  obtain ⟨past, history⟩ := scheduled_history
  have saved := (history.mono weaker).next (.move (.save version)) ok
  have awake := saved.next (.move (.advance ⟨0, oclock 8⟩))
    (weaker _ _ ⟨trivial, by rintro s ⟨⟩, by rintro s ⟨⟩⟩)
  exact ⟨_, awake.next (.move .tick) (weaker _ _ ⟨trivial, by rintro s ⟨⟩, by rintro s ⟨⟩⟩)⟩

/-- The firing is handed out at eight, and nothing is queued besides. -/
theorem exists_pushed (out : (m.handed[0]?.bind fun t => t.body.timer?.map fun scene =>
      (scene, t.due)) = some (id, x))
    (idle : m.engine.server.queue.tasks.length = 0)
    (acts : (m.runAt 0).engine.server.queue.tasks.length = 1) :
    ∃ t, m.handed[0]? = some t ∧ t.body.timer? = some id ∧ t.due = x ∧
      ∃ u ∈ (m.runAt 0).engine.server.queue.tasks, u ∉ m.engine.server.queue.tasks := by
  obtain ⟨t, found, own⟩ := Option.bind_eq_some_iff.mp out
  obtain ⟨scene, timer, same⟩ := Option.map_eq_some_iff.mp own
  cases same
  obtain ⟨u, pushed⟩ := List.exists_mem_of_length_pos (acts ▸ Nat.one_pos)
  refine ⟨t, found, timer, rfl, u, pushed, ?_⟩
  rw [List.eq_nil_of_length_eq_zero idle]
  exact List.not_mem_nil

/-- As long as no edit takes away a time of a scene for which a firing waits, a timer firing that
queues actions is due at a time of the scene that is stored when it runs. In any case the instant
at which a task is due makes no difference to what it does. -/
theorem timers_act_at_declared_times (reached : scenes.Reached) :
    (∀ past m, Moment.History Moment.Faithful
        (Moment.fresh settings clock scenes devices network journal) past m →
      ∀ place t scene, m.handed[place]? = some t → t.body.timer? = some scene →
      ∀ u ∈ (m.runAt place).engine.server.queue.tasks, u ∉ m.engine.server.queue.tasks →
        ∃ s, m.engine.scenes.get? scene false = some s ∧ ∃ time ∈ s.timings,
          (∃ day, t.due = (LocalTime.onDay clock.offset day time).utc) ∧
          (time.Ordinary → LocalTime.time ⟨t.due, clock.offset⟩ = time)) ∧
    ∀ (t : EngineTask) (due : Instant), perform (t.withDue due) = perform t := by
  refine ⟨?_, perform_withDue⟩
  intro past m history place t scene found timer u pushed new
  obtain ⟨timely, offset⟩ := timely_history reached history
  obtain ⟨s, stored⟩ := stored_of_pushed timely.working.consistent found timer pushed new
  have handed : t ∈ m.waiting := List.mem_append_right _ (List.mem_of_getElem? found)
  obtain ⟨time, listed, day, due⟩ := timely.declared scene s stored t handed timer
  rw [offset] at due
  refine ⟨s, stored, time, listed, ⟨day, due⟩, fun ordinary => ?_⟩
  rw [due]
  exact time_onDay ordinary

/-- If the scene is put off from eight to nine after it was scheduled, it acts at eight. -/
theorem acts_at_time_taken_away : ∃ past m t scene s,
    Moment.History Moment.OnClock midnight past m ∧ m.handed[0]? = some t ∧
    t.body.timer? = some scene ∧ m.engine.scenes.get? scene false = some s ∧
    (∃ u ∈ (m.runAt 0).engine.server.queue.tasks, u ∉ m.engine.server.queue.tasks) ∧
    LocalTime.time ⟨t.due, m.engine.clock.offset⟩ ∉ s.timings := by
  have ok : scheduled.OnClock (.move (.save (daily (oclock 9)))) := True.intro
  obtain ⟨past, history⟩ := edited_history (fun _ _ faithful => faithful.onClock) ok
  have timings : ((edited (daily (oclock 9))).engine.scenes.get? ⟨.ofNat 1⟩ false).map
      Scene.timings = some [oclock 9] := by
    decide +kernel
  obtain ⟨s, stored, nine⟩ := Option.map_eq_some_iff.mp timings
  have out : (edited (daily (oclock 9))).handed[0]?.bind
      (fun t => t.body.timer?.map fun scene => (scene, t.due)) = some (⟨.ofNat 1⟩, ⟨0, oclock 8⟩) := by
    decide +kernel
  obtain ⟨t, found, timer, due, acts⟩ := exists_pushed out (by decide +kernel) (by decide +kernel)
  refine ⟨past, _, t, _, s, history, found, timer, stored, acts, ?_⟩
  rw [due, nine]
  decide +kernel

/-- If it is only given another name, it acts at eight, as it should. -/
theorem timers_act_at_declared_times_renamed :
    let m := edited { daily (oclock 8) with name := "Breakfast" }
    ∃ t, m.handed[0]? = some t ∧
      (∃ u ∈ (m.runAt 0).engine.server.queue.tasks, u ∉ m.engine.server.queue.tasks) ∧
      ∃ s, m.engine.scenes.get? ⟨.ofNat 1⟩ false = some s ∧ ∃ time ∈ s.timings,
        ∃ day, t.due = (LocalTime.onDay 0 day time).utc := by
  intro m
  have waits : dues ⟨.ofNat 1⟩ scheduled.waiting = [⟨0, oclock 8⟩] ∧
      scheduled.engine.clock.offset = 0 := by
    decide +kernel
  obtain ⟨past, history⟩ : ∃ past, Moment.History Moment.Faithful midnight past m := by
    refine edited_history (fun _ _ faithful => faithful) (faithful_save fun y hy => ?_)
    obtain rfl : y = ⟨0, oclock 8⟩ := List.mem_singleton.mp (waits.1 ▸ hy)
    rw [waits.2]
    exact ⟨oclock 8, List.mem_cons_self, 0, by decide⟩
  have out : m.handed[0]?.bind (fun t => t.body.timer?.map fun scene => (scene, t.due)) =
      some (⟨.ofNat 1⟩, ⟨0, oclock 8⟩) := by
    decide +kernel
  obtain ⟨t, found, timer, due, u, pushed, new⟩ :=
    exists_pushed out (by decide +kernel) (by decide +kernel)
  obtain ⟨s, stored, time, listed, day, -⟩ := (timers_act_at_declared_times .empty).1 past m history
    0 t ⟨.ofNat 1⟩ found timer u pushed new
  exact ⟨t, found, ⟨u, pushed, new⟩, s, stored, time, listed, day⟩

end Engine

end HomeScenes
