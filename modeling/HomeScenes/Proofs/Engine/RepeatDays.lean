import HomeScenes.Proofs.Calendar.Days
import HomeScenes.Proofs.Engine.Plans

/-!
# Firings and weekdays

On which days the timer firings of a scene are due, as long as no scene is stored or deleted. The
start, the arrangement and scheduling a scene late in the day look at the weekdays of the scene.
Scheduling it by itself does not for what is still ahead on the same day: such a firing is queued
whatever day it is, and is found out of effect only when it runs.
-/

namespace HomeScenes

namespace Moment

/-- Scenes are armed, disarmed, restarted and scheduled by their ids, the clock is set, tasks are
handed out and run, and the engine is started, once or again. -/
def Schedules (m : Moment) : Event → Prop
  | .start => True
  | .move (.addById _) => True
  | .move (.advance _) => True
  | .move move => m.Restarts move
  | _ => False

theorem Schedules.onClock {m : Moment} {event : Event} (ok : m.Schedules event) :
    m.OnClock event := by
  cases event with
  | start => trivial
  | move move => cases move <;> trivial
  | _ => exact ok.elim

end Moment

namespace Engine

variable {settings : Settings} {clock : LocalTime} {scenes : SceneStore} {devices : DeviceStore}
  {network : Network} {journal : Journal Ticket} {m : Moment} {event : Event} {s : Scene}
  {id : SceneId} {x : Instant} {past later : List (Moment × Event)}

def Timetable (scenes r : SceneStore) : Prop :=
  r.All fun id s => (∃ given, scenes.get? id false = some given ∧ given.weekdays = s.weekdays) ∧
    ∀ time ∈ s.timings, time.Ordinary

theorem timetable_storing (scenes : SceneStore) :
    Storing (Timetable scenes) fun _ => False where
  armed h set := h.setArmed set fun _ _ same => same
  deleted h gone := h.softDelete gone
  saved never _ _ := never.elim

/-- An instant is on a day on which the scene repeats, or it is on the day on which the scene was
scheduled by itself, and was ahead then. -/
def Fits (scenes : SceneStore) (offset : Int) (past : List (Moment × Event)) (id : SceneId)
    (x : Instant) : Prop :=
  ∃ s, scenes.get? id false = some s ∧
    (s.repeatsOn (LocalTime.weekday ⟨x, offset⟩) = true ∨
      ∃ r event now, (r, event) ∈ past ∧ r.Books id now event ∧
        r.engine.clock.day = LocalTime.day ⟨x, offset⟩ ∧ r.engine.now ≤ x)

theorem Fits.mono {offset : Int} (h : Fits scenes offset past id x) (more : past ⊆ later) :
    Fits scenes offset later id x := by
  obtain ⟨s, found, repeats | ⟨r, event, now, passed, books⟩⟩ := h
  · exact ⟨s, found, .inl repeats⟩
  · exact ⟨s, found, .inr ⟨r, event, now, more passed, books⟩⟩

/-- The firings of a day are due on that day. -/
theorem day_dayDue {day notBefore : LocalTime} (ordinary : ∀ time ∈ s.timings, time.Ordinary)
    (h : x ∈ (timerFirings day notBefore s).map Errand.due) :
    LocalTime.day ⟨x, day.offset⟩ = day.day ∧ notBefore.utc ≤ x := by
  obtain ⟨r, hr, rfl⟩ := List.mem_map.mp h
  obtain ⟨time, htime, ahead, rfl⟩ := mem_timerFirings.mp hr
  exact ⟨LocalTime.day_onDay (ordinary time htime), Std.not_lt.mp ahead⟩

theorem stored_of_books (ok : m.Schedules event) (books : m.Books id s event) :
    m.engine.scenes.get? id false = some s := by
  cases event with
  | move move =>
    cases move with
    | addById scene => exact books.2
    | restart scene => exact books.2
    | arm scene => exact books.2
    | run place => exact books.1
    | addScene given => exact ok.elim
    | _ => exact books.elim
  | _ => exact books.elim

/-- What an event brings fits. -/
theorem Fits.brought (h : Working settings m) (table : Timetable scenes m.engine.scenes)
    (ok : m.Schedules event) (brings : m.Brings event id x) :
    Fits scenes m.engine.clock.offset (past ++ [(m, event)]) id x := by
  obtain ⟨s, day, plans, hx⟩ := brings
  have same := h.plans_offset ok.onClock plans
  have whenever : m.engine.scenes.get? id false = some s → s.repeatsOn day.weekday = true →
      Fits scenes m.engine.clock.offset (past ++ [(m, event)]) id x := by
    intro stored repeats
    obtain ⟨⟨given, found, weekdays⟩, ordinary⟩ := table id s stored
    have here := (day_dayDue ordinary hx).1
    refine ⟨given, found, .inl ?_⟩
    rw [Scene.repeatsOn, weekdays, LocalTime.weekday, ← same, here]
    exact repeats
  cases plans with
  | today books =>
    obtain ⟨⟨given, found, -⟩, ordinary⟩ := table id s (stored_of_books ok books)
    obtain ⟨here, ahead⟩ := day_dayDue ordinary hx
    have passed : (m, event) ∈ past ++ [(m, event)] := List.mem_append_right _ List.mem_cons_self
    exact ⟨given, found, .inr ⟨m, event, s, passed, books, here.symm, ahead⟩⟩
  | tomorrow books repeats => exact whenever (stored_of_books ok books) repeats
  | listed lists stored repeats => exact whenever stored repeats

/-- When the timer firings that wait are due fits, and what it is told from stays so. -/
structure Fitting (settings : Settings) (scenes : SceneStore) (offset : Int)
    (past : List (Moment × Event)) (m : Moment) : Prop where
  working : Working settings m
  table : Timetable scenes m.engine.scenes
  clocked : m.engine.clock.offset = offset
  fits : ∀ t ∈ m.waiting, ∀ id, t.body.timer? = some id → Fits scenes offset past id t.due

theorem Fitting.happen {offset : Int} (h : Fitting settings scenes offset past m)
    (ok : m.Schedules event) :
    Fitting settings scenes offset (past ++ [(m, event)]) (m.happen event) where
  working := h.working.happen ok.onClock
  table := (timetable_storing scenes).happen h.table fun s save => by rw [save] at ok; exact ok
  clocked := (offset_happen ok.onClock).trans h.clocked
  fits := by
    intro t ht id timer
    rcases timer_happen h.working ht timer with ⟨u, hu, own, due⟩ | brings
    · rw [← due]
      exact (h.fits u hu id own).mono (List.subset_append_left _ _)
    · rw [← h.clocked]
      exact .brought h.working h.table ok brings

theorem fitting_history (reached : scenes.Reached)
    (ordinary : ∀ id s, scenes.get? id false = some s → ∀ time ∈ s.timings, time.Ordinary)
    (history : Moment.History Moment.Schedules
      (Moment.fresh settings clock scenes devices network journal) past m) :
    Fitting settings scenes clock.offset past m := by
  induction history with
  | begin =>
    refine ⟨working_fresh settings clock devices network journal reached.keyed, ?_, rfl, ?_⟩
    · exact fun id s found => ⟨⟨s, found, rfl⟩, ordinary id s found⟩
    · rintro t ⟨⟩
  | next before event ok ih => exact ih.happen ok

def tuesdays : Scene :=
  { daily (oclock 8) with
    recurrence := .custom
    weekdays := (Weekdays.ofChars? ['2']).getD .everyDay }

def tuesdayStore : SceneStore :=
  ⟨⟨[(tuesdays.id, tuesdays)]⟩⟩

theorem tuesdayStore_reached : tuesdayStore.Reached := by
  have name : Text.trim "Daily".toList = ['D', 'a', 'i', 'l', 'y'] := by rfl
  have named : tuesdays.checkName = .ok () := by
    simp only [Scene.checkName, tuesdays, daily, name]
    rfl
  have valid : tuesdays.validate = .ok () := by
    rw [Scene.validate, named]
    rfl
  refine .save .empty tuesdays ?_
  rw [SceneStore.save, valid]
  rfl

theorem tuesdayStore_ordinary : ∀ id s, tuesdayStore.get? id false = some s →
    ∀ time ∈ s.timings, time.Ordinary := by
  intro id s found time listed
  have entry := Table.find?_entry (SceneStore.get?_live_iff.mp found).1
  obtain ⟨-, rfl⟩ := Prod.mk.inj (List.mem_singleton.mp entry)
  rw [List.mem_singleton.mp listed]
  exact (by decide : (0 : Nat) < 1000000000)

/-- The engine on that store, before it is started in the first hour of a Thursday. -/
def thursdayNight : Moment :=
  .fresh { arrangeAt := oclock 23 } ⟨⟨0, .midnight⟩, 0⟩ tuesdayStore {} default default

def thursdayRestarted : Moment :=
  (thursdayNight.happen .start).happen (.move (.restart tuesdays.id))

theorem thursdayRestarted_history : Moment.History Moment.Schedules thursdayNight
    [(thursdayNight, .start), (thursdayNight.happen .start, .move (.restart tuesdays.id))]
    thursdayRestarted :=
  .next (.next .begin .start trivial) (.move (.restart tuesdays.id)) trivial

theorem thursdayRestarted_queued : ∃ t ∈ thursdayRestarted.engine.server.queue.tasks,
    t.body.timer? = some tuesdays.id ∧
      tuesdays.repeatsOn (LocalTime.weekday ⟨t.due, 0⟩) = false := by
  have due : (dues tuesdays.id thursdayRestarted.engine.server.queue.tasks).map
      (fun x => LocalTime.weekday ⟨x, 0⟩) = [4] := by
    decide +kernel
  have listed : 4 ∈ (dues tuesdays.id thursdayRestarted.engine.server.queue.tasks).map
      fun x => LocalTime.weekday ⟨x, 0⟩ := by
    rw [due]
    exact List.mem_cons_self
  obtain ⟨x, hx, thursday⟩ := List.mem_map.mp listed
  obtain ⟨t, queued, timer, rfl⟩ := mem_dues.mp hx
  refine ⟨t, queued, timer, ?_⟩
  rw [thursday]
  decide

/-- While stored scenes are only armed and disarmed, a queued timer firing of an ordinary time is
due on a day on which its scene repeats, or on the day on which the scene was armed, restarted or
scheduled, and not before that. -/
theorem due_on_repeat_day_or_booked (reached : scenes.Reached)
    (ordinary : ∀ id s, scenes.get? id false = some s → ∀ time ∈ s.timings, time.Ordinary)
    (history : Moment.History Moment.Schedules
      (Moment.fresh settings clock scenes devices network journal) past m)
    {t : EngineTask} (queued : t ∈ m.engine.server.queue.tasks) (timer : t.body.timer? = some id) :
    let due : LocalTime := ⟨t.due, clock.offset⟩
    ∃ s, scenes.get? id false = some s ∧
      (∀ now, m.engine.scenes.get? id false = some now → now.weekdays = s.weekdays) ∧
      (s.repeatsOn due.weekday = true ∨
        ∃ r event now, (r, event) ∈ past ∧ r.Books id now event ∧
          r.engine.clock.day = due.day ∧ r.engine.now ≤ due.utc) := by
  have fitting := fitting_history reached ordinary history
  obtain ⟨s, found, day⟩ := fitting.fits t (List.mem_append_left _ queued) id timer
  refine ⟨s, found, fun now still => ?_, day⟩
  obtain ⟨⟨given, stored, weekdays⟩, -⟩ := fitting.table id now still
  cases found.symm.trans stored
  exact weekdays.symm

/-- Restarted on a Thursday, a Tuesday scene has a firing due on that Thursday. -/
theorem due_off_repeat_day : tuesdayStore.Reached ∧
    (∀ id s, tuesdayStore.get? id false = some s → ∀ time ∈ s.timings, time.Ordinary) ∧
    tuesdayStore.get? tuesdays.id false = some tuesdays ∧
    ∃ past, Moment.History Moment.Schedules thursdayNight past thursdayRestarted ∧
      ∃ t ∈ thursdayRestarted.engine.server.queue.tasks, t.body.timer? = some tuesdays.id ∧
        tuesdays.repeatsOn (LocalTime.weekday ⟨t.due, 0⟩) = false :=
  ⟨tuesdayStore_reached, tuesdayStore_ordinary, rfl, _, thursdayRestarted_history,
    thursdayRestarted_queued⟩

/-- It is due on the day on which the scene was restarted. -/
theorem due_on_repeat_day_or_booked_restarted :
    ∃ t ∈ thursdayRestarted.engine.server.queue.tasks, ∃ past,
      Moment.History Moment.Schedules thursdayNight past thursdayRestarted ∧
        ∃ r event now, (r, event) ∈ past ∧ r.Books tuesdays.id now event ∧
          r.engine.clock.day = LocalTime.day ⟨t.due, 0⟩ ∧ r.engine.now ≤ t.due := by
  obtain ⟨t, queued, timer, off⟩ := thursdayRestarted_queued
  obtain ⟨s, found, -, repeats | booked⟩ := due_on_repeat_day_or_booked tuesdayStore_reached
    tuesdayStore_ordinary thursdayRestarted_history queued timer
  · cases found
    cases off.symm.trans repeats
  · exact ⟨t, queued, _, thursdayRestarted_history, booked⟩

end Engine

end HomeScenes
