import HomeScenes.Proofs.Calendar.Days
import HomeScenes.Proofs.Engine.Doubling
import Mathlib.Data.List.Nodup

/-!
# Duplicate firings

When a scene fires twice at one instant, among runs in which scenes are only armed, disarmed
and restarted. For ordinary times of day there is one way only: a scene is armed again when
the arrangement is due and has not run. It has then got its firings of the next day, and the
arrangement queues them once more.
-/

namespace HomeScenes

open LocalTime (onDay)

def SceneStore.timings (s : SceneStore) (id : SceneId) : List TimeOfDay :=
  ((s.get? id false).map Scene.timings).getD []

/-- The arrangement is due and has not run. -/
def Moment.Overdue (m : Moment) : Prop :=
  ∃ t ∈ m.engine.server.queue.tasks ++ m.handed, ∃ time,
    t.body = .arrange time ∧ time.utc ≤ m.engine.now

namespace Engine

def Distinguished (times : SceneId → List TimeOfDay) (id : SceneId) (ts : List TimeOfDay) : Prop :=
  ts = times id ∧ (∀ time ∈ ts, time.Ordinary) ∧ ts.Nodup

/-- All instants are those of timings of a scene on days up to a last one. -/
def Upto (times : SceneId → List TimeOfDay) (offset last : Int) (id : SceneId)
    (xs : List Instant) : Prop :=
  ∀ x ∈ xs, ∃ time ∈ times id, ∃ day ≤ last, x = (onDay offset day time).utc

variable {given : Settings} {times : SceneId → List TimeOfDay} {e : Engine} {m : Moment}
  {time day : LocalTime} {id : SceneId} {s : Scene} {offset last later : Int}

theorem upto_hereditary : Hereditary (Upto times offset last) where
  nil _ _ hx := absurd hx List.not_mem_nil
  perm same h x hx := h x (same.mem_iff.mp hx)
  sublist fewer h x hx := h x (fewer.subset hx)

theorem Upto.mono {xs : List Instant} (h : Upto times offset last id xs) (le : last ≤ later) :
    Upto times offset later id xs := by
  intro x hx
  obtain ⟨time, htime, day, hday, same⟩ := h x hx
  exact ⟨time, htime, day, Int.le_trans hday le, same⟩

theorem mem_dayDues {notBefore : LocalTime} {x : Instant}
    (h : x ∈ (timerFirings day notBefore s).map Errand.due) :
    ∃ time ∈ s.timings, x = (onDay day.offset day.day time).utc := by
  obtain ⟨r, hr, rfl⟩ := List.mem_map.mp h
  obtain ⟨time, htime, -, rfl⟩ := mem_timerFirings.mp hr
  exact ⟨time, htime, rfl⟩

theorem nodup_dayDues {notBefore : LocalTime} (ordinary : ∀ time ∈ s.timings, time.Ordinary)
    (distinct : s.timings.Nodup) : ((timerFirings day notBefore s).map Errand.due).Nodup := by
  rw [timerFirings, List.map_map]
  refine (distinct.filter _).map_on fun a ha b hb same => ?_
  have ha := ordinary a (List.mem_filter.mp ha).1
  have hb := ordinary b (List.mem_filter.mp hb).1
  exact (LocalTime.onDay_injective ha hb same).2

/-- An instant of an ordinary time belongs to one day. -/
theorem disjoint_dayDues {notBefore : LocalTime} (hs : Distinguished times id s.timings)
    {xs : List Instant} (h : Upto times day.offset last id xs) (after : last < day.day) :
    ∀ x ∈ xs, ∀ y ∈ (timerFirings day notBefore s).map Errand.due, x ≠ y := by
  rintro x hx _ hy rfl
  obtain ⟨given, ordinary, -⟩ := hs
  obtain ⟨a, ha, d, hd, rfl⟩ := h x hx
  obtain ⟨b, hb, same⟩ := mem_dayDues hy
  have here := (LocalTime.onDay_injective (ordinary a (given ▸ ha)) (ordinary b hb) same).1
  omega

theorem not_colliding (hs : Stored given (Distinguished times) e) : ¬ Colliding e := by
  rintro ⟨id, s, found, automatic, twice⟩
  obtain ⟨own, ordinary, distinct⟩ := hs.timings id s found
  refine twice ?_
  have today : Upto times e.clock.offset e.clock.day id
      ((timerFirings e.clock e.clock s).map Errand.due) := by
    intro x hx
    obtain ⟨time, htime, rfl⟩ := mem_dayDues hx
    exact ⟨time, own ▸ htime, e.clock.day, Int.le_refl _, rfl⟩
  have later : e.clock.day < (e.clock.addDays 1).day := by
    rw [LocalTime.day_addDays_one]
    omega
  rw [sceneFirings_armed automatic, List.map_append, List.nodup_append]
  refine ⟨nodup_dayDues ordinary distinct, ?_, ?_⟩
  · split
    · exact nodup_dayDues ordinary distinct
    · exact List.nodup_nil
  · split
    · exact disjoint_dayDues ⟨own, ordinary, distinct⟩ today later
    · exact fun x _ y hy => absurd hy List.not_mem_nil

theorem not_overtaken (hs : Stored given (Distinguished times) e) (single : NoDuplicates e)
    (upto : EachDues (Upto times e.clock.offset time.day) e) : ¬ Overtaken e time := by
  rintro ⟨id, s, found, -, -, day, offset, later, -, twice⟩
  have timings := hs.timings id s found
  refine twice (List.nodup_append.mpr ⟨single id, nodup_dayDues timings.2.1 timings.2.2, ?_⟩)
  exact disjoint_dayDues timings (offset ▸ upto id) later

/-- Before the arrangement is due, arming a scene queues nothing of the days after it. -/
theorem armedDues_upto (hs : Stored given (Distinguished times) e)
    (offset : time.offset = e.clock.offset)
    (onTime : time.utc ≤ (onDay time.offset time.day given.arrangeAt).utc)
    (early : e.now < time.utc) : ArmedDues (Upto times e.clock.offset time.day) e := by
  intro id s found automatic x hx
  have own := (hs.timings id s found).1
  have today : e.clock.day ≤ time.day :=
    LocalTime.day_le_of_utc_le offset.symm (Std.le_of_lt early)
  rw [sceneFirings_armed automatic, List.map_append] at hx
  rcases List.mem_append.mp hx with hx | hx
  · obtain ⟨at_, hat, rfl⟩ := mem_dayDues hx
    exact ⟨at_, own ▸ hat, e.clock.day, today, rfl⟩
  · split at hx
    · rename_i tomorrow
      obtain ⟨at_, hat, rfl⟩ := mem_dayDues hx
      refine ⟨at_, own ▸ hat, (e.clock.addDays 1).day, ?_, rfl⟩
      rw [LocalTime.day_addDays_one]
      by_contra after
      -- the time of arrangement of today is past, but the arrangement is not due
      have same : time.day = e.clock.day := by omega
      have past := LocalTime.le_def.mp tomorrow.1
      rw [LocalTime.onSameDay_eq, hs.settings, ← same, ← offset] at past
      exact absurd (Std.le_trans onTime past) (Std.not_le.mpr early)
    · cases hx

theorem arrangedDues_upto (hs : Stored given (Distinguished times) e)
    (offset : time.offset = e.clock.offset)
    (upto : EachDues (Upto times e.clock.offset time.day) e) :
    ArrangedDues (Upto times e.clock.offset (time.addDays 1).day) e time := by
  intro id s found _ _ _ x hx
  have next : (time.addDays 1).day = time.day + 1 := LocalTime.day_addDays_one time
  rcases List.mem_append.mp hx with hx | hx
  · exact (upto id).mono (by omega) x hx
  · obtain ⟨at_, hat, rfl⟩ := mem_dayDues hx
    refine ⟨at_, (hs.timings id s found).1 ▸ hat, (time.addDays 1).day, Int.le_refl _, ?_⟩
    rw [LocalTime.addDays_offset, offset]

/-- Nothing is queued for the days after the arrangement, and nothing twice. -/
structure Steady (given : Settings) (times : SceneId → List TimeOfDay) (m : Moment)
    (time : LocalTime) : Prop extends Running given (Distinguished times) m time where
  onTime : time.utc ≤ (onDay time.offset time.day given.arrangeAt).utc
  upto : EachDues (Upto times m.engine.clock.offset time.day) m.engine
  single : NoDuplicates m.engine

theorem Steady.not_doubling (h : Steady given times m time) : ¬ m.Doubling := by
  rintro (colliding | ⟨t, ht, own, duty, overtaken⟩)
  · exact not_colliding h.stored colliding
  · rw [h.arranged.only ht duty] at overtaken
    exact not_overtaken h.stored h.single h.upto overtaken

theorem Steady.apply (h : Steady given times m time) {move : Move} (ok : m.Restarts move)
    (patient : m.Rearms move → ¬ m.Overdue) : ∃ time, Steady given times (m.apply move) time := by
  have forward := forward_of_restarts ok
  obtain ⟨-, same, -⟩ := h.toRunning.later forward
  have single := h.single.apply h.toRunning h.not_doubling ok
  have armed : m.Rearms move → ArmedDues (Upto times m.engine.clock.offset time.day) m.engine := by
    refine fun rearms => armedDues_upto h.stored h.arranged.offset h.onTime ?_
    by_contra due
    obtain ⟨t, ht, duty, -⟩ := h.arranged.exists_task
    exact patient rearms ⟨t, ht, time, duty, Std.not_lt.mp due⟩
  cases arranging : m.arranging? move with
  | none =>
    refine ⟨time, h.toRunning.apply_none forward arranging, h.onTime, ?_, single⟩
    rw [same]
    refine h.upto.apply upto_hereditary h.toRunning ok armed fun arranges => ?_
    cases arranging.symm.trans arranges
  | some own =>
    obtain ⟨rfl, -, next⟩ := h.toRunning.apply_some forward arranging
    have later : own.day ≤ (own.addDays 1).day := by
      rw [LocalTime.day_addDays_one]
      omega
    refine ⟨own.addDays 1, next, LocalTime.utc_addDays_one_le h.onTime, ?_, single⟩
    rw [same]
    refine EachDues.apply (fun id => (h.upto id).mono later) upto_hereditary h.toRunning ok
      (fun rearms id s found automatic => ?_) fun _ => ?_
    · exact (armed rearms id s found automatic).mono later
    · exact arrangedDues_upto h.stored h.arranged.offset h.upto

theorem steady_started {settings : Settings} {clock : LocalTime} {scenes : SceneStore}
    {devices : DeviceStore} {network : Network} {journal : Journal Ticket} (keyed : scenes.Keyed)
    (ordinary : ∀ id s, scenes.get? id false = some s → ∀ time ∈ s.timings, time.Ordinary)
    (distinct : ∀ id s, scenes.get? id false = some s → s.timings.Nodup) :
    Steady settings scenes.timings
      (Moment.started settings clock scenes devices network journal)
      (clock.onSameDay settings.arrangeAt) := by
  have timings : ∀ id s, scenes.get? id false = some s →
      Distinguished scenes.timings id s.timings := by
    intro id s found
    refine ⟨?_, ordinary id s found, distinct id s found⟩
    rw [SceneStore.timings, found]
    rfl
  have running : Running settings (Distinguished scenes.timings)
      (Moment.started settings clock scenes devices network journal)
      (clock.onSameDay settings.arrangeAt) :=
    running_started clock devices network journal keyed timings
  have offset : (Moment.started settings clock scenes devices network journal).engine.clock.offset =
      clock.offset := running.arranged.offset.symm
  have today := LocalTime.le_day_onDay clock.offset clock.day settings.arrangeAt
  refine ⟨running, LocalTime.utc_onDay_mono settings.arrangeAt today, ?_, ?_⟩
  · refine eachDues_started upto_hereditary keyed fun id s found _ _ x hx => ?_
    obtain ⟨time, htime, rfl⟩ := mem_dayDues hx
    exact ⟨time, (timings id s found).1 ▸ htime, clock.day, today, by rw [offset]⟩
  · exact noDuplicates_started keyed (not_colliding running.stored)

/-- A run in which nothing is doubled has no duplicates, and from any state where something is
doubled a duplicate can be reached. For ordinary times, nothing is doubled unless a scene is
armed again when the arrangement is due and has not run. -/
theorem duplicates_where_doubling {settings : Settings} {clock : LocalTime} {scenes : SceneStore}
    {devices : DeviceStore} {network : Network} {journal : Journal Ticket}
    (reached : scenes.Reached)
    (distinct : ∀ id s, scenes.get? id false = some s → s.timings.Nodup) :
    (∀ m, Moment.Runs (fun r move => r.Restarts move ∧ ¬ r.Doubling)
        (Moment.started settings clock scenes devices network journal) m →
      ¬ m.Doubling → NoDuplicates m.engine) ∧
    (∀ m, Moment.Runs Moment.Restarts
        (Moment.started settings clock scenes devices network journal) m →
      m.Doubling → ∃ r, Moment.Runs Moment.Restarts m r ∧ ¬ NoDuplicates r.engine) ∧
    ((∀ id s, scenes.get? id false = some s → ∀ time ∈ s.timings, time.Ordinary) →
      ∀ m, Moment.Runs (fun r move => r.Restarts move ∧ (r.Rearms move → ¬ r.Overdue))
          (Moment.started settings clock scenes devices network journal) m →
        ¬ m.Doubling ∧ NoDuplicates m.engine) := by
  have keyed := reached.keyed
  have first : Running settings (fun _ _ => True)
      (Moment.started settings clock scenes devices network journal)
      (clock.onSameDay settings.arrangeAt) :=
    running_started clock devices network journal keyed fun _ _ _ => trivial
  refine ⟨?_, ?_, ?_⟩
  · intro m run fine
    have always : ∃ time, Running settings (fun _ _ => True) m time ∧
        (¬ m.Doubling → NoDuplicates m.engine) := by
      refine run.invariant (P := fun m => ∃ time, Running settings (fun _ _ => True) m time ∧
        (¬ m.Doubling → NoDuplicates m.engine)) ⟨_, first, fun fine => ?_⟩ ?_
      · exact noDuplicates_started keyed fun bad => fine (.inl bad)
      · rintro r move ⟨ok, fine⟩ ⟨time, running, single⟩
        obtain ⟨next, running'⟩ := running.exists_apply (forward_of_restarts ok)
        exact ⟨next, running', fun _ => (single fine).apply running fine ok⟩
    obtain ⟨time, -, single⟩ := always
    exact single fine
  · intro m run doubling
    have always : ∃ time, Running settings (fun _ _ => True) m time := by
      refine run.invariant (P := fun m => ∃ time, Running settings (fun _ _ => True) m time)
        ⟨_, first⟩ ?_
      rintro r move ok ⟨time, running⟩
      exact running.exists_apply (forward_of_restarts ok)
    obtain ⟨time, running⟩ := always
    exact running.doubled doubling
  · intro ordinary m run
    have steady : Steady settings scenes.timings
        (Moment.started settings clock scenes devices network journal)
        (clock.onSameDay settings.arrangeAt) := steady_started keyed ordinary distinct
    have always : ∃ time, Steady settings scenes.timings m time := by
      refine run.invariant (P := fun m => ∃ time, Steady settings scenes.timings m time)
        ⟨_, steady⟩ ?_
      rintro r move ⟨ok, patient⟩ ⟨time, steady⟩
      exact steady.apply ok patient
    obtain ⟨time, steady⟩ := always
    exact ⟨steady.not_doubling, steady.single⟩

/-- Started at three to midnight, when the arrangement is due, nothing is queued twice. If the
scene is restarted before the arrangement runs, its firing of the next day can be. -/
theorem duplicates_where_doubling_evening :
    let eight : TimeOfDay := ⟨28800, 0, by decide, by decide⟩
    let clock : LocalTime := ⟨⟨0, ⟨86220, 0, by decide, by decide⟩⟩, 0⟩
    let start := Moment.started {} clock (dailyStore eight) {} default default
    NoDuplicates start.engine ∧ ∃ r,
      Moment.Runs Moment.Restarts (start.apply (.restart (daily eight).id)) r ∧
        ¬ NoDuplicates r.engine := by
  intro eight clock start
  have ordinary : ∀ id s, (dailyStore eight).get? id false = some s →
      ∀ time ∈ s.timings, time.Ordinary :=
    dailyStore_all (show 0 < 1000000000 by decide)
  have distinct : ∀ id s, (dailyStore eight).get? id false = some s → s.timings.Nodup := by
    intro id s found
    rw [dailyStore_only found]
    exact List.nodup_singleton eight
  obtain ⟨-, harm, safe⟩ := @duplicates_where_doubling {} clock (dailyStore eight) {} default default
    (dailyStore_reached eight) distinct
  refine ⟨(safe ordinary start .refl).2, harm _ (.step .refl (.restart _) trivial) (.inr ?_)⟩
  have steady := @steady_started {} clock (dailyStore eight) {} default default
    (dailyStore_reached eight).keyed ordinary distinct
  have running : Running {} (Distinguished (dailyStore eight).timings)
      (start.apply (.restart (daily eight).id)) (clock.onSameDay (Settings.arrangeAt {})) :=
    steady.toRunning.apply_none trivial rfl
  obtain ⟨t, ht, duty, -⟩ := running.arranged.exists_task
  have scenes : start.engine.scenes = dailyStore eight := Moment.started_scenes ..
  have settings : start.engine.settings = {} := Moment.started_settings ..
  have same : start.engine.clock = clock := Moment.started_clock ..
  have stored : start.engine.scenes.get? (daily eight).id false = some (daily eight) := by
    rw [scenes]
    rfl
  have restarted : (start.apply (.restart (daily eight).id)).engine =
      ((start.engine.dropFirings (daily eight).id).2.addScene (daily eight)).2 := by
    rcases restart_cases steady.stored.working (daily eight).id with ⟨s, found, -, again⟩ | ⟨none, -⟩
    · cases stored.symm.trans found
      exact again
    · cases none (daily eight) stored
  have queued := dues_again steady.consistent (s := daily eight) rfl rfl (daily eight).id
  rw [if_pos rfl, ← restarted, settings, same] at queued
  have tomorrow : (sceneFirings {} clock (daily eight)).map Errand.due = [⟨1, eight⟩] := by decide
  have kept : (start.apply (.restart (daily eight).id)).engine.scenes = dailyStore eight ∧
      (start.apply (.restart (daily eight).id)).engine.clock = clock := by
    rw [restarted, addScene_eq, enqueueAll_scenes, enqueueAll_clock, dropFirings_frame]
    exact ⟨scenes, same⟩
  refine ⟨t, ht, _, duty, (daily eight).id, daily eight, ?_, rfl, rfl, clock.addDays 1, ?_, ?_, ?_, ?_⟩
  · rw [kept.1]
    rfl
  · rw [kept.2]
    rfl
  · decide
  · decide
  · rw [kept.2, (queued.append_right _).nodup_iff, tomorrow]
    decide

end Engine

end HomeScenes
