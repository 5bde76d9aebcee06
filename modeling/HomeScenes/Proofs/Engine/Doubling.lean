import HomeScenes.Proofs.Engine.Rearming

/-!
# When firings are queued twice

Arming a scene drops its firings before it queues them, the arrangement queues those of the
next day without a look at the queue. So an instant comes into the queue twice if it is
there already when the arrangement runs, or if the timings of a scene fall together. As long
as neither is about to happen there are no duplicates; once it is, they can come about.
-/

namespace HomeScenes

namespace Engine

/-- No scene has two timer firings in the queue that are due at the same instant. -/
def NoDuplicates (e : Engine) : Prop :=
  ∀ scene, (dues scene e.server.queue.tasks).Nodup

/-- Some automatic scene has two firings for one instant among those that arming it would
queue now. -/
def Colliding (e : Engine) : Prop :=
  ∃ id s, e.scenes.get? id false = some s ∧ s.automatic = true ∧
    ¬ ((sceneFirings e.settings e.clock { s with armed := true }).map Errand.due).Nodup

/-- On some day after an arrangement, some live scene has a firing still ahead that is queued
already, or twice on that day. -/
def Overtaken (e : Engine) (time : LocalTime) : Prop :=
  ∃ id s, e.scenes.get? id false = some s ∧ s.automatic = true ∧ s.armed = true ∧
    ∃ day : LocalTime, day.offset = e.clock.offset ∧ time.day < day.day ∧
      s.repeatsOn day.weekday = true ∧
      ¬ (dues id e.server.queue.tasks ++ (timerFirings day e.clock s).map Errand.due).Nodup

end Engine

namespace Moment

/-- What is queued next may be queued twice: by arming a scene, or by the arrangement that is
queued or handed out, or by a later one. -/
def Doubling (m : Moment) : Prop :=
  m.engine.Colliding ∨ ∃ t ∈ m.engine.server.queue.tasks ++ m.handed, ∃ time,
    t.body = .arrange time ∧ m.engine.Overtaken time

end Moment

namespace Engine

variable {given : Settings} {good : SceneId → List TimeOfDay → Prop} {e : Engine} {m : Moment}
  {handed : List EngineTask} {time day : LocalTime} {id : SceneId} {s : Scene}

theorem nodup_hereditary : Hereditary fun _ xs => xs.Nodup where
  nil _ := List.nodup_nil
  perm same single := same.nodup_iff.mpr single
  sublist fewer single := single.sublist fewer

theorem armedDues_of_not_colliding (fine : ¬ Colliding e) :
    ArmedDues (fun _ xs => xs.Nodup) e := by
  intro id s found automatic
  by_contra twice
  exact fine ⟨id, s, found, automatic, twice⟩

theorem arrangedDues_of_not_overtaken (offset : time.offset = e.clock.offset)
    (fine : ¬ Overtaken e time) : ArrangedDues (fun _ xs => xs.Nodup) e time := by
  intro id s found automatic armed repeats
  by_contra twice
  have later : time.day < (time.addDays 1).day := by
    rw [LocalTime.day_addDays_one]
    omega
  exact fine ⟨id, s, found, automatic, armed, time.addDays 1, offset, later, repeats, twice⟩

/-- As long as nothing is doubled, a move makes no duplicates. -/
theorem NoDuplicates.apply (h : NoDuplicates m.engine) (running : Running given good m time)
    (fine : ¬ m.Doubling) {move : Move} (ok : m.Restarts move) :
    NoDuplicates (m.apply move).engine := by
  refine EachDues.apply h nodup_hereditary running ok (fun _ => ?_) fun _ => ?_
  · exact armedDues_of_not_colliding fun bad => fine (.inl bad)
  · refine arrangedDues_of_not_overtaken running.arranged.offset fun bad => fine (.inr ?_)
    obtain ⟨t, ht, duty, -⟩ := running.arranged.exists_task
    exact ⟨t, ht, time, duty, bad⟩

theorem noDuplicates_started {settings : Settings} {clock : LocalTime} {scenes : SceneStore}
    {devices : DeviceStore} {network : Network} {journal : Journal Ticket} (keyed : scenes.Keyed)
    (fine : ¬ Colliding (Moment.started settings clock scenes devices network journal).engine) :
    NoDuplicates (Moment.started settings clock scenes devices network journal).engine := by
  refine eachDues_started nodup_hereditary keyed fun id s found automatic _ => ?_
  by_contra twice
  refine fine ⟨id, s, ?_⟩
  rw [Moment.started_scenes, Moment.started_settings, Moment.started_clock]
  refine ⟨found, automatic, fun single => twice ?_⟩
  rw [sceneFirings_armed automatic, List.map_append] at single
  exact (List.nodup_append.mp single).1

structure Ahead (given : Settings) (good : SceneId → List TimeOfDay → Prop) (m : Moment)
    (time day : LocalTime) (id : SceneId) (s : Scene) : Prop extends Running given good m time where
  live : m.engine.scenes.get? id false = some s
  automatic : s.automatic = true
  armed : s.armed = true
  repeats : s.repeatsOn day.weekday = true
  offset : day.offset = m.engine.clock.offset
  later : time.day < day.day
  twice : ¬ (dues id m.engine.server.queue.tasks ++
    (timerFirings day m.engine.clock s).map Errand.due).Nodup

/-- The firings of a later day are all due later. -/
theorem lt_onSameDay (offset : time.offset = day.offset) (later : time.day < day.day)
    (at_ : TimeOfDay) : time.utc < (day.onSameDay at_).utc := by
  refine LocalTime.utc_lt_of_day_lt offset ?_
  have := LocalTime.le_day_onDay day.offset day.day at_
  rw [LocalTime.onSameDay_eq]
  omega

theorem timerFirings_later {clock : LocalTime} (offset : time.offset = day.offset)
    (later : time.day < day.day) (early : clock.utc ≤ time.utc) :
    timerFirings day clock s = timerFirings day ⟨time.utc, clock.offset⟩ s := by
  rw [timerFirings, timerFirings]
  refine congrArg (List.map _) (List.filter_congr fun at_ _ => ?_)
  have ahead := lt_onSameDay offset later at_
  rw [decide_eq_decide, not_iff_not, LocalTime.lt_def, LocalTime.lt_def]
  constructor
  · exact fun past => absurd (Std.lt_of_le_of_lt early ahead) (Std.not_lt.mpr (Std.le_of_lt past))
  · exact fun past => absurd ahead (Std.not_lt.mpr (Std.le_of_lt past))

theorem timerFirings_congr {clock other : LocalTime} (offset : other.offset = day.offset)
    (same : other.day = day.day) : timerFirings other clock s = timerFirings day clock s := by
  have shown : other.onSameDay = day.onSameDay := by
    funext at_
    rw [LocalTime.onSameDay_eq, LocalTime.onSameDay_eq, offset, same]
  rw [timerFirings, timerFirings, shown]

theorem Ahead.advance (h : Ahead given good m time day id s) (early : m.engine.now ≤ time.utc) :
    Ahead given good (m.apply (.advance time.utc)) time day id s where
  toRunning := h.toRunning.apply_none early rfl
  live := h.live
  automatic := h.automatic
  armed := h.armed
  repeats := h.repeats
  offset := h.offset
  later := h.later
  twice := by
    have same := h.arranged.offset.trans h.offset.symm
    have twice := h.twice
    rw [timerFirings_later same h.later early] at twice
    exact twice

/-- Handing out the arrangement takes no firing of a later day away. -/
theorem Ahead.tick (h : Ahead given good m time day id s) (single : NoDuplicates m.engine)
    (due : time.utc ≤ m.engine.now) (queued : ∃ t ∈ m.engine.server.queue.tasks,
      t.body = .arrange time ∧ t.due = time.utc) :
    Ahead given good (m.apply .tick) time day id s ∧ (m.apply .tick).engine.now = m.engine.now ∧
      (m.apply .tick).engine.server.queue.tasks.length < m.engine.server.queue.tasks.length := by
  have running : Running given good (m.apply .tick) time :=
    h.toRunning.apply_none trivial rfl
  obtain ⟨u, hu, -, onTime⟩ := queued
  rw [Moment.apply] at running ⊢
  obtain ⟨server, -, ⟨out, -, later⟩ | ⟨t, out, taken, -, first⟩⟩ := handOut_cases h.consistent.valid
  · have ahead := later u hu
    rw [onTime] at ahead
    exact absurd due (Std.not_le.mpr ahead)
  · rw [out] at running ⊢
    refine ⟨⟨running, h.live, h.automatic, h.armed, h.repeats, h.offset, h.later, ?_⟩, rfl, ?_⟩
    · intro fine
      have fine : (dues id server.queue.tasks ++
          (timerFirings day m.engine.clock s).map Errand.due).Nodup := fine
      have all : (dues id m.engine.server.queue.tasks).Perm (dues id (t :: server.queue.tasks)) :=
        dues_perm taken
      have alone := all.nodup_iff.mp (single id)
      refine h.twice ((all.append_right _).nodup_iff.mpr ?_)
      rw [dues_cons] at alone ⊢
      split
      · rename_i timed
        rw [if_pos timed, List.nodup_cons] at alone
        refine List.nodup_cons.mpr ⟨fun again => ?_, fine⟩
        rcases List.mem_append.mp again with again | again
        · exact alone.1 again
        · -- what is handed out is due no later than the arrangement
          obtain ⟨r, hr, same⟩ := List.mem_map.mp again
          obtain ⟨at_, -, -, rfl⟩ := mem_timerFirings.mp hr
          have ahead := lt_onSameDay (h.arranged.offset.trans h.offset.symm) h.later at_
          have before := first u hu
          rw [onTime, ← same] at before
          exact absurd ahead (Std.not_lt.mpr before)
      · exact fine
    · change server.queue.tasks.length < m.engine.server.queue.tasks.length
      rw [taken.length_eq, List.length_cons]
      omega

/-- The arrangement that is due can be handed out by ticks alone, or is already. -/
theorem Ahead.handedOut (h : Ahead given good m time day id s) (due : time.utc ≤ m.engine.now)
    (single : ∀ r, Moment.Runs Moment.Restarts m r → NoDuplicates r.engine) :
    ∃ r, Moment.Runs Moment.Restarts m r ∧ Ahead given good r time day id s ∧
      ∃ (place : Nat) (t : EngineTask), r.handed[place]? = some t ∧ t.body = .arrange time := by
  induction size : m.engine.server.queue.tasks.length using Nat.strongRecOn generalizing m with
  | ind n ih =>
    obtain ⟨t, ht, duty, onTime⟩ := h.arranged.exists_task
    rcases List.mem_append.mp ht with queued | out
    · have ticked : Moment.Runs Moment.Restarts m (m.apply .tick) := .step .refl .tick trivial
      obtain ⟨next, now, fewer⟩ := h.tick (single m .refl) due ⟨t, queued, duty, onTime⟩
      obtain ⟨r, run, found⟩ := ih _ (size ▸ fewer) next (now ▸ due)
        (fun r run => single r (ticked.trans run)) rfl
      exact ⟨r, ticked.trans run, found⟩
    · obtain ⟨place, inside, found⟩ := List.getElem_of_mem out
      exact ⟨m, .refl, h, place, t, List.getElem?_eq_some_iff.mpr ⟨inside, found⟩, duty⟩

/-- The arrangement queues the firings of its next day, whatever is queued. -/
theorem Ahead.run (h : Ahead given good m time day id s) {place : Nat} {t : EngineTask}
    (found : m.handed[place]? = some t) (duty : t.body = .arrange time) :
    ¬ NoDuplicates (m.apply (.run place)).engine ∨
      Ahead given good (m.apply (.run place)) (time.addDays 1) day id s := by
  have own : m.arranging? (.run place) = some time := by
    rw [Moment.arranging?, found, Option.bind_some, duty]
    rfl
  have forward : m.Forward (.run place) := trivial
  obtain ⟨-, -, running⟩ := h.toRunning.apply_some forward own
  obtain ⟨-, -, start, yes, before, after⟩ := runAt_effect found
  have stored := (stored_lasting _ _).stable.beside h.stored before
  rw [duty] at after
  have queued : (dues id (m.apply (.run place)).engine.server.queue.tasks).Perm
      (dues id m.engine.server.queue.tasks ++
        Errand.dues id (dayFirings m.engine.scenes m.engine.clock (time.addDays 1))) := by
    have added := dues_arrange stored time id
    obtain ⟨network, journal, entries, rfl⟩ := before
    obtain ⟨network', journal', entries', after⟩ := after
    rw [Moment.apply, after]
    exact added
  have kept : (m.apply (.run place)).engine.scenes = m.engine.scenes ∧
      (m.apply (.run place)).engine.clock = m.engine.clock := by
    have frame := arrange_eq start time stored.working
    obtain ⟨network', journal', entries', after⟩ := after
    rw [Moment.apply, after, Engine.effect, frame, enqueueAll_scenes, enqueueAll_clock]
    obtain ⟨network, journal, entries, rfl⟩ := before
    exact ⟨rfl, rfl⟩
  have next : (time.addDays 1).day = time.day + 1 := LocalTime.day_addDays_one time
  have same : (time.addDays 1).offset = day.offset := h.arranged.offset.trans h.offset.symm
  by_cases here : (time.addDays 1).day = day.day
  · refine .inl fun single => h.twice ?_
    have repeats : s.repeatsOn (time.addDays 1).weekday = true := by
      rw [LocalTime.weekday, here]
      exact h.repeats
    have all := queued.nodup_iff.mp (single id)
    rwa [dues_dayFirings_live h.stored.keyed h.live h.automatic h.armed repeats,
      timerFirings_congr same here] at all
  · refine .inr ⟨running, ?_, h.automatic, h.armed, h.repeats, ?_, ?_, ?_⟩
    · rw [kept.1]
      exact h.live
    · rw [kept.2]
      exact h.offset
    · have := h.later
      omega
    · rw [kept.2, (queued.append_right _).nodup_iff]
      refine fun fine => h.twice (fine.sublist ?_)
      exact (List.sublist_append_left _ _).append_right _

/-- Day by day the arrangement catches up with the firing, which is queued again then. -/
theorem Ahead.doubled (h : Ahead given good m time day id s) :
    ∃ r, Moment.Runs Moment.Restarts m r ∧ ¬ NoDuplicates r.engine := by
  by_contra none
  have single : ∀ r, Moment.Runs Moment.Restarts m r → NoDuplicates r.engine :=
    fun r run => by_contra fun twice => none ⟨r, run, twice⟩
  clear none
  induction ahead : (day.day - time.day).toNat generalizing m time with
  | zero =>
    have := h.later
    omega
  | succ n ih =>
    have due : ∃ r, Moment.Runs Moment.Restarts m r ∧ Ahead given good r time day id s ∧
        time.utc ≤ r.engine.now := by
      by_cases past : time.utc ≤ m.engine.now
      · exact ⟨m, .refl, h, past⟩
      · have early : m.engine.now ≤ time.utc := Std.le_of_lt (Std.not_le.mp past)
        exact ⟨_, .step .refl (.advance time.utc) early, h.advance early, Std.le_refl _⟩
    obtain ⟨q, waited, h, past⟩ := due
    obtain ⟨r, handed, h, place, t, found, duty⟩ :=
      h.handedOut past fun r run => single r (waited.trans run)
    have ran : Moment.Runs Moment.Restarts m (r.apply (.run place)) :=
      (waited.trans handed).step (.run place) trivial
    rcases h.run found duty with twice | next
    · exact twice (single _ ran)
    · refine ih next (fun r run => single r (ran.trans run)) ?_
      rw [LocalTime.day_addDays_one]
      omega

theorem Colliding.doubled (hc : Consistent m.engine m.handed) (hs : Stored given good m.engine)
    (h : Colliding m.engine) : ∃ r, Moment.Runs Moment.Restarts m r ∧ ¬ NoDuplicates r.engine := by
  obtain ⟨id, s, found, automatic, twice⟩ := h
  refine ⟨m.apply (.arm id), .step .refl (.arm id) trivial, fun single => twice ?_⟩
  rcases arm_cases hs.working id with ⟨missing, -⟩ | ⟨s', scenes, found', set, armed⟩
  · cases missing.symm.trans found
  · cases found.symm.trans found'
    have consistent : Consistent { m.engine with scenes := scenes } m.handed := hc.congr rfl rfl rfl
    have own : { s with armed := true }.id = id := (hs.keyed.id_eq found : s.id = id)
    have again := dues_again consistent own automatic id
    have single := single id
    rw [if_pos rfl] at again
    rw [Moment.apply, armed, if_pos automatic] at single
    exact again.nodup_iff.mp single

/-- From where something is doubled, duplicates can be reached. -/
theorem Running.doubled (running : Running given good m time) (h : m.Doubling) :
    ∃ r, Moment.Runs Moment.Restarts m r ∧ ¬ NoDuplicates r.engine := by
  rcases h with colliding | ⟨t, ht, own, duty, id, s, live, automatic, armed, day, offset, later,
    repeats, twice⟩
  · exact colliding.doubled running.consistent running.stored
  · obtain rfl := running.arranged.only ht duty
    have ahead : Ahead given good m own day id s :=
      ⟨running, live, automatic, armed, repeats, offset, later, twice⟩
    exact ahead.doubled

end Engine

end HomeScenes
