import HomeScenes.Proofs.Engine.Running

/-!
# No timer firing is lost

Up to the day of the arrangement, every firing of a live scene that is still ahead is
queued. Each day's firings are queued at the start, by the arrangement of the day before,
or when the scene is armed again; the day of the arrangement is at most today, or tomorrow
once today's time of arrangement is past, so that arming a scene again never falls short
of it.
-/

namespace HomeScenes

open LocalTime (onDay)

namespace Engine

/-- The firings of a scene up to a day which are still ahead are queued, if it is live. -/
def CoveredFor (e : Engine) (last : Int) (id : SceneId) : Prop :=
  ∀ s, e.scenes.get? id false = some s → s.automatic = true → s.armed = true →
    ∀ time ∈ s.timings, ∀ day ≤ last, s.repeatsOn (Date.weekday day) = true →
      e.now < (onDay e.clock.offset day time).utc →
        ∃ t ∈ e.server.queue.tasks, t.body = .fire id [] true ∧
          t.due = (onDay e.clock.offset day time).utc

/-- A day is not after today, or it is tomorrow and today's time of arrangement is past. -/
def Near (e : Engine) (last : Int) : Prop :=
  last ≤ e.clock.day ∨
    last = e.clock.day + 1 ∧ e.clock.onSameDay e.settings.arrangeAt ≤ e.clock

variable {e r : Engine} {handed : List EngineTask} {last : Int} {id scene : SceneId}
  {given : Settings}

abbrev OrdinaryTimes (_scene : SceneId) (times : List TimeOfDay) : Prop :=
  ∀ time ∈ times, time.Ordinary

/-- Only firings that are due by now may leave the queue. -/
theorem CoveredFor.mono (h : CoveredFor e last id)
    (scenes : ∀ s, r.scenes.get? id false = some s → e.scenes.get? id false = some s)
    (offset : r.clock.offset = e.clock.offset) (later : e.now ≤ r.now)
    (kept : ∀ t ∈ e.server.queue.tasks, t.body = .fire id [] true → r.now < t.due →
      t ∈ r.server.queue.tasks) : CoveredFor r last id := by
  intro s found automatic armed time htime day hday repeats ahead
  rw [offset] at ahead ⊢
  obtain ⟨t, ht, duty, due⟩ := h s (scenes s found) automatic armed time htime day hday repeats
    (Std.lt_of_le_of_lt later ahead)
  exact ⟨t, kept t ht duty (due ▸ ahead), duty, due⟩

theorem CoveredFor.enqueueAll (h : CoveredFor e last id) (rs : List Errand) :
    CoveredFor (e.enqueueAll rs) last id := by
  refine h.mono (fun s => ?_) ?_ ?_ fun t ht _ _ => ?_
  · rw [enqueueAll_scenes]
    exact fun found => found
  · rw [enqueueAll_clock]
  · rw [now, now, enqueueAll_clock]
    exact Std.le_refl _
  · exact (tasks_enqueueAll e rs).mem_iff.mpr (List.mem_append_left _ ht)

theorem CoveredFor.dropOther (h : CoveredFor e last id) (hc : Consistent e handed)
    (other : id ≠ scene) : CoveredFor (e.dropFirings scene).2 last id := by
  obtain ⟨-, left⟩ := hc.dropFirings scene
  rw [dropFirings_frame] at left ⊢
  refine h.mono (fun _ found => found) rfl (Std.le_refl _) fun t ht duty _ => ?_
  refine left.mem_iff.mpr (List.mem_filter.mpr ⟨ht, ?_⟩)
  rw [duty]
  simpa [Duty.timer?] using other

theorem CoveredFor.armOther (h : CoveredFor e last id) {armed : Bool} {scenes : SceneStore}
    (set : e.scenes.setArmed scene armed = .ok scenes) (other : id ≠ scene) :
    CoveredFor { e with scenes := scenes } last id := by
  refine h.mono (fun s found => ?_) rfl (Std.le_refl _) fun t ht _ _ => ht
  have found : scenes.get? id false = some s := found
  rwa [SceneStore.get?_setArmed set, if_neg other] at found

theorem covered_of_not_live (h : ∀ s, e.scenes.get? id false = some s →
    s.automatic = false ∨ s.armed = false) : CoveredFor e last id := by
  intro s found automatic armed
  rcases h s found with h | h
  · rw [automatic] at h
    cases h
  · rw [armed] at h
    cases h

/-- Scheduling a live scene covers it, up to any day that is near. -/
theorem covered_addScene {s : Scene} (hs : Stored given OrdinaryTimes e) (near : Near e last)
    (found : e.scenes.get? id false = some s) : CoveredFor (e.addScene s).2 last id := by
  rw [addScene_eq]
  intro s' found' automatic armed time htime day hday repeats ahead
  rw [enqueueAll_scenes, found] at found'
  obtain rfl : s = s' := Option.some.inj found'
  rw [now, enqueueAll_clock] at ahead
  rw [enqueueAll_clock]
  have ordinary := hs.timings id s found time htime
  have own := hs.keyed.id_eq found
  have notPast : e.clock.day ≤ day := by
    by_cases past : day < e.clock.day
    · have earlier : (onDay e.clock.offset day time).utc < e.clock.utc :=
        LocalTime.utc_lt_of_day_lt rfl (by rw [LocalTime.day_onDay ordinary]; exact past)
      exact absurd ahead (Std.not_lt.mpr (Std.le_of_lt earlier))
    · omega
  have inTime : ¬ onDay e.clock.offset day time < e.clock := by
    rw [LocalTime.lt_def]
    exact Std.not_lt.mpr (Std.le_of_lt ahead)
  have listed : firing s (onDay e.clock.offset day time).utc [] true none ∈
      sceneFirings e.settings e.clock s := by
    simp only [sceneFirings, automatic, armed, Bool.not_true, Bool.false_eq_true, if_false]
    by_cases today : day = e.clock.day
    · refine List.mem_append_left _ (mem_timerFirings.mpr ⟨time, htime, ?_⟩)
      rw [LocalTime.onSameDay_eq, ← today]
      exact ⟨inTime, rfl⟩
    · have tomorrow : day = (e.clock.addDays 1).day := by
        rw [LocalTime.day_addDays_one]
        rcases near with near | ⟨near, -⟩ <;> omega
      have passed : e.clock.onSameDay e.settings.arrangeAt ≤ e.clock := by
        rcases near with near | ⟨-, passed⟩
        · omega
        · exact passed
      rw [LocalTime.weekday, ← tomorrow, if_pos ⟨passed, repeats⟩]
      refine List.mem_append_right _ (mem_timerFirings.mpr ⟨time, htime, ?_⟩)
      rw [LocalTime.onSameDay_eq, ← tomorrow]
      exact ⟨inTime, rfl⟩
  obtain ⟨t, ht, duty, due⟩ := exists_queued e listed
  exact ⟨t, ht, own ▸ duty, due⟩

/-- Dropping the firings of a scene and scheduling it again leaves every scene covered. -/
theorem covered_again {s : Scene} (hc : Consistent e handed) (hs : Stored given OrdinaryTimes e)
    (near : Near e last) (found : e.scenes.get? scene false = some s)
    (others : ∀ id, id ≠ scene → CoveredFor e last id) (id : SceneId) :
    CoveredFor ((e.dropFirings scene).2.addScene s).2 last id := by
  by_cases same : id = scene
  · subst same
    have dropped := (stored_lasting given OrdinaryTimes).stable.drop id hs
    rw [dropFirings_frame] at dropped ⊢
    exact covered_addScene dropped near found
  · rw [addScene_eq]
    exact ((others id same).dropOther hc same).enqueueAll _

theorem covered_restart (hc : Consistent e handed) (hs : Stored given OrdinaryTimes e)
    (near : Near e last) (h : ∀ id, CoveredFor e last id) (id : SceneId) :
    CoveredFor (e.restart scene).2 last id := by
  rcases restart_cases hs.working scene with ⟨s, found, -, again⟩ | ⟨manual, dropped⟩
  · rw [again]
    exact covered_again hc hs near found (fun id _ => h id) id
  · rw [dropped]
    by_cases same : id = scene
    · refine covered_of_not_live fun s found => .inl (manual s ?_)
      rw [dropFirings_frame, same] at found
      exact found
    · exact (h id).dropOther hc same

theorem covered_arm (hc : Consistent e handed) (hs : Stored given OrdinaryTimes e)
    (near : Near e last) (h : ∀ id, CoveredFor e last id) (id : SceneId) :
    CoveredFor (e.arm scene).2 last id := by
  rcases arm_cases hs.working scene with ⟨-, missing⟩ | ⟨s, scenes, found, set, armed⟩
  · rw [missing]
    exact h id
  · have others : ∀ id, id ≠ scene → CoveredFor { e with scenes := scenes } last id :=
      fun id other => (h id).armOther set other
    have now : scenes.get? scene false = some { s with armed := true } := by
      rw [SceneStore.get?_setArmed set, if_pos rfl, found]
      rfl
    rw [armed]
    by_cases automatic : s.automatic = true
    · rw [if_pos automatic]
      have consistent : Consistent { e with scenes := scenes } handed := hc.congr rfl rfl rfl
      exact covered_again consistent (hs.armed set) near now others id
    · rw [if_neg automatic]
      by_cases same : id = scene
      · refine covered_of_not_live fun s' found' => .inl ?_
        have found' : scenes.get? id false = some s' := found'
        rw [same, now] at found'
        cases found'
        exact Bool.eq_false_iff.mpr automatic
      · exact others id same

theorem covered_disarm (hc : Consistent e handed) (hs : Stored given OrdinaryTimes e)
    (h : ∀ id, CoveredFor e last id) (id : SceneId) : CoveredFor (e.disarm scene).2 last id := by
  have dropped : ∀ id, id ≠ scene → CoveredFor (e.dropFirings scene).2 last id :=
    fun id other => (h id).dropOther hc other
  rcases disarm_cases hs.working scene with ⟨missing, left⟩ | ⟨scenes, set, left⟩
  · rw [left]
    by_cases same : id = scene
    · refine covered_of_not_live fun s found => ?_
      rw [dropFirings_frame, same] at found
      cases missing.symm.trans found
    · exact dropped id same
  · rw [left]
    by_cases same : id = scene
    · refine covered_of_not_live fun s found => .inr ?_
      have found : scenes.get? id false = some s := found
      rw [SceneStore.get?_setArmed set, if_pos same] at found
      obtain ⟨old, -, rfl⟩ := Option.map_eq_some_iff.mp found
      rfl
    · have set : (e.dropFirings scene).2.scenes.setArmed scene false = .ok scenes := by
        rw [dropFirings_frame]
        exact set
      exact (dropped id same).armOther set same

/-- Queueing the firings of a day covers that day too. -/
theorem covered_day {day : LocalTime} (hs : Stored given OrdinaryTimes e)
    (offset : day.offset = e.clock.offset) (h : CoveredFor e (day.day - 1) id) {rs : List Errand}
    (listed : ∀ r ∈ dayFirings e.scenes e.clock day, r ∈ rs) :
    CoveredFor (e.enqueueAll rs) day.day id := by
  intro s found automatic armed time htime d hd repeats ahead
  by_cases before : d ≤ day.day - 1
  · exact h.enqueueAll _ s found automatic armed time htime d before repeats ahead
  · have here : d = day.day := by omega
    subst here
    rw [enqueueAll_scenes] at found
    rw [now, enqueueAll_clock] at ahead
    rw [enqueueAll_clock]
    have own := hs.keyed.id_eq found
    have live : s ∈ e.scenes.armedFor day.weekday :=
      (SceneStore.mem_live_iff hs.keyed).mpr ⟨by rw [own]; exact found, automatic, armed, repeats⟩
    have due : day.onSameDay time = onDay e.clock.offset day.day time := by
      rw [LocalTime.onSameDay_eq, offset]
    have inTime : ¬ day.onSameDay time < e.clock := by
      rw [due, LocalTime.lt_def]
      exact Std.not_lt.mpr (Std.le_of_lt ahead)
    have queued : firing s (onDay e.clock.offset day.day time).utc [] true none ∈ rs := by
      refine listed _ (List.mem_flatMap.mpr ⟨s, ?_, ?_⟩)
      · exact List.mem_filter.mpr ⟨live, hasTiming_of_mem htime⟩
      · exact mem_timerFirings.mpr ⟨time, htime, inTime, by rw [due]⟩
    obtain ⟨t, ht, duty, due⟩ := exists_queued e queued
    exact ⟨t, ht, own ▸ duty, due⟩

/-- The arrangement queues the firings of the day after its own. -/
theorem covered_arrange {time : LocalTime} (hs : Stored given OrdinaryTimes e)
    (offset : time.offset = e.clock.offset) (h : CoveredFor e time.day id) :
    CoveredFor (e.arrange time).2 (time.day + 1) id := by
  have next : (time.addDays 1).day = time.day + 1 := LocalTime.day_addDays_one time
  rw [arrange_eq e time hs.working, ← next]
  have same : (time.addDays 1).offset = e.clock.offset := offset
  refine covered_day hs same ?_ fun r hr => List.mem_cons_of_mem _ hr
  rw [next, Int.add_sub_cancel]
  exact h

/-- Nothing is left of the days before today. -/
theorem covered_past (hs : Stored given OrdinaryTimes e) (past : last < e.clock.day) :
    CoveredFor e last id := by
  intro s found _ _ time htime day hday _ ahead
  have earlier : (onDay e.clock.offset day time).utc < e.clock.utc := by
    refine LocalTime.utc_lt_of_day_lt rfl ?_
    rw [LocalTime.day_onDay (hs.timings id s found time htime)]
    omega
  exact absurd ahead (Std.not_lt.mpr (Std.le_of_lt earlier))

/-- Arranging when it is due leads to a day that is near. -/
theorem near_next {time : LocalTime} (offset : time.offset = e.clock.offset)
    (onTime : time = onDay time.offset time.day e.settings.arrangeAt) (due : time.utc ≤ e.now) :
    Near e (time.day + 1) := by
  have notAfter := LocalTime.day_le_of_utc_le offset due
  by_cases earlier : time.day < e.clock.day
  · exact .inl (by omega)
  · have today : time.day = e.clock.day := by omega
    refine .inr ⟨by omega, ?_⟩
    rw [LocalTime.onSameDay_eq, ← today, ← offset, ← onTime]
    exact due

theorem Near.later (h : Near e last) (settings : r.settings = e.settings)
    (offset : r.clock.offset = e.clock.offset) (later : e.now ≤ r.now) : Near r last := by
  have days := LocalTime.day_le_of_utc_le offset.symm later
  rcases h with h | ⟨tomorrow, passed⟩
  · exact .inl (by omega)
  · by_cases same : e.clock.day = r.clock.day
    · refine .inr ⟨by omega, ?_⟩
      rw [LocalTime.onSameDay_eq, settings, offset, ← same]
      exact LocalTime.le_def.mpr (Std.le_trans (LocalTime.le_def.mp passed) later)
    · exact .inl (by omega)

/-- Any duty but an arrangement leaves the scenes covered. -/
theorem covered_effect {t : EngineTask} (hc : Consistent e (t :: handed))
    (hs : Stored given OrdinaryTimes e) (near : Near e last) (h : ∀ id, CoveredFor e last id)
    (yes : Bool) (other : t.body.arrangement? = none) (id : SceneId) :
    CoveredFor (e.effect t.handle yes t.body) last id := by
  rcases effect_cases e t.handle yes other with ⟨scene, lineage, timed, rs, duty, -, effect⟩ |
    ⟨kind, lineage, rs, duty, -, effect⟩ | ⟨scene, lineage, duty, effect⟩ |
    ⟨scene, lineage, duty, effect⟩
  · have forgotten : CoveredFor (e.forgetPending scene t.id) last id := by
      rw [forgetPending_frame]
      exact (h id).mono (fun _ found => found) rfl (Std.le_refl _) fun t ht _ _ => ht
    rw [effect]
    exact forgotten.enqueueAll rs
  · rw [effect]
    exact (h id).enqueueAll rs
  · rw [effect]
    exact covered_arm (hc.acted (by rw [duty]; rfl)) hs near h id
  · rw [effect]
    exact covered_disarm (hc.acted (by rw [duty]; rfl)) hs h id

end Engine

/-- Moves of a day: no scene is stored, no firings are dropped by themselves, and the clock
does not go back. -/
def Moment.Allows (m : Moment) : Move → Prop
  | .save _ => False
  | .drop _ => False
  | .advance utc => m.engine.now ≤ utc
  | _ => True

namespace Engine

theorem forward_of_allows {m : Moment} {move : Move} (ok : m.Allows move) : m.Forward move := by
  cases move <;> first | exact ok | trivial

structure Covered (given : Settings) (m : Moment) (time : LocalTime) : Prop
    extends Running given OrdinaryTimes m time where
  onTime : time = onDay time.offset time.day given.arrangeAt
  near : Near m.engine time.day
  covers : ∀ id, CoveredFor m.engine time.day id

theorem Covered.handOut {m : Moment} {time : LocalTime} (h : Covered given m time) (id : SceneId) :
    CoveredFor m.handOut.engine time.day id := by
  obtain ⟨server, -, ⟨out, same, -⟩ | ⟨t, out, taken, due, -⟩⟩ := handOut_cases h.consistent.valid
  · rw [out]
    exact (h.covers id).mono (fun _ found => found) rfl (Std.le_refl _)
      fun _ ht _ _ => same.mem_iff.mpr ht
  · rw [out]
    refine (h.covers id).mono (fun _ found => found) rfl (Std.le_refl _) fun u hu _ ahead => ?_
    rcases List.mem_cons.mp (taken.mem_iff.mp hu) with rfl | hu
    · exact absurd ahead (Std.not_lt.mpr due)
    · exact hu

theorem Covered.outer {m : Moment} {time : LocalTime} (h : Covered given m time) {move : Move}
    (outer : move.Outer) (ok : m.Allows move) (id : SceneId) :
    CoveredFor (m.apply move).engine time.day id := by
  have working := h.stored.working
  have kept : ∀ rs, CoveredFor (m.engine.enqueueAll rs) time.day id :=
    fun rs => (h.covers id).enqueueAll rs
  cases move with
  | addScene s =>
    rw [Moment.apply, addScene_eq]
    exact kept _
  | addById scene =>
    simp only [Moment.apply, addSceneById]
    split
    · exact h.covers id
    · rw [addScene_eq]
      exact kept _
  | addForDay day =>
    rw [Moment.apply, addForDay_eq _ _ working]
    exact kept _
  | restart scene => exact covered_restart h.consistent h.stored h.near h.covers id
  | arm scene => exact covered_arm h.consistent h.stored h.near h.covers id
  | disarm scene => exact covered_disarm h.consistent h.stored h.covers id
  | change device attr =>
    rw [Moment.apply, deviceChanged_eq _ _ _ working]
    exact kept _
  | deleteScene scene =>
    rw [Moment.apply, Engine.deleteScene, changeScenes, working]
    dsimp only
    cases gone : m.engine.scenes.softDelete scene m.engine.now with
    | error failure => exact h.covers id
    | ok scenes =>
      refine (h.covers id).mono (fun s found => ?_) rfl (Std.le_refl _) fun _ ht _ _ => ht
      have found : scenes.get? id false = some s := found
      rw [SceneStore.get?_softDelete gone] at found
      split at found
      · cases found
      · exact found
  | deleteDevice device =>
    rw [Moment.apply, Engine.deleteDevice]
    split
    · exact h.covers id
    · split
      · exact h.covers id
      · exact (h.covers id).mono (fun _ found => found) rfl (Std.le_refl _) fun _ ht _ _ => ht
  | network network =>
    exact (h.covers id).mono (fun _ found => found) rfl (Std.le_refl _) fun _ ht _ _ => ht
  | drop scene => exact ok.elim
  | save s => exact ok.elim
  | advance utc => exact outer.elim
  | tick => exact outer.elim
  | run place => exact outer.elim

theorem Covered.runAt {m : Moment} {time : LocalTime} (h : Covered given m time) {place : Nat}
    {t : EngineTask} (found : m.handed[place]? = some t) (id : SceneId) :
    match t.body.arrangement? with
    | none => CoveredFor (m.runAt place).engine time.day id
    | some _ => CoveredFor (m.runAt place).engine (time.day + 1) id := by
  obtain ⟨perm, left, start, yes, before, after⟩ := runAt_effect found
  have consistent := (consistent_stable _).beside (h.consistent.perm perm.symm) before
  have arranged := ((arranged_stable _ _).beside
    ⟨h.consistent.perm perm.symm, h.arranged.perm perm.symm⟩ before).2
  have stored := (stored_lasting _ _).stable.beside h.stored before
  have near : Near start time.day := by
    obtain ⟨network, journal, entries, rfl⟩ := before
    exact h.near
  have covers : ∀ id, CoveredFor start time.day id := by
    obtain ⟨network, journal, entries, rfl⟩ := before
    exact h.covers
  have finish : ∀ {last : Int}, CoveredFor (start.effect t.handle yes t.body) last id →
      CoveredFor (m.runAt place).engine last id := by
    intro last done
    obtain ⟨network, journal, entries, same⟩ := after
    rw [same]
    exact done
  cases own : t.body.arrangement? with
  | none => exact finish (covered_effect consistent stored near covers yes own id)
  | some other =>
    have released := arranged.release
    rw [own] at released
    obtain ⟨rfl, -, -⟩ := released
    refine finish ?_
    rw [Duty.eq_arrange own]
    exact covered_arrange stored arranged.offset (covers id)

/-- The scenes stay covered unless the arrangement runs. -/
theorem Covered.covers_none {m : Moment} {time : LocalTime} (h : Covered given m time) {move : Move}
    (ok : m.Allows move) (other : m.arranging? move = none) (id : SceneId) :
    CoveredFor (m.apply move).engine time.day id := by
  by_cases outer : move.Outer
  · exact h.outer outer ok id
  · cases move with
    | save s => exact ok.elim
    | advance utc => exact (h.covers id).mono (fun _ found => found) rfl ok fun _ ht _ _ => ht
    | tick => exact h.handOut id
    | run place =>
      rw [Moment.apply]
      cases found : m.handed[place]? with
      | none =>
        rw [runAt_none found]
        exact h.covers id
      | some t =>
        have own : t.body.arrangement? = none := by
          rw [Moment.arranging?, found] at other
          exact other
        have covered := h.runAt found id
        rw [own] at covered
        exact covered
    | _ => exact absurd trivial outer

/-- When the arrangement runs, they are covered for one day more. -/
theorem Covered.covers_some {m : Moment} {time own : LocalTime} (h : Covered given m time)
    {move : Move} (arranges : m.arranging? move = some own) (id : SceneId) :
    CoveredFor (m.apply move).engine (time.day + 1) id := by
  cases move with
  | run place =>
    obtain ⟨t, found, duty⟩ := Option.bind_eq_some_iff.mp arranges
    have covered := h.runAt found id
    rw [duty] at covered
    exact covered
  | _ => cases arranges

theorem Covered.apply {m : Moment} {time : LocalTime} (ordinary : given.arrangeAt.Ordinary)
    (h : Covered given m time) {move : Move} (ok : m.Allows move) :
    ∃ time, Covered given (m.apply move) time := by
  have forward := forward_of_allows ok
  obtain ⟨settings, offset, later⟩ := h.toRunning.later forward
  cases arranging : m.arranging? move with
  | none =>
    exact ⟨time, h.toRunning.apply_none forward arranging, h.onTime,
      h.near.later settings offset later, h.covers_none ok arranging⟩
  | some own =>
    obtain ⟨rfl, due, running⟩ := h.toRunning.apply_some forward arranging
    have next : (own.addDays 1).day = own.day + 1 := LocalTime.day_addDays_one own
    have onTime : own = onDay own.offset own.day m.engine.settings.arrangeAt := by
      rw [h.stored.settings]
      exact h.onTime
    refine ⟨own.addDays 1, running, ?_, ?_, ?_⟩
    · rw [next, LocalTime.addDays_offset]
      nth_rewrite 1 [h.onTime]
      exact LocalTime.addDays_onDay ordinary 1
    · rw [next]
      exact (near_next h.arranged.offset onTime due).later settings offset later
    · rw [next]
      exact h.covers_some arranging

theorem covered_started {settings : Settings} {clock : LocalTime} {scenes : SceneStore}
    {devices : DeviceStore} {network : Network} {journal : Journal Ticket} (keyed : scenes.Keyed)
    (ordinary : settings.arrangeAt.Ordinary)
    (timings : ∀ id s, scenes.get? id false = some s → OrdinaryTimes id s.timings) :
    Covered settings (Moment.started settings clock scenes devices network journal)
      (clock.onSameDay settings.arrangeAt) := by
  have today : (clock.onSameDay settings.arrangeAt).day = clock.day := LocalTime.day_onDay ordinary
  refine ⟨running_started clock devices network journal keyed timings, ?_, ?_, ?_⟩
  · rw [today]
    rfl
  · rw [today, Near, Moment.started_clock]
    exact .inl (Int.le_refl _)
  · intro id
    have stored : Stored settings OrdinaryTimes
        (ofParts settings clock scenes devices network journal) := ⟨rfl, rfl, keyed, timings⟩
    have offset : clock.offset = (ofParts settings clock scenes devices network journal).clock.offset :=
      rfl
    rw [today, Moment.started_engine]
    refine covered_day stored offset ?_ fun r hr => List.mem_append_left _ hr
    exact covered_past stored (show clock.day - 1 < clock.day by omega)

/-- In every state that a started engine reaches, one arrangement is queued or handed out, and
up to its day, every timer firing of a live scene which is still ahead is queued. -/
theorem no_firing_lost {settings : Settings} {clock : LocalTime} {scenes : SceneStore}
    {devices : DeviceStore} {network : Network} {journal : Journal Ticket} {m : Moment}
    (reached : scenes.Reached) (ordinary : settings.arrangeAt.Ordinary)
    (timings : ∀ id s, scenes.get? id false = some s → ∀ time ∈ s.timings, time.Ordinary)
    (run : Moment.Runs Moment.Allows
      (Moment.started settings clock scenes devices network journal) m) :
    ∃ due, arrangements (m.engine.server.queue.tasks ++ m.handed) =
        [(due, ⟨due, m.engine.clock.offset⟩)] ∧
      ∀ id s, m.engine.scenes.get? id false = some s → s.automatic = true → s.armed = true →
        ∀ time ∈ s.timings, ∀ day : LocalTime, day.offset = m.engine.clock.offset →
          day.day ≤ (LocalTime.mk due m.engine.clock.offset).day →
          s.repeatsOn day.weekday = true → m.engine.clock < day.onSameDay time →
            ∃ t ∈ m.engine.server.queue.tasks,
              t.body = .fire id [] true ∧ t.due = (day.onSameDay time).utc := by
  have always : ∃ time, Covered settings m time := by
    refine run.invariant (P := fun m => ∃ time, Covered settings m time)
      ⟨_, covered_started reached.keyed ordinary timings⟩ ?_
    rintro s move ok ⟨time, covered⟩
    exact covered.apply ordinary ok
  obtain ⟨time, covered⟩ := always
  have same : LocalTime.mk time.utc m.engine.clock.offset = time := by
    rw [← covered.arranged.offset]
  refine ⟨time.utc, by rw [same]; exact covered.arranged.single, ?_⟩
  intro id s found automatic armed at_ hat day offset hday repeats ahead
  rw [same] at hday
  have due : day.onSameDay at_ = onDay m.engine.clock.offset day.day at_ := by
    rw [LocalTime.onSameDay_eq, offset]
  rw [due] at ahead ⊢
  exact covered.covers id s found automatic armed at_ hat day.day hday repeats ahead

/-- With one scene stored, half an hour after midnight its firing at eight is queued. -/
theorem no_firing_lost_morning :
    let clock : LocalTime := ⟨⟨0, .midnight⟩, 0⟩
    let later : Instant := ⟨0, ⟨1800, 0, by decide, by decide⟩⟩
    let eight : TimeOfDay := ⟨28800, 0, by decide, by decide⟩
    let m := (Moment.started {} clock (dailyStore eight) {} default default).apply (.advance later)
    ∃ t ∈ m.engine.server.queue.tasks,
      t.body = .fire (daily eight).id [] true ∧ t.due = ⟨0, eight⟩ := by
  intro clock later eight m
  have first := arranged_started {} clock (dailyStore eight) {} default default
  have ordinary : (Settings.arrangeAt {}).Ordinary := show 0 < 1000000000 by decide
  have timings : ∀ id s, (dailyStore eight).get? id false = some s →
      ∀ time ∈ s.timings, time.Ordinary :=
    dailyStore_all (show 0 < 1000000000 by decide)
  have forward : (Moment.started {} clock (dailyStore eight) {} default default).Allows
      (.advance later) := by
    change now _ ≤ later
    rw [now, Moment.started_clock]
    decide
  obtain ⟨due, single, covers⟩ :=
    no_firing_lost (dailyStore_reached eight) ordinary timings (.step .refl (.advance later) forward)
  have arranged : due = (clock.onSameDay (Settings.arrangeAt {})).utc := by
    have same := single.symm.trans first.single
    injection same with head
    exact (Prod.mk.inj head).1
  have stored : m.engine.scenes.get? (daily eight).id false = some (daily eight) := by
    change (Moment.started {} clock _ {} default default).engine.scenes.get? _ false = _
    rw [Moment.started_scenes]
    rfl
  have offset : m.engine.clock.offset = 0 :=
    congrArg LocalTime.offset (Moment.started_clock {} clock _ {} default default)
  have today : clock.day ≤ (LocalTime.mk due m.engine.clock.offset).day := by
    rw [offset, arranged]
    exact Int.le_of_eq (LocalTime.day_onDay ordinary : (onDay 0 clock.day _).day = clock.day).symm
  have firing : (clock.onSameDay eight).utc = ⟨0, eight⟩ := by
    rw [LocalTime.onSameDay_eq, LocalTime.utc_onDay (show eight.nano < 1000000000 by decide)]
    decide
  have ahead : m.engine.clock < clock.onSameDay eight := by
    rw [LocalTime.lt_def, firing]
    decide
  rw [← firing]
  exact covers (daily eight).id (daily eight) stored rfl rfl eight (List.mem_singleton_self eight)
    clock offset.symm today (by decide) ahead

end Engine

end HomeScenes
