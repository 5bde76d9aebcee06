import HomeScenes.Proofs.Calendar.Days
import HomeScenes.Proofs.Engine.Pending

/-!
# The daily arrangement

Once the engine is started there is one arrangement, queued or handed out, whatever else
happens. Only when it runs does another take its place, a day later.
-/

namespace HomeScenes

namespace Engine

def arrangements (ts : List EngineTask) : List (Instant × LocalTime) :=
  ts.filterMap fun t => t.body.arrangement?.map fun time => (t.due, time)

def stamp (time : LocalTime) : Instant × LocalTime :=
  (time.utc, time)

/-- One arrangement is queued or handed out, and no task was handed out before it was due. -/
structure Arranged (e : Engine) (handed : List EngineTask) (time : LocalTime) : Prop where
  single : arrangements (e.server.queue.tasks ++ handed) = [(time.utc, time)]
  offset : time.offset = e.clock.offset
  due : ∀ t ∈ handed, t.due ≤ e.now

variable {e r : Engine} {handed : List EngineTask} {time : LocalTime} {m : Moment}

theorem arrangements_append (ts us : List EngineTask) :
    arrangements (ts ++ us) = arrangements ts ++ arrangements us :=
  List.filterMap_append

theorem arrangements_eq_nil {ts : List EngineTask} :
    arrangements ts = [] ↔ ∀ t ∈ ts, t.body.arrangement? = none := by
  simp [arrangements, List.filterMap_eq_nil_iff]

theorem arrangements_tasks {rs : List Errand} (h : ∀ r ∈ rs, r.duty.arrangement? = none) (n : Nat) :
    arrangements (Errand.tasks n rs) = [] := by
  rw [arrangements_eq_nil]
  intro t ht
  obtain ⟨r, hr, i, rfl, -⟩ := Errand.mem_tasks ht
  exact h r hr

theorem arrangements_enqueueAll {rs : List Errand} (others : ∀ r ∈ rs, r.duty.arrangement? = none) :
    (arrangements ((e.enqueueAll rs).server.queue.tasks ++ handed)).Perm
      (arrangements (e.server.queue.tasks ++ handed)) := by
  refine (((tasks_enqueueAll e rs).append_right handed).filterMap _).trans ?_
  change (arrangements _).Perm _
  rw [arrangements_append, arrangements_append, arrangements_tasks others, List.append_nil,
    ← arrangements_append]

theorem arrangements_arrangement (e : Engine) (handed : List EngineTask) (time : LocalTime) :
    (arrangements ((e.enqueue (arrangement time)).server.queue.tasks ++ handed)).Perm
      ((time.utc, time) :: arrangements (e.server.queue.tasks ++ handed)) :=
  ((DueQueue.tasks_push e.server.queue _).append_right handed).filterMap _

theorem Consistent.arrangements_dropFirings (h : Consistent e handed) (scene : SceneId) :
    (arrangements ((e.dropFirings scene).2.server.queue.tasks ++ handed)).Perm
      (arrangements (e.server.queue.tasks ++ handed)) := by
  obtain ⟨-, left⟩ := h.dropFirings scene
  refine ((left.append_right handed).filterMap _).trans ?_
  change (arrangements _).Perm _
  rw [arrangements_append, arrangements_append, arrangements, List.filterMap_filter]
  refine List.Perm.append_right _ (List.Perm.of_eq (List.filterMap_congr fun t _ => ?_))
  split
  · rfl
  · rename_i timed
    have timed : t.body.timer? = some scene := by simpa using timed
    cases duty : t.body with
    | fire own lineage timed => rfl
    | act kind lineage => rw [duty] at timed; cases timed
    | arrange time => rw [duty] at timed; cases timed

theorem arrangements_handOut (hv : m.engine.server.queue.Valid) :
    (arrangements (m.handOut.engine.server.queue.tasks ++ m.handOut.handed)).Perm
      (arrangements (m.engine.server.queue.tasks ++ m.handed)) := by
  refine List.Perm.filterMap _ ?_
  obtain ⟨server, -, ⟨out, same, -⟩ | ⟨t, out, taken, -, -⟩⟩ := handOut_cases hv
  · rw [out]
    exact same.append_right m.handed
  · rw [out, ← List.append_assoc]
    exact (List.perm_append_singleton t _).trans (taken.append_right m.handed).symm

/-- The arrangements among the tasks stay whatever is queued but an arrangement. -/
theorem arrangements_stable (handed : List EngineTask) (stamps : List (Instant × LocalTime)) :
    Stable fun e => Consistent e handed ∧
      (arrangements (e.server.queue.tasks ++ handed)).Perm stamps where
  enqueue {e r} other h := by
    have others : ∀ u ∈ [r], u.duty.arrangement? = none :=
      fun u hu => List.mem_singleton.mp hu ▸ other
    exact ⟨h.1.enqueue r, (arrangements_enqueueAll others).trans h.2⟩
  drop scene h := ⟨(h.1.dropFirings scene).1, (h.1.arrangements_dropFirings scene).trans h.2⟩
  armed h _ := ⟨h.1.congr rfl rfl rfl, h.2⟩
  deleted h _ := ⟨h.1.congr rfl rfl rfl, h.2⟩
  aside h _ _ _ _ := ⟨h.1.congr rfl rfl rfl, h.2⟩

theorem arrangements_effect {t : EngineTask} (hc : Consistent e (t :: handed)) (yes : Bool) :
    (arrangements ((e.effect t.handle yes t.body).server.queue.tasks ++ handed)).Perm
      ((t.body.arrangement?.map fun time => stamp (time.addDays 1)).toList ++
        arrangements (e.server.queue.tasks ++ handed)) := by
  cases own : t.body.arrangement? with
  | none =>
    refine ((arrangements_stable handed _).effect t.handle yes own ?_ ?_).2
    · intro scene lineage timed duty
      refine ⟨hc.fired duty, ?_⟩
      rw [forgetPending_frame]
      exact .refl _
    · exact fun kind lineage duty => ⟨hc.acted (by rw [duty]; rfl), .refl _⟩
  | some time =>
    have duty := Duty.eq_arrange own
    have left := hc.acted (by rw [duty]; rfl)
    have queued := arrangements_arrangement e handed (time.addDays 1)
    rw [duty]
    exact ((arrangements_stable handed _).addForDay ⟨left.enqueue _, queued⟩ (time.addDays 1)).2

/-- A task that runs is let go, and if it is an arrangement the next one is queued. -/
theorem arrangements_runAt (hc : Consistent m.engine m.handed) {place : Nat} {t : EngineTask}
    (found : m.handed[place]? = some t) :
    ∃ rest, (arrangements (m.engine.server.queue.tasks ++ m.handed)).Perm
        ((t.body.arrangement?.map fun time => (t.due, time)).toList ++ rest) ∧
      (arrangements ((m.runAt place).engine.server.queue.tasks ++ (m.runAt place).handed)).Perm
        ((t.body.arrangement?.map fun time => stamp (time.addDays 1)).toList ++ rest) := by
  obtain ⟨perm, left, start, yes, before, after⟩ := runAt_effect found
  rw [left]
  generalize m.handed.eraseIdx place = handed at perm
  refine ⟨arrangements (m.engine.server.queue.tasks ++ handed), ?_, ?_⟩
  · have moved : (m.engine.server.queue.tasks ++ m.handed).Perm
        (t :: (m.engine.server.queue.tasks ++ handed)) :=
      (perm.append_left _).trans List.perm_middle
    refine (moved.filterMap _).trans ?_
    rw [List.filterMap_cons]
    cases t.body.arrangement? with
    | none => exact .refl _
    | some time => exact .refl _
  · have consistent := (consistent_stable _).beside (hc.perm perm.symm) before
    obtain ⟨network, journal, entries, rfl⟩ := before
    have ran := arrangements_effect consistent yes
    exact ((arrangements_stable handed _).beside ⟨consistent.effect yes, ran⟩ after).2

/-- The arrangement is among the tasks. -/
theorem Arranged.exists_task (h : Arranged e handed time) :
    ∃ t ∈ e.server.queue.tasks ++ handed, t.body = .arrange time ∧ t.due = time.utc := by
  have listed : (time.utc, time) ∈ arrangements (e.server.queue.tasks ++ handed) := by
    rw [h.single]
    exact List.mem_singleton_self _
  obtain ⟨t, ht, found⟩ := List.mem_filterMap.mp listed
  obtain ⟨own, duty, pair⟩ := Option.map_eq_some_iff.mp found
  obtain ⟨due, rfl⟩ := Prod.mk.inj pair
  exact ⟨t, ht, Duty.eq_arrange duty, due⟩

/-- Any arrangement among the tasks is that one. -/
theorem Arranged.only (h : Arranged e handed time) {t : EngineTask} {own : LocalTime}
    (ht : t ∈ e.server.queue.tasks ++ handed) (duty : t.body = .arrange own) : own = time := by
  have listed : (t.due, own) ∈ arrangements (e.server.queue.tasks ++ handed) :=
    List.mem_filterMap.mpr ⟨t, ht, by rw [duty]; rfl⟩
  rw [h.single, List.mem_singleton] at listed
  exact (Prod.mk.inj listed).2

theorem Arranged.replace (h : Arranged e handed time) {handed' : List EngineTask}
    (same : (arrangements (r.server.queue.tasks ++ handed')).Perm
      (arrangements (e.server.queue.tasks ++ handed)))
    (offset : r.clock.offset = e.clock.offset) (due : ∀ t ∈ handed', t.due ≤ r.now) :
    Arranged r handed' time where
  single := by
    rw [h.single] at same
    exact List.perm_singleton.mp same
  offset := h.offset.trans offset.symm
  due := due

theorem Arranged.congr (h : Arranged e handed time) (server : r.server.queue = e.server.queue)
    (clock : r.clock = e.clock) : Arranged r handed time := by
  refine h.replace ?_ (by rw [clock]) ?_
  · rw [server]
  · rw [now, clock]
    exact h.due

theorem Arranged.perm (h : Arranged e handed time) {handed' : List EngineTask}
    (perm : handed'.Perm handed) : Arranged e handed' time := by
  refine h.replace ?_ rfl fun t ht => h.due t (perm.mem_iff.mp ht)
  exact (perm.append_left _).filterMap _

theorem Arranged.enqueueAll (h : Arranged e handed time) {rs : List Errand}
    (others : ∀ r ∈ rs, r.duty.arrangement? = none) : Arranged (e.enqueueAll rs) handed time := by
  refine h.replace (arrangements_enqueueAll others) (by rw [enqueueAll_clock]) ?_
  rw [now, enqueueAll_clock]
  exact h.due

theorem Arranged.dropFirings (h : Arranged e handed time) (hc : Consistent e handed)
    (scene : SceneId) : Arranged (e.dropFirings scene).2 handed time := by
  have frame := dropFirings_frame e scene
  refine h.replace (hc.arrangements_dropFirings scene) (by rw [frame]) ?_
  rw [frame]
  exact h.due

/-- A task that is let go is the arrangement, or the arrangement is still there. -/
theorem Arranged.release {t : EngineTask} (h : Arranged e (t :: handed) time) :
    match t.body.arrangement? with
    | none => Arranged e handed time
    | some own => own = time ∧ t.due = time.utc ∧
        arrangements (e.server.queue.tasks ++ handed) = [] := by
  have moved : (arrangements (e.server.queue.tasks ++ t :: handed)).Perm
      (arrangements (t :: (e.server.queue.tasks ++ handed))) :=
    List.perm_middle.filterMap _
  have due : ∀ u ∈ handed, u.due ≤ e.now := fun u hu => h.due u (List.mem_cons_of_mem t hu)
  cases own : t.body.arrangement? with
  | none =>
    refine h.replace (moved.trans ?_).symm rfl due
    rw [arrangements, List.filterMap_cons, own]
    rfl
  | some own' =>
    rw [h.single, arrangements, List.filterMap_cons, own] at moved
    have parts := List.singleton_perm.mp moved
    simp only [Option.map_some, List.cons.injEq, Prod.mk.injEq] at parts
    obtain ⟨⟨hdue, htime⟩, rest⟩ := parts
    exact ⟨htime.symm, hdue.symm, rest.symm⟩

theorem arranged_stable (handed : List EngineTask) (time : LocalTime) :
    Stable fun e => Consistent e handed ∧ Arranged e handed time where
  enqueue {e r} other h := by
    have others : ∀ u ∈ [r], u.duty.arrangement? = none :=
      fun u hu => List.mem_singleton.mp hu ▸ other
    exact ⟨h.1.enqueue r, h.2.enqueueAll others⟩
  drop scene h := ⟨(h.1.dropFirings scene).1, h.2.dropFirings h.1 scene⟩
  armed h _ := ⟨h.1.congr rfl rfl rfl, h.2.congr rfl rfl⟩
  deleted h _ := ⟨h.1.congr rfl rfl rfl, h.2.congr rfl rfl⟩
  aside h _ _ _ _ := ⟨h.1.congr rfl rfl rfl, h.2.congr rfl rfl⟩

/-- Where there is no arrangement, one may be queued. -/
theorem arranged_enqueue (offset : time.offset = e.clock.offset) (due : ∀ t ∈ handed, t.due ≤ e.now)
    (none : arrangements (e.server.queue.tasks ++ handed) = []) :
    Arranged (e.enqueue (arrangement time)) handed time := by
  have queued := arrangements_arrangement e handed time
  rw [none] at queued
  exact ⟨List.perm_singleton.mp queued, offset, due⟩

theorem arranged_started (settings : Settings) (clock : LocalTime) (scenes : SceneStore)
    (devices : DeviceStore) (network : Network) (journal : Journal Ticket) :
    Arranged (Moment.started settings clock scenes devices network journal).engine []
      (clock.onSameDay settings.arrangeAt) := by
  rw [Moment.started_engine, enqueueAll_append]
  refine arranged_enqueue (by rw [enqueueAll_clock]; rfl) (fun t ht => absurd ht List.not_mem_nil) ?_
  rw [List.append_nil, arrangements_eq_nil]
  intro t ht
  obtain ⟨r, hr, i, rfl, -⟩ := Errand.mem_tasks ((tasks_enqueueAll _ _).mem_iff.mp ht)
  exact (dayFirings_root r hr).no_arrangement

theorem Arranged.handOut (hc : Consistent m.engine m.handed)
    (h : Arranged m.engine m.handed time) : Arranged m.handOut.engine m.handOut.handed time := by
  have same := arrangements_handOut hc.valid
  obtain ⟨server, -, ⟨out, -, -⟩ | ⟨t, out, -, due, -⟩⟩ := handOut_cases hc.valid
  · rw [out] at same ⊢
    exact h.replace same rfl h.due
  · rw [out] at same ⊢
    refine h.replace same rfl fun u hu => ?_
    rcases List.mem_append.mp hu with hu | hu
    · exact h.due u hu
    · rw [List.mem_singleton.mp hu]
      exact due

/-- Running a task leaves the arrangement, unless it is the arrangement that runs. -/
theorem Arranged.runAt (hc : Consistent m.engine m.handed)
    (h : Arranged m.engine m.handed time) {place : Nat} {t : EngineTask}
    (found : m.handed[place]? = some t) :
    match t.body.arrangement? with
    | none => Arranged (m.runAt place).engine (m.runAt place).handed time
    | some own => own = time ∧ time.utc ≤ m.engine.now ∧
        Arranged (m.runAt place).engine (m.runAt place).handed (time.addDays 1) := by
  have clock : (m.runAt place).engine.clock = m.engine.clock :=
    (clock_lasting m.engine.clock).runAt rfl place
  have due : ∀ u ∈ (m.runAt place).handed, u.due ≤ (m.runAt place).engine.now := by
    obtain ⟨-, left, -⟩ := runAt_effect found
    intro u hu
    rw [left] at hu
    rw [now, clock]
    exact h.due u (List.mem_of_mem_eraseIdx hu)
  obtain ⟨rest, before, after⟩ := arrangements_runAt hc found
  cases own : t.body.arrangement? with
  | none =>
    rw [own] at before after
    exact h.replace (after.trans before.symm) (by rw [clock]) due
  | some own' =>
    rw [own, h.single] at before
    rw [own] at after
    have parts := List.singleton_perm.mp before
    simp only [Option.map_some, Option.toList_some, List.cons_append, List.nil_append,
      List.cons.injEq, Prod.mk.injEq] at parts
    obtain ⟨⟨first, rfl⟩, rfl⟩ := parts
    refine ⟨rfl, ?_, List.perm_singleton.mp after, ?_, due⟩
    · rw [first]
      exact h.due t (List.mem_of_getElem? found)
    · rw [clock]
      exact h.offset

end Engine

def Moment.arranging? (m : Moment) : Move → Option LocalTime
  | .run place => (m.handed[place]?).bind fun t => t.body.arrangement?
  | _ => none

namespace Engine

/-- The arrangement stays through every move but the one that runs it; that one puts the
arrangement of the next day in its place. -/
theorem Arranged.apply {m : Moment} {time : LocalTime} (hc : Consistent m.engine m.handed)
    (h : Arranged m.engine m.handed time) {move : Move}
    (forward : ∀ utc, move = .advance utc → m.engine.now ≤ utc) :
    match m.arranging? move with
    | none => Arranged (m.apply move).engine (m.apply move).handed time
    | some own => own = time ∧ time.utc ≤ m.engine.now ∧
        Arranged (m.apply move).engine (m.apply move).handed (time.addDays 1) := by
  by_cases outer : move.Outer
  · obtain ⟨after, handed⟩ := (arranged_stable m.handed time).apply ⟨hc, h⟩ outer
    rw [handed]
    cases move <;> first | exact after.2 | exact outer.elim
  · cases move with
    | save s =>
      obtain ⟨scenes, frame⟩ := saveScene_frame m.engine s
      have saved : Arranged (m.apply (.save s)).engine m.handed time := by
        rw [Moment.apply, frame]
        exact h.congr rfl rfl
      exact saved
    | advance utc =>
      have later := forward utc rfl
      exact h.replace (.refl _) rfl fun t ht => Std.le_trans (h.due t ht) later
    | tick => exact h.handOut hc
    | run place =>
      simp only [Moment.arranging?, Moment.apply]
      cases found : m.handed[place]? with
      | none =>
        rw [runAt_none found]
        exact h
      | some t => exact h.runAt hc found
    | _ => exact absurd trivial outer

end Engine

end HomeScenes
