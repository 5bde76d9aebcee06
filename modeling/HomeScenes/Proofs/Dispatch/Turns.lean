import HomeScenes.Proofs.Dispatch.Timed

/-!
# Turns of a loop that goes on

What a turn comes to of a loop that nothing has told to end is said once, in `Turned`. Such a
loop is never past the instant at which its timer goes off, and whatever happens on virtual
time short of a stop leaves it so. Time never gets stuck: turns and passing time alone lead
to any later instant.
-/

namespace HomeScenes.Dispatch

variable {κ β ω : Type} [BEq κ] [Hashable κ]

variable {allowed : Stage κ β ω → Event κ β ω → Prop} {clock : Nat → Instant} {epoch : Instant}
  {s r s' : Stage κ β ω} {es es' : List (Event κ β ω)} {e : Event κ β ω} {l : Loop}

/-- The loop is there, and nothing has told it to end. -/
structure Stage.Going (s : Stage κ β ω) (l : Loop) : Prop where
  here : s.loop = some l
  running : l.ended = false
  unstopped : l.signal.stop = false
  held : l.signal.dropped = false

/-- How long the loop sleeps for a task that is not due yet. -/
def sleepFor (t : Task κ β ω) (now : Instant) : Nat :=
  if 0 ≤ t.due.since now then (t.due.since now).toNat else shortWait

/-- What a turn comes to of a loop that nothing has told to end. -/
inductive Turned (s : Stage κ β ω) (l : Loop) (clock : Instant) :
    Cause → Option (Task κ β ω) → Stage κ β ω → Prop where
  | signal (written : l.signal.written = true) :
      Turned s l clock .signal none
        { s with
          loop := some { l with
            signal := { l.signal with written := false }
            deadline := s.now + l.wait } }
  | notification (notified : s.server.notified = true) :
      Turned s l clock .notification none
        { s with
          server := { s.server with notified := false }
          loop := some { l with wait := shortWait, deadline := s.now + shortWait } }
  | idle (empty : s.server.queue.tasks = []) :
      Turned s l clock .timer none
        { s with loop := some { l with wait := idleWait, deadline := s.now + idleWait } }
  | wait {t : Task κ β ω} {q : DueQueue κ β ω} (valid : q.Valid)
      (same : q.tasks.Perm s.server.queue.tasks) (queued : t ∈ s.server.queue.tasks)
      (first : ∀ u ∈ s.server.queue.tasks, t.due ≤ u.due) (early : clock < t.due) :
      Turned s l clock .timer none
        { s with
          server := { s.server with queue := q }
          loop := some { l with
            wait := sleepFor t clock
            deadline := s.now + sleepFor t clock } }
  | ready {t : Task κ β ω} {q : DueQueue κ β ω} (valid : q.Valid)
      (taken : s.server.queue.tasks.Perm (t :: q.tasks)) (due : t.due ≤ clock)
      (first : ∀ u ∈ s.server.queue.tasks, t.due ≤ u.due) :
      Turned s l clock .timer (some t)
        { s with
          server := { s.server with queue := q }
          loop := some { l with wait := shortWait, deadline := s.now + shortWait } }

theorem round_going {l : Loop} (h : l.signal.stop = false) (now : Nat) :
    l.round now = { l with deadline := now + l.wait } := by
  rw [Loop.round, h]
  rfl

/-- A stage with the same loop. -/
theorem Stage.Going.carry (going : s.Going l) (same : s'.loop = s.loop) : s'.Going l :=
  ⟨same.trans going.here, going.running, going.unstopped, going.held⟩

/-- A loop that only begins another sleep goes on. -/
theorem Stage.Going.resleep (going : s.Going l) {wait deadline : Nat}
    (here : s'.loop = some { l with wait := wait, deadline := deadline }) :
    s'.Going { l with wait := wait, deadline := deadline } :=
  ⟨here, going.running, going.unstopped, going.held⟩

theorem Stage.Going.ready_iff (going : s.Going l) {cause : Cause} :
    s.Ready cause ↔ l.isReady s.server (expiry l.deadline ≤ s.now) cause = true := by
  constructor
  · rintro ⟨k, here, ready⟩
    cases here.symm.trans going.here
    exact ready
  · exact fun ready => ⟨l, going.here, ready⟩

/-- While the loop is asleep and nothing is there to wake it, it does not go on. -/
theorem Stage.Going.not_ready (going : s.Going l) (quiet : s.server.notified = false)
    (unwritten : l.signal.written = false) (ahead : s.now < expiry l.deadline) (cause : Cause) :
    ¬ s.Ready cause := by
  intro ready
  have there := going.ready_iff.mp ready
  cases cause with
  | signal => simp [Loop.isReady, unwritten, going.held] at there
  | notification => simp [Loop.isReady, quiet] at there
  | timer =>
    simp only [Loop.isReady, Bool.and_eq_true, decide_eq_true_eq] at there
    omega

/-- Time may pass then. -/
theorem Stage.Going.timely_pass (going : s.Going l) (quiet : s.server.notified = false)
    (unwritten : l.signal.written = false) (ahead : s.now < expiry l.deadline) {nanos : Nat}
    (fits : s.now + nanos ≤ expiry l.deadline) : (.pass nanos : Event κ β ω).Timely s := by
  refine ⟨going.not_ready quiet unwritten ahead, fun k here _ => ?_⟩
  cases here.symm.trans going.here
  exact fits

/-- And only when nothing is there to take up. -/
theorem Stage.Going.still (going : s.Going l) {nanos : Nat}
    (timely : (.pass nanos : Event κ β ω).Timely s) :
    ¬ (s.server.notified = true ∨ l.signal.written = true) := by
  rintro (notified | written)
  · refine timely.1 .notification (going.ready_iff.mpr ?_)
    simp [Loop.isReady, going.running, notified]
  · refine timely.1 .signal (going.ready_iff.mpr ?_)
    simp [Loop.isReady, going.running, written]

/-- A sleep is over when its timer goes off. -/
theorem isReady_of_expiry {q : Server κ β ω} {now : Nat} {cause : Cause}
    (ready : l.isReady q (expiry l.deadline ≤ now) cause = true) :
    l.isReady q (l.deadline ≤ now) cause = true := by
  cases cause with
  | signal =>
    rw [Loop.isReady] at ready ⊢
    exact ready
  | notification =>
    rw [Loop.isReady] at ready ⊢
    exact ready
  | timer =>
    simp only [Loop.isReady, Bool.and_eq_true, decide_eq_true_eq] at ready ⊢
    exact ⟨ready.1, Nat.le_trans (le_expiry l.deadline) ready.2⟩

/-- A cause that is there on virtual time lets the loop take a turn. -/
theorem Stage.Ready.turn {cause : Cause} (ready : s.Ready cause) (clock : Nat → Instant) :
    ∃ handed s', Step clock s (.turn cause handed) s' := by
  obtain ⟨l, here, ready⟩ := ready
  exact ⟨_, _, .turn cause here (isReady_of_expiry ready) rfl⟩

variable [LawfulBEq κ]

theorem Stage.Going.turned (going : s.Going l) (hv : s.server.queue.Valid) {cause : Cause}
    {handed : Option (Task κ β ω)} (step : Step clock s (.turn cause handed) s') :
    Turned s l (clock s.now) cause handed s' := by
  generalize he : Event.turn cause handed = e at step
  cases step with
  | @turn k r cause' there ready h =>
    subst h
    obtain ⟨rfl, rfl⟩ := Event.turn.inj he
    cases going.here.symm.trans there
    cases cause with
    | signal =>
      have written : l.signal.written = true := by
        simpa [Loop.isReady, going.running, going.held] using ready
      simp only [Loop.step, Loop.takeSignal, written, if_true,
        round_going (l := { l with signal := { l.signal with written := false } })
          going.unstopped]
      exact .signal written
    | notification =>
      have notified : s.server.notified = true := by
        simpa [Loop.isReady, going.running] using ready
      simp only [Loop.step, Loop.takeNotification,
        round_going (l := { l with wait := shortWait }) going.unstopped]
      exact .notification notified
    | timer =>
      simp only [Loop.step, Loop.takeTimer, Server.tick]
      cases hp : s.server.queue.pop? with
      | none =>
        simp only [Loop.waitAfter, round_going (l := { l with wait := idleWait }) going.unstopped]
        exact .idle (DueQueue.pop?_eq_none_iff.mp hp)
      | some p =>
        obtain ⟨t, rest⟩ := p
        obtain ⟨valid, perm, first⟩ := DueQueue.pop?_spec hv hp
        by_cases early : clock s.now < t.due
        · simp only [if_pos early, Loop.waitAfter, ← sleepFor.eq_1,
            round_going (l := { l with wait := sleepFor t (clock s.now) }) going.unstopped]
          refine .wait (DueQueue.push_valid valid (hv.apart perm)) ?_ ?_ first early
          · exact (DueQueue.tasks_push rest t).trans perm.symm
          · exact perm.mem_iff.mpr List.mem_cons_self
        · simp only [if_neg early, Loop.waitAfter,
            round_going (l := { l with wait := shortWait }) going.unstopped]
          exact .ready valid perm (Std.not_lt.mp early) first
  | _ => cases he

theorem shortWait_pos : 0 < shortWait := by decide

theorem idleWait_pos : 0 < idleWait := by decide

omit [BEq κ] [Hashable κ] [LawfulBEq κ] in
/-- A sleep for a task takes up all the time that is left. -/
theorem sleepFor_clockFrom (he : epoch.Ordinary) {t : Task κ β ω} (ht : t.due.Ordinary) {now : Nat}
    (early : Instant.clockFrom epoch now < t.due) :
    ((now + sleepFor t (Instant.clockFrom epoch now) : Nat) : Int) = t.due.since epoch := by
  have left := Instant.since_clockFrom he ht now
  have early := (Instant.clockFrom_lt_iff he ht).mp early
  rw [sleepFor, if_pos (by omega)]
  omega

/-- A queue of tasks with ordinary instants, and no loop or one that goes on, with its timer not
yet past. -/
structure Stage.Sound (s : Stage κ β ω) : Prop where
  valid : s.server.queue.Valid
  ordinary : ∀ t ∈ s.server.queue.tasks, t.due.Ordinary
  going : ∀ l, s.loop = some l → s.Going l
  onTime : ∀ l, s.loop = some l → s.now ≤ expiry l.deadline
  awake : ∀ l, s.loop = some l → 0 < l.wait

omit [LawfulBEq κ] in
theorem Stage.Sound.of_going (valid : s.server.queue.Valid)
    (ordinary : ∀ t ∈ s.server.queue.tasks, t.due.Ordinary) (going : s.Going l)
    (onTime : s.now ≤ expiry l.deadline) (awake : 0 < l.wait) : s.Sound := by
  have same {k : Loop} (here : s.loop = some k) : l = k :=
    Option.some.inj (going.here.symm.trans here)
  refine ⟨valid, ordinary, ?_, ?_, ?_⟩
  · intro k here
    exact same here ▸ going
  · intro k here
    exact same here ▸ onTime
  · intro k here
    exact same here ▸ awake

omit [LawfulBEq κ] in
/-- Another queue under the same loop. -/
theorem Stage.Sound.requeued (sound : s.Sound) {q : Server κ β ω} (valid : q.queue.Valid)
    (ordinary : ∀ t ∈ q.queue.tasks, t.due.Ordinary) :
    ({ s with server := q } : Stage κ β ω).Sound where
  valid := valid
  ordinary := ordinary
  going l here := (sound.going l here).carry rfl
  onTime := sound.onTime
  awake := sound.awake

theorem Stage.Sound.empty : (Stage.empty : Stage κ β ω).Sound where
  valid := DueQueue.empty_valid
  ordinary _ h := nomatch h
  going _ h := nomatch h
  onTime _ h := nomatch h
  awake _ h := nomatch h

omit [LawfulBEq κ] in
/-- The timer goes off at one instant. -/
theorem Stage.Sound.timer (sound : s.Sound) (going : s.Going l) (ready : s.Ready .timer) :
    s.now = expiry l.deadline := by
  have onTime := sound.onTime l going.here
  have elapsed := going.ready_iff.mp ready
  simp only [Loop.isReady, Bool.and_eq_true, decide_eq_true_eq] at elapsed
  omega

omit [LawfulBEq κ] in
/-- What a turn leaves of a sound stage: the loop begins a new sleep. -/
theorem Turned.sleeps (he : epoch.Ordinary) (sound : s.Sound) (going : s.Going l) {cause : Cause}
    {handed : Option (Task κ β ω)}
    (turned : Turned s l (Instant.clockFrom epoch s.now) cause handed s') :
    ∃ k, s'.Going k ∧ 0 < k.wait ∧ k.deadline = s.now + k.wait := by
  cases turned with
  | signal written =>
    exact ⟨_, ⟨rfl, going.running, going.unstopped, going.held⟩, sound.awake l going.here, rfl⟩
  | notification notified => exact ⟨_, going.resleep rfl, shortWait_pos, rfl⟩
  | idle empty => exact ⟨_, going.resleep rfl, idleWait_pos, rfl⟩
  | @wait t q valid same queued first early =>
    have slept := sleepFor_clockFrom he (sound.ordinary t queued) early
    have ahead := (Instant.clockFrom_lt_iff he (sound.ordinary t queued)).mp early
    refine ⟨_, going.resleep rfl, ?_, rfl⟩
    change 0 < sleepFor t (Instant.clockFrom epoch s.now)
    omega
  | ready valid taken due first => exact ⟨_, going.resleep rfl, shortWait_pos, rfl⟩

omit [LawfulBEq κ] in
/-- A turn leaves no task in the queue that was not there. -/
theorem Turned.queue {cause : Cause} {handed : Option (Task κ β ω)} {now : Instant}
    (turned : Turned s l now cause handed s') (hv : s.server.queue.Valid) :
    s'.now = s.now ∧ s'.server.queue.Valid ∧
      s.server.queue.tasks.Perm (handed.toList ++ s'.server.queue.tasks) := by
  cases turned with
  | signal written => exact ⟨rfl, hv, .refl _⟩
  | notification notified => exact ⟨rfl, hv, .refl _⟩
  | idle empty => exact ⟨rfl, hv, .refl _⟩
  | wait valid same queued first early => exact ⟨rfl, valid, same.symm⟩
  | ready valid taken due first => exact ⟨rfl, valid, taken⟩

omit [LawfulBEq κ] in
theorem Turned.sound (he : epoch.Ordinary) (sound : s.Sound) (going : s.Going l) {cause : Cause}
    {handed : Option (Task κ β ω)}
    (turned : Turned s l (Instant.clockFrom epoch s.now) cause handed s') : s'.Sound := by
  obtain ⟨k, goes, awake, deadline⟩ := turned.sleeps he sound going
  obtain ⟨now, valid, perm⟩ := turned.queue sound.valid
  refine .of_going valid ?_ goes ?_ awake
  · intro t ht
    exact sound.ordinary t (perm.mem_iff.mpr (List.mem_append_right _ ht))
  · have ahead := le_expiry k.deadline
    omega

def Event.Fresh (s : Stage κ β ω) : Event κ β ω → Prop
  | .push t => ∀ u ∈ s.server.queue.tasks, u.id ≠ t.id
  | _ => True

theorem Stage.Sound.step (he : epoch.Ordinary) (sound : s.Sound)
    (step : Step (Instant.clockFrom epoch) s e s') (timely : e.Timely s) (unstopped : e.Unstopped)
    (ordinary : e.Ordinary) (fresh : e.Fresh s) : s'.Sound := by
  cases step with
  | push t =>
    refine sound.requeued (DueQueue.push_valid sound.valid fresh) ?_
    intro u hu
    rcases List.mem_cons.mp ((DueQueue.tasks_push s.server.queue t).mem_iff.mp hu) with rfl | hu
    · exact ordinary
    · exact sound.ordinary u hu
  | @remove id found r h =>
    have left := Server.tasks_remove sound.valid id
    rw [h] at left
    obtain ⟨valid, perm⟩ := left
    refine sound.requeued valid ?_
    intro u hu
    exact sound.ordinary u (List.mem_filter.mp (perm.mem_iff.mp hu)).1
  | @reschedule id due found r h =>
    cases found with
    | false =>
      obtain rfl := Server.reschedule_false h
      exact sound
    | true =>
      obtain ⟨valid, t, rest, -, before, after⟩ := Server.reschedule_true sound.valid h
      refine sound.requeued valid ?_
      intro u hu
      rcases List.mem_cons.mp (after.mem_iff.mp hu) with rfl | hu
      · exact ordinary
      · exact sound.ordinary u (before.mem_iff.mpr (List.mem_cons_of_mem t hu))
  | start signal absent =>
    have held : signal = .holding false := unstopped
    subst held
    refine .of_going sound.valid sound.ordinary ⟨rfl, rfl, rfl, rfl⟩ ?_ shortWait_pos
    exact Nat.le_trans (Nat.le_add_right _ _) (le_expiry _)
  | @write l stop here held =>
    have going := sound.going l here
    exact .of_going sound.valid sound.ordinary ⟨rfl, going.running, unstopped, going.held⟩
      (sound.onTime l here) (sound.awake l here)
  | drop here => exact unstopped.elim
  | pass nanos =>
    refine ⟨sound.valid, sound.ordinary, fun l here => (sound.going l here).carry rfl, ?_,
      sound.awake⟩
    intro l here
    exact timely.2 l here (sound.going l here).running
  | @turn l r cause here ready h =>
    have going := sound.going l here
    exact (going.turned sound.valid (.turn cause here ready h)).sound he sound going

omit [LawfulBEq κ] in
theorem Event.Inner.mild (inner : e.Inner) : e.Unstopped ∧ e.Ordinary ∧ e.Fresh s := by
  cases e with
  | pass nanos => exact ⟨trivial, trivial, trivial⟩
  | turn cause handed => exact ⟨trivial, trivial, trivial⟩
  | _ => exact inner.elim

theorem Timed.sound (he : epoch.Ordinary)
    (run : Timed allowed (Instant.clockFrom epoch) s es s') (sound : s.Sound)
    (mild : ∀ r e, allowed r e → e.Unstopped ∧ e.Ordinary ∧ e.Fresh r) : s'.Sound := by
  induction run with
  | nil => exact sound
  | snoc before last timely ok ih =>
    obtain ⟨unstopped, ordinary, fresh⟩ := mild _ _ ok
    exact ih.step he last timely unstopped ordinary fresh

/-- From the beginning, no two tasks of one id. -/
theorem Timed.sound_of_empty (he : epoch.Ordinary)
    (run : Timed allowed (Instant.clockFrom epoch) .empty es s)
    (mild : ∀ r e, allowed r e → e.Unstopped ∧ e.Ordinary) (distinct : (pushed es).Nodup) :
    s.Sound := by
  induction run with
  | nil => exact .empty
  | @snoc es e r r' before last timely ok ih =>
    rw [pushed, List.filterMap_append] at distinct
    have once := distinct.of_append_left
    obtain ⟨unstopped, ordinary⟩ := mild _ _ ok
    refine (ih once).step he last timely unstopped ordinary ?_
    cases e with
    | push t =>
      intro u hu same
      have old : t.id ∈ pushed es := by
        have account := (before.run.books once).account t.id
        have queued : t.id ∈ r.queued := same ▸ List.mem_map_of_mem hu
        have := List.count_pos_iff.mpr queued
        exact List.count_pos_iff.mp (by omega)
      exact List.disjoint_of_nodup_append distinct old (List.mem_singleton_self t.id)
    | _ => trivial

omit [LawfulBEq κ] in
/-- After a turn no cause is there that was not there before, and the one that was taken up is
gone. -/
theorem Turned.ready_of_ready (he : epoch.Ordinary) (sound : s.Sound) (going : s.Going l)
    {cause next : Cause} {handed : Option (Task κ β ω)}
    (turned : Turned s l (Instant.clockFrom epoch s.now) cause handed s') (ready : s'.Ready next) :
    s.Ready next ∧ next ≠ cause := by
  obtain ⟨k, goes, awake, deadline⟩ := turned.sleeps he sound going
  have asleep : next ≠ .timer := by
    rintro rfl
    have elapsed := goes.ready_iff.mp ready
    simp only [Loop.isReady, Bool.and_eq_true, decide_eq_true_eq] at elapsed
    have ahead := le_expiry k.deadline
    have now := (turned.queue sound.valid).1
    omega
  rw [going.ready_iff]
  cases turned <;> cases next <;> simp_all [Stage.Ready, Loop.isReady, going.held]

/-- A cause that is there can be taken up, and nothing else comes up by that. -/
theorem Stage.Sound.clear (he : epoch.Ordinary) (sound : s.Sound) (cause : Cause) :
    ∃ es r, Timed (fun _ e => e.Inner) (Instant.clockFrom epoch) s es r ∧ r.Sound ∧
      r.now = s.now ∧ ¬ r.Ready cause ∧ ∀ next, r.Ready next → s.Ready next := by
  by_cases ready : s.Ready cause
  · obtain ⟨handed, r, step⟩ := ready.turn (Instant.clockFrom epoch)
    obtain ⟨l, here, -⟩ := id ready
    have going := sound.going l here
    have turned := going.turned sound.valid step
    have gone : ∀ next, r.Ready next → s.Ready next ∧ next ≠ cause :=
      fun _ => turned.ready_of_ready he sound going
    refine ⟨_, r, .snoc .nil step ready trivial, turned.sound he sound going,
      (turned.queue sound.valid).1, ?_, fun next h => (gone next h).1⟩
    exact fun still => (gone cause still).2 rfl
  · exact ⟨[], s, .nil, sound, rfl, ready, fun _ h => h⟩

theorem Stage.Sound.settles (he : epoch.Ordinary) (sound : s.Sound) :
    ∃ es r, Timed (fun _ e => e.Inner) (Instant.clockFrom epoch) s es r ∧ r.Sound ∧
      r.now = s.now ∧ ∀ cause, ¬ r.Ready cause := by
  obtain ⟨es₁, r₁, run₁, sound₁, now₁, signal, -⟩ := sound.clear he .signal
  obtain ⟨es₂, r₂, run₂, sound₂, now₂, notification, back₂⟩ := sound₁.clear he .notification
  obtain ⟨es₃, r₃, run₃, sound₃, now₃, timer, back₃⟩ := sound₂.clear he .timer
  refine ⟨_, r₃, (run₁.append run₂).append run₃, sound₃, by omega, ?_⟩
  intro cause ready
  cases cause with
  | signal => exact signal (back₂ _ (back₃ _ ready))
  | notification => exact notification (back₃ _ ready)
  | timer => exact timer ready

/-- Turns and passing time lead to any later instant. -/
theorem Stage.Sound.goesOn (he : epoch.Ordinary) (sound : s.Sound) (nanos : Nat) :
    ∃ es r, Timed (fun _ e => e.Inner) (Instant.clockFrom epoch) s es r ∧
      r.now = s.now + nanos := by
  induction nanos using Nat.strongRecOn generalizing s with
  | ind nanos ih =>
    obtain ⟨es, r, run, sound, now, idle⟩ := sound.settles he
    by_cases done : nanos = 0
    · exact ⟨es, r, run, by omega⟩
    -- the time up to the end of the sleep that the loop is in
    have room : ∃ n, 0 < n ∧ n ≤ nanos ∧ ∀ l, r.loop = some l → r.now + n ≤ expiry l.deadline := by
      cases here : r.loop with
      | none => exact ⟨nanos, by omega, Nat.le_refl _, fun l h => nomatch h⟩
      | some l =>
        have going := sound.going l here
        have ahead : r.now < expiry l.deadline := by
          by_contra elapsed
          refine idle .timer (going.ready_iff.mpr ?_)
          simp only [Loop.isReady, going.running, Bool.not_false, Bool.true_and, decide_eq_true_eq]
          omega
        refine ⟨min nanos (expiry l.deadline - r.now), by omega, by omega, ?_⟩
        rintro k ⟨⟩
        omega
    obtain ⟨n, positive, le, fits⟩ := room
    have timely : (Event.pass n : Event κ β ω).Timely r := ⟨idle, fun l here _ => fits l here⟩
    have passed := sound.step he (.pass n) timely trivial trivial trivial
    obtain ⟨es', r', run', now'⟩ := ih (nanos - n) (by omega) passed
    refine ⟨_, r', (run.snoc (.pass n) timely trivial).append run', ?_⟩
    have later : r'.now = r.now + n + (nanos - n) := now'
    omega

end HomeScenes.Dispatch
