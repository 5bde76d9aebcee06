import HomeScenes.Proofs.Dispatch.SingleTask

/-!
# Touches of the stop signal

Writing to the stop signal what it holds already makes the loop sleep again, and for the whole
length of the sleep that it was in. So a touch leaves the dispatches as they are as long as the
timer of the new sleep goes off with that of the old one. A touch that is taken up later than
that puts off what is due: nothing goes out before a whole sleep from the touch on is over.
-/

namespace HomeScenes.Dispatch

variable {κ β ω : Type} [BEq κ] [Hashable κ]

/-- Whether an event is a touch, or the turn that takes it up. -/
def Event.touches : Event κ β ω → Bool
  | .write stop => !stop
  | .turn .signal none => true
  | _ => false

def untouched (es : List (Event κ β ω)) : List (Event κ β ω) :=
  es.filter fun e => !e.touches

/-- Nothing tells the loop to end, and the timer goes off no later for a touch that is taken up. -/
def Event.Harmless (s : Stage κ β ω) : Event κ β ω → Prop
  | .turn .signal _ => ∀ l, s.loop = some l → expiry (s.now + l.wait) = expiry l.deadline
  | e => e.Unstopped

variable {clock : Nat → Instant} {s s' u : Stage κ β ω} {es : List (Event κ β ω)}
  {e : Event κ β ω} {l k : Loop}

omit [BEq κ] [Hashable κ] in
theorem Event.touches_spec (h : e.touches = true) : e.nanos = 0 ∧ e.handed? = none := by
  cases e with
  | write stop => exact ⟨rfl, rfl⟩
  | turn cause handed =>
    cases cause <;> cases handed <;> first | exact ⟨rfl, rfl⟩ | cases h
  | _ => cases h

omit [BEq κ] [Hashable κ] in
/-- A touch takes no time and dispatches nothing. -/
theorem dispatches_untouched (now : Nat) (es : List (Event κ β ω)) :
    dispatches now (untouched es) = dispatches now es := by
  induction es generalizing now with
  | nil => rfl
  | cons e es ih =>
    cases h : e.touches with
    | true =>
      obtain ⟨nanos, handed⟩ := e.touches_spec h
      have rest := ih now
      rw [untouched, List.filter_cons_of_neg (by simp [h]), ← untouched, rest]
      simp [dispatches, stamped, nanos, handed]
    | false =>
      have rest := ih (now + e.nanos)
      rw [untouched, List.filter_cons_of_pos (by simp [h]), ← untouched]
      simp only [dispatches, stamped, List.filterMap_cons] at rest ⊢
      rw [rest]

/-- Two loops that go on alike, the second of them untouched. -/
structure Loop.Alike (l k : Loop) : Prop where
  running : l.ended = false ∧ k.ended = false
  unstopped : l.signal.stop = false
  held : l.signal.dropped = false
  untouched : k.signal = .holding false
  wait : k.wait = l.wait
  timer : expiry k.deadline = expiry l.deadline

/-- Two stages that differ at most in touches, of which the second has seen none. -/
structure Stage.Alike (s u : Stage κ β ω) : Prop where
  server : u.server = s.server
  now : u.now = s.now
  loop : (s.loop = none ∧ u.loop = none) ∨
    ∃ l k, s.loop = some l ∧ u.loop = some k ∧ l.Alike k

theorem Loop.takeSignal_dispatched (l : Loop) (q : Server κ β ω) (now : Nat) :
    (l.takeSignal q now).dispatched = none := by
  rw [Loop.takeSignal]
  split <;> rfl

theorem Loop.Alike.rounds (alike : l.Alike k) (wait now : Nat) :
    (Loop.round { l with wait := wait } now).Alike (Loop.round { k with wait := wait } now) := by
  have unstopped : k.signal.stop = false := by rw [alike.untouched]; rfl
  rw [round_going (l := { l with wait := wait }) alike.unstopped,
    round_going (l := { k with wait := wait }) unstopped]
  exact ⟨alike.running, alike.unstopped, alike.held, alike.untouched, rfl, rfl⟩

theorem Loop.Alike.step (alike : l.Alike k) (q : Server κ β ω) (now : Nat) (clock : Instant)
    {cause : Cause} (other : cause ≠ .signal) :
    (k.step q now clock cause).server = (l.step q now clock cause).server ∧
      (k.step q now clock cause).dispatched = (l.step q now clock cause).dispatched ∧
      (l.step q now clock cause).loop.Alike (k.step q now clock cause).loop := by
  cases cause with
  | signal => exact absurd rfl other
  | notification => exact ⟨rfl, rfl, alike.rounds shortWait now⟩
  | timer => exact ⟨rfl, rfl, alike.rounds (Loop.waitAfter (q.tick clock).1) now⟩

theorem Loop.Alike.isReady (alike : l.Alike k) (q : Server κ β ω) (now : Nat) {cause : Cause}
    (other : cause ≠ .signal) :
    k.isReady q (expiry k.deadline ≤ now) cause = l.isReady q (expiry l.deadline ≤ now) cause := by
  cases cause with
  | signal => exact absurd rfl other
  | notification => rw [Loop.isReady, Loop.isReady, alike.running.1, alike.running.2]
  | timer => rw [Loop.isReady, Loop.isReady, alike.running.1, alike.running.2, alike.timer]

/-- The untouched stage has nothing to take up that the other one has not. -/
theorem Stage.Alike.ready (alike : s.Alike u) {cause : Cause} (ready : u.Ready cause) :
    cause ≠ .signal ∧ s.Ready cause := by
  obtain ⟨k', here, ready⟩ := ready
  rcases alike.loop with ⟨-, absent⟩ | ⟨l, k, hl, hk, loops⟩
  · rw [absent] at here
    cases here
  · cases here.symm.trans hk
    have other : cause ≠ .signal := by
      rintro rfl
      rw [Loop.isReady, loops.untouched] at ready
      simp [Signal.holding] at ready
    refine ⟨other, l, hl, ?_⟩
    rw [alike.server, alike.now, loops.isReady s.server s.now other] at ready
    exact ready

theorem Stage.Alike.turn (alike : s.Alike u) {cause : Cause} {handed : Option (Task κ β ω)}
    (other : cause ≠ .signal) (step : Step clock s (.turn cause handed) s') (ready : s.Ready cause) :
    ∃ u', Step clock u (.turn cause handed) u' ∧ u.Ready cause ∧ s'.Alike u' := by
  generalize he : Event.turn cause handed = e at step
  cases step with
  | @turn l r cause' here _ h =>
    subst h
    obtain ⟨rfl, rfl⟩ := Event.turn.inj he
    rcases alike.loop with ⟨absent, -⟩ | ⟨l', k, hl, hk, loops⟩
    · rw [absent] at here
      cases here
    · cases here.symm.trans hl
      have there : k.isReady u.server (expiry k.deadline ≤ u.now) cause = true := by
        obtain ⟨l', hl', ready⟩ := ready
        cases hl.symm.trans hl'
        rw [alike.server, alike.now, loops.isReady s.server s.now other]
        exact ready
      obtain ⟨server, same, after⟩ := loops.step s.server s.now (clock s.now) other
      have taken : Step clock u (.turn cause _) _ := .turn cause hk (isReady_of_expiry there) rfl
      rw [alike.server, alike.now, same, server] at taken
      exact ⟨_, taken, ⟨k, hk, there⟩, rfl, rfl, .inr ⟨_, _, rfl, rfl, after⟩⟩
  | _ => cases he

/-- Whatever else happens, happens without touches too. -/
theorem Stage.Alike.step (alike : s.Alike u) (step : Step clock s e s') (timely : e.Timely s)
    (harmless : e.Harmless s) (other : e.touches = false) :
    ∃ u', Step clock u e u' ∧ e.Timely u ∧ e.Unsignaled ∧ s'.Alike u' := by
  cases step with
  | push t =>
    refine ⟨_, .push t, trivial, trivial, ?_, alike.now, alike.loop⟩
    rw [alike.server]
  | @remove id found q h =>
    rw [← alike.server] at h
    exact ⟨_, .remove h, trivial, trivial, rfl, alike.now, alike.loop⟩
  | @reschedule id due found q h =>
    rw [← alike.server] at h
    exact ⟨_, .reschedule h, trivial, trivial, rfl, alike.now, alike.loop⟩
  | start signal absent =>
    have held : signal = .holding false := harmless
    subst held
    rcases alike.loop with ⟨-, none⟩ | ⟨l, k, hl, -, -⟩
    · refine ⟨_, .start (.holding false) none, trivial, rfl, alike.server, alike.now, .inr ?_⟩
      refine ⟨_, _, rfl, rfl, ?_⟩
      rw [alike.now]
      exact ⟨⟨rfl, rfl⟩, rfl, rfl, rfl, rfl, rfl⟩
    · rw [absent] at hl
      cases hl
  | write stop here held =>
    have no : stop = false := harmless
    subst no
    cases other
  | drop here => exact harmless.elim
  | pass nanos =>
    refine ⟨_, .pass nanos, ⟨fun cause ready => timely.1 cause (alike.ready ready).2, ?_⟩, trivial,
      alike.server, congrArg (· + nanos) alike.now, alike.loop⟩
    intro k' here running
    rcases alike.loop with ⟨-, none⟩ | ⟨l, k, hl, hk, loops⟩
    · rw [none] at here
      cases here
    · cases here.symm.trans hk
      rw [alike.now, loops.timer]
      exact timely.2 l hl loops.running.1
  | @turn l q cause here ready h =>
    have other : cause ≠ .signal := by
      rintro rfl
      subst h
      have nothing : (l.step s.server s.now (clock s.now) .signal).dispatched = none :=
        l.takeSignal_dispatched s.server s.now
      rw [nothing] at other
      cases other
    obtain ⟨u', step, ready, after⟩ := alike.turn other (.turn cause here ready h) timely
    exact ⟨u', step, ready, trivial, after⟩

/-- A touch that is harmless makes no difference. -/
theorem Stage.Alike.touch (alike : s.Alike u) (step : Step clock s e s') (harmless : e.Harmless s)
    (touch : e.touches = true) : s'.Alike u := by
  cases step with
  | @write l stop here held =>
    have no : stop = false := harmless
    subst no
    rcases alike.loop with ⟨absent, -⟩ | ⟨l', k, hl, hk, loops⟩
    · rw [absent] at here
      cases here
    · cases here.symm.trans hl
      refine ⟨alike.server, alike.now, .inr ⟨_, k, rfl, hk, ?_⟩⟩
      exact ⟨loops.running, rfl, loops.held, loops.untouched, loops.wait, loops.timer⟩
  | @turn l q cause here ready h =>
    subst h
    cases cause with
    | signal =>
      rcases alike.loop with ⟨absent, -⟩ | ⟨l', k, hl, hk, loops⟩
      · rw [absent] at here
        cases here
      · cases here.symm.trans hl
        have written : l.signal.written = true := by
          simpa [Loop.isReady, loops.running.1, loops.held] using ready
        have again : expiry (s.now + l.wait) = expiry l.deadline := harmless l here
        have taken : l.step s.server s.now (clock s.now) .signal =
            ⟨{ l with
                signal := { l.signal with written := false }
                deadline := s.now + l.wait }, s.server, none⟩ := by
          simp only [Loop.step, Loop.takeSignal, written, if_true,
            round_going (l := { l with signal := { l.signal with written := false } })
              loops.unstopped]
        rw [taken]
        refine ⟨alike.server, alike.now, .inr ⟨_, k, rfl, hk, ?_⟩⟩
        exact ⟨loops.running, loops.unstopped, loops.held, loops.untouched, loops.wait,
          loops.timer.trans again.symm⟩
    | notification => cases touch
    | timer => cases touch
  | _ => cases touch

/-- On virtual time, touches that are harmless leave the dispatches and their instants as they are:
what happens without them comes to the same. -/
theorem touches_harmless (run : Timed Event.Harmless clock .empty es s) :
    ∃ u, Timed (fun _ e => e.Unsignaled) clock .empty (untouched es) u ∧ u.server = s.server ∧
      u.now = s.now ∧ dispatches 0 (untouched es) = dispatches 0 es := by
  suffices alike : ∃ u, Timed (fun _ e => e.Unsignaled) clock .empty (untouched es) u ∧ s.Alike u by
    obtain ⟨u, run, alike⟩ := alike
    exact ⟨u, run, alike.server, alike.now, dispatches_untouched 0 es⟩
  induction run with
  | nil => exact ⟨_, .nil, rfl, rfl, .inl ⟨rfl, rfl⟩⟩
  | @snoc es e r r' before last timely harmless ih =>
    obtain ⟨u, run, alike⟩ := ih
    rw [untouched, List.filter_append, ← untouched]
    cases touch : e.touches with
    | true =>
      refine ⟨u, ?_, alike.touch last harmless touch⟩
      simpa [touch] using run
    | false =>
      obtain ⟨u', step, timely, unsignaled, after⟩ := alike.step last timely harmless touch
      refine ⟨u', ?_, after⟩
      simpa [touch] using run.snoc step timely unsignaled

variable [LawfulBEq κ] {epoch : Instant} {r : Stage κ β ω} {start wait : Nat}
  {done : List (Nat × Task κ β ω)}

/-- Nothing has gone out before a sleep is over that began at an instant, and nothing will. -/
structure Delayed (start wait : Nat) (done : List (Nat × Task κ β ω)) (s : Stage κ β ω) : Prop where
  sound : s.Sound
  late : ∀ p ∈ done, expiry (start + wait) ≤ p.1
  after : start ≤ s.now
  asleep : expiry (start + wait) ≤ s.now ∨ ∃ l, s.Going l ∧ s.server.notified = false ∧
    l.wait = wait ∧ expiry (start + wait) ≤ expiry l.deadline

omit [BEq κ] [Hashable κ] [LawfulBEq κ] in
theorem Event.mild_of_touches (touch : e.touches = true) : e.Unstopped ∧ e.Ordinary := by
  cases e with
  | write stop =>
    have no : stop = false := by simpa [Event.touches] using touch
    exact ⟨no, trivial⟩
  | turn cause handed => exact ⟨trivial, trivial⟩
  | _ => cases touch

theorem Delayed.turn (he : epoch.Ordinary) (delayed : Delayed start wait done s) {cause : Cause}
    {handed : Option (Task κ β ω)} (step : Step (Instant.clockFrom epoch) s (.turn cause handed) s')
    (ready : s.Ready cause) :
    Delayed start wait (done ++ (handed.map fun t => (s.now, t)).toList) s' := by
  obtain ⟨l, here, -⟩ := id ready
  have going := delayed.sound.going l here
  have turned := going.turned delayed.sound.valid step
  have sound := turned.sound he delayed.sound going
  have now := (turned.queue delayed.sound.valid).1
  by_cases elapsed : expiry (start + wait) ≤ s.now
  · refine ⟨sound, ?_, now ▸ delayed.after, .inl (now ▸ elapsed)⟩
    intro p hp
    rcases List.mem_append.mp hp with hp | hp
    · exact delayed.late p hp
    · obtain ⟨t, -, rfl⟩ : ∃ t, handed = some t ∧ (s.now, t) = p := by simpa using hp
      exact elapsed
  · obtain ⟨k, there, quiet, same, long⟩ := delayed.asleep.resolve_left elapsed
    cases here.symm.trans there.here
    have asleep : ¬ s.Ready .timer := by
      intro ready
      have timer := delayed.sound.timer going ready
      omega
    cases turned with
    | signal written =>
      refine ⟨sound, by simpa using delayed.late, delayed.after, .inr ⟨_, sound.going _ rfl, quiet,
        same, ?_⟩⟩
      have after := delayed.after
      show expiry (start + wait) ≤ expiry (s.now + l.wait)
      exact expiry_mono (by omega)
    | notification notified =>
      rw [quiet] at notified
      cases notified
    | idle empty => exact absurd ready asleep
    | wait valid same queued first early => exact absurd ready asleep
    | ready valid taken due first => exact absurd ready asleep

theorem Delayed.step (he : epoch.Ordinary) (delayed : Delayed start wait done s)
    (step : Step (Instant.clockFrom epoch) s e s') (timely : e.Timely s)
    (ok : e.Inner ∨ e.touches = true) :
    Delayed start wait (done ++ (e.handed?.map fun t => (s.now, t)).toList) s' := by
  have sound : s'.Sound := by
    rcases ok with inner | touch
    · obtain ⟨unstopped, ordinary, fresh⟩ := inner.mild (s := s)
      exact delayed.sound.step he step timely unstopped ordinary fresh
    · obtain ⟨unstopped, ordinary⟩ := Event.mild_of_touches touch
      refine delayed.sound.step he step timely unstopped ordinary ?_
      cases e with
      | push t => cases touch
      | _ => trivial
  cases step with
  | turn cause here ready h => exact delayed.turn he (.turn cause here ready h) timely
  | pass nanos =>
    refine ⟨sound, by simpa [Event.handed?] using delayed.late,
      Nat.le_trans delayed.after (Nat.le_add_right _ _), ?_⟩
    rcases delayed.asleep with elapsed | ⟨l, going, asleep⟩
    · exact .inl (Nat.le_trans elapsed (Nat.le_add_right _ _))
    · exact .inr ⟨l, sound.going l going.here, asleep⟩
  | @write k stop here held =>
    refine ⟨sound, by simpa [Event.handed?] using delayed.late, delayed.after, ?_⟩
    rcases delayed.asleep with elapsed | ⟨l, going, quiet, same, long⟩
    · exact .inl elapsed
    · cases here.symm.trans going.here
      exact .inr ⟨_, sound.going _ rfl, quiet, same, long⟩
  | _ => exact (ok.elim id (by simp [Event.touches])).elim

/-- A touch makes the loop sleep a whole length again, however little was left of its sleep: nothing
goes out before that is over, whether it is touched again or not. -/
theorem touch_puts_off (he : epoch.Ordinary) (sound : s.Sound) (here : s.loop = some l)
    (quiet : s.server.notified = false)
    (step : Step (Instant.clockFrom epoch) s (.turn .signal none) r)
    (run : Timed (fun _ e => e.Inner ∨ e.touches = true) (Instant.clockFrom epoch) r es s') :
    Delayed s.now l.wait (dispatches r.now es) s' := by
  induction run with
  | nil =>
    have going := sound.going l here
    have turned := going.turned sound.valid step
    have again := turned.sound he sound going
    cases turned with
    | signal written =>
      exact ⟨again, (fun p hp => nomatch hp), Nat.le_refl _,
        .inr ⟨_, again.going _ rfl, quiet, rfl, Nat.le_refl _⟩⟩
  | snoc before last timely ok ih =>
    rw [before.run.dispatches_snoc]
    exact ih.step he last timely ok

namespace Alarm

def alarm : Task Nat Unit Unit := .dueAt 0 (.ofMicros 10000000) ()

def shown (now : Nat) : Instant := Instant.clockFrom (.ofMicros 0) now

variable {s : Stage Nat Unit Unit} {es : List (Event Nat Unit Unit)} {q : DueQueue Nat Unit Unit}
  {wait deadline now : Nat}

/-- The signal is touched, and the loop sleeps again. -/
theorem asleep_touched
    (run : Timed (fun _ e => e.Unstopped) shown s es (.asleep q wait deadline now)) (later : Nat)
    (time : now + wait = later) :
    Timed (fun _ e => e.Unstopped) shown s (es ++ [.write false] ++ [.turn .signal none])
      (.asleep q wait later now) := by
  subst time
  have written := run.snoc (.write false rfl rfl) trivial rfl
  have taken := written.snoc (.turn .signal rfl rfl rfl) ⟨_, rfl, rfl⟩ trivial
  exact taken

theorem alarm_ordinary : alarm.due.Ordinary :=
  Instant.ofMicros_ordinary 10000000

theorem alarm_since : alarm.due.since (.ofMicros 0) = 10000000000 := by
  decide

theorem alarm_le_shown : alarm.due ≤ shown now ↔ 10000000000 ≤ now := by
  rw [shown, Instant.le_clockFrom_iff (Instant.ofMicros_ordinary 0) alarm_ordinary, alarm_since]
  omega

/-- The sleep for the alarm ends when it is due. -/
theorem alarm_sleep (early : now < 10000000000) :
    sleepFor alarm (shown now) = 10000000000 - now := by
  have ahead : shown now < alarm.due :=
    Std.not_le.mp fun due => absurd (alarm_le_shown.mp due) (Nat.not_le.mpr early)
  have sleep := sleepFor_clockFrom (Instant.ofMicros_ordinary 0) alarm_ordinary ahead
  rw [alarm_since] at sleep
  have sleep : now + sleepFor alarm (shown now) = 10000000000 := Int.ofNat_inj.mp sleep
  omega

/-- The alarm is pushed, the loop starts, looks at it, and sleeps; half of the time passes. -/
theorem alarm_set : ∃ es q, q.Valid ∧ q.tasks.Perm [alarm] ∧ untouched es = es ∧
    dispatches 0 es = [] ∧ Timed (fun _ e => e.Unsignaled) shown .empty es
      (.asleep q (10000000000 - 1000000) 10000000000 5000000000) := by
  have nothing : Timed (fun _ e => e.Unsignaled) shown .empty []
      (Stage.empty : Stage Nat Unit Unit) := .nil
  have started := (nothing.snoc (.push alarm) trivial trivial).snoc (.start (.holding false) rfl)
    trivial rfl
  have slept := started.append
    ((Stage.alone_asleep shown alarm).mono fun _ _ inner => inner.unsignaled)
  have early : shown resolution < alarm.due :=
    Std.not_le.mp fun due => absurd (alarm_le_shown.mp due) (by decide)
  have elapsed : expiry (0 + shortWait) ≤ resolution := by decide
  obtain ⟨q, valid, single, look⟩ := Stage.asleep_again (Stage.alone_valid alarm)
    (DueQueue.tasks_push .empty alarm) early elapsed
  rw [alarm_sleep (by decide)] at look
  have looked := slept.snoc look (Stage.asleep_ready elapsed) trivial
  have half := Stage.asleep_pass looked (by decide) 4999000000 5000000000 (by decide) (by decide)
    fun _ => trivial
  exact ⟨_, q, valid, single, rfl, rfl, half⟩

/-- Without a touch the alarm goes out after ten seconds. With one that is taken up after five, all
else being the same, it is still queued then, and the loop is asleep. -/
theorem alarm_put_off : ∃ es es' s s', Timed (fun _ e => e.Unsignaled) shown .empty es s ∧
    Timed (fun _ e => e.Unstopped) shown .empty es' s' ∧
    es = untouched es' ++ [.turn .timer (some alarm)] ∧
    dispatches 0 es = [(10000000000, alarm)] ∧ dispatches 0 es' = [] ∧
    s.now = 10000000000 ∧ s'.now = 10000000000 ∧
    alarm ∈ s'.server.queue.tasks ∧ ∀ cause, ¬ s'.Ready cause := by
  obtain ⟨es, q, valid, perm, same, silence, set⟩ := alarm_set
  have slept := Stage.asleep_pass set (by decide) 5000000000 10000000000 (by decide) (by decide)
    fun _ => trivial
  have elapsed : expiry 10000000000 ≤ 10000000000 := by decide
  obtain ⟨s, now, turn⟩ := Stage.asleep_due valid perm (alarm_le_shown.mpr (Nat.le_refl _)) elapsed
  have out := slept.snoc turn (Stage.asleep_ready elapsed) trivial
  have touched := asleep_touched (set.mono fun _ _ => Event.Unsignaled.unstopped) 14999000000
    (by decide)
  have slept' := Stage.asleep_pass touched (by decide) 5000000000 10000000000 (by decide) (by decide)
    fun _ => trivial
  have without : untouched (es ++ [.write false] ++ [.turn .signal none] ++ [.pass 5000000000]) =
      es ++ [.pass 5000000000] := by
    simp only [untouched, List.filter_append, List.append_assoc] at same ⊢
    rw [same]
    rfl
  have zero : (Stage.empty : Stage Nat Unit Unit).now = 0 := rfl
  have silent : dispatches 0 (es ++ [.pass 5000000000]) = [] := by
    have passed := set.run.dispatches_snoc (.pass 5000000000)
    rw [zero, silence] at passed
    exact passed
  have loud := slept.run.dispatches_snoc (.turn .timer (some alarm))
  rw [zero, silent] at loud
  refine ⟨_, _, s, _, out, slept', ?_, loud, ?_, now, rfl, perm.mem_iff.mpr List.mem_cons_self,
    fun cause ready => absurd (Stage.asleep_ready_iff.mp ready).2 (by decide)⟩
  · rw [without]
  · rw [← dispatches_untouched, without, silent]

/-- A touch in the middle of a step of the resolution goes unnoticed. -/
theorem touches_harmless_early : ∃ s u,
    Timed Event.Harmless shown .empty [.push alarm, .start (.holding false), .turn .notification none,
      .pass 300000, .write false, .turn .signal none] s ∧
    Timed (fun _ e => e.Unsignaled) shown .empty [.push alarm, .start (.holding false),
      .turn .notification none, .pass 300000] u ∧ u.server = s.server ∧ u.now = s.now := by
  have nothing : Timed Event.Harmless shown .empty [] (Stage.empty : Stage Nat Unit Unit) := .nil
  have started := (nothing.snoc (.push alarm) trivial trivial).snoc (.start (.holding false) rfl)
    trivial rfl
  have told : Timed Event.Harmless shown .empty
      [.push alarm, .start (.holding false), .turn .notification none]
      (.asleep (DueQueue.empty.push alarm) shortWait (0 + shortWait) 0) := by
    have taken := started.snoc (.turn .notification rfl rfl rfl) ⟨_, rfl, rfl⟩ trivial
    exact taken
  have slept := Stage.asleep_pass told (by decide) 300000 _ (Nat.zero_add _) (by decide)
    fun _ => trivial
  have written := slept.snoc (.write false rfl rfl) trivial rfl
  have same : expiry (300000 + shortWait) = expiry (0 + shortWait) := by decide
  have taken := written.snoc (.turn .signal rfl rfl rfl) ⟨_, rfl, rfl⟩ (by rintro l ⟨⟩; exact same)
  obtain ⟨u, run, server, now, -⟩ := touches_harmless taken
  exact ⟨_, u, taken, run, server, now⟩

end Alarm

end HomeScenes.Dispatch
