import HomeScenes.Proofs.Dispatch.SingleTask

/-!
# A quiet period

Nothing is pushed, moved or removed any more, and nothing tells the loop to end. From the
instant at which the loop starts or takes up the last notification, the instants at which the
queued tasks go out are known beforehand: each at the first timer that is not before it is due
nor less than a short sleep after the one before. What the loop was doing until then does not
matter. Leap seconds are left out: a task that is due within one may go out early or late.
-/

namespace HomeScenes.Dispatch

/-- When tasks go out that are due at some instants, with these instants, if the loop last went on
at `last`. -/
def timetable (last : Nat) : List Int → List (Nat × Int)
  | [] => []
  | due :: dues =>
    let time := expiry (max (last + shortWait) due.toNat)
    (time, due) :: timetable time dues

theorem timetable_after {p : Nat × Int} : ∀ {last : Nat} {due : Int} {dues : List Int},
    p ∈ timetable last (due :: dues) → expiry (max (last + shortWait) due.toNat) ≤ p.1 := by
  intro last due dues
  induction dues generalizing last due with
  | nil =>
    intro h
    obtain rfl := List.mem_singleton.mp h
    exact Nat.le_refl _
  | cons next dues ih =>
    intro h
    rcases List.mem_cons.mp h with rfl | h
    · exact Nat.le_refl _
    · have before := ih h
      have later := le_expiry
        (max (expiry (max (last + shortWait) due.toNat) + shortWait) next.toNat)
      omega

variable {κ β ω : Type} [BEq κ] [Hashable κ]

def dues (epoch : Instant) (ts : List (Task κ β ω)) : List Int :=
  (ts.map fun t => t.due.since epoch).mergeSort fun a b => a ≤ b

/-- When a task went out, with the instant that it was due at. -/
def entry (epoch : Instant) (p : Nat × Task κ β ω) : Nat × Int :=
  (p.1, p.2.due.since epoch)

section Dues

variable {epoch : Instant} {ts rest : List (Task κ β ω)} {t : Task κ β ω}

omit [BEq κ] [Hashable κ]

theorem dues_sorted (epoch : Instant) (ts : List (Task κ β ω)) :
    (dues epoch ts).Pairwise (· ≤ ·) := by
  have sorted : (dues epoch ts).Pairwise fun a b => decide (a ≤ b) = true :=
    List.pairwise_mergeSort (by simp only [decide_eq_true_eq]; omega)
      (by simp only [Bool.or_eq_true, decide_eq_true_eq]; omega) _
  simp only [decide_eq_true_eq] at sorted
  exact sorted

theorem dues_perm (epoch : Instant) (ts : List (Task κ β ω)) :
    (dues epoch ts).Perm (ts.map fun t => t.due.since epoch) :=
  List.mergeSort_perm _ _

theorem dues_eq {ds : List Int} (sorted : ds.Pairwise (· ≤ ·))
    (perm : ds.Perm (ts.map fun t => t.due.since epoch)) : dues epoch ts = ds :=
  ((dues_perm epoch ts).trans perm.symm).eq_of_pairwise (fun _ _ _ _ => Int.le_antisymm)
    (dues_sorted epoch ts) sorted

theorem dues_nil : dues epoch ([] : List (Task κ β ω)) = [] :=
  dues_eq .nil .nil

theorem dues_congr (perm : ts.Perm rest) : dues epoch ts = dues epoch rest :=
  dues_eq (dues_sorted epoch rest) ((dues_perm epoch rest).trans (perm.map _).symm)

/-- The task that is due first is the first one of the timetable. -/
theorem dues_cons (epoch : Instant) (perm : ts.Perm (t :: rest))
    (first : ∀ u ∈ rest, t.due.since epoch ≤ u.due.since epoch) :
    dues epoch ts = t.due.since epoch :: dues epoch rest := by
  refine dues_eq (List.pairwise_cons.mpr ⟨?_, dues_sorted epoch rest⟩) ?_
  · intro d hd
    obtain ⟨u, hu, rfl⟩ := List.mem_map.mp ((dues_perm epoch rest).mem_iff.mp hd)
    exact first u hu
  · exact ((dues_perm epoch rest).cons _).trans (perm.map fun u : Task κ β ω => u.due.since epoch).symm

end Dues

variable {epoch : Instant} {s s' before : Stage κ β ω}
  {es es' : List (Event κ β ω)} {e : Event κ β ω} {l : Loop} {last : Nat}
  {done : List (Nat × Task κ β ω)}

/-- Where a loop is in a quiet period that last went on at `last`. -/
inductive Phase (epoch : Instant) (last : Nat) (s : Stage κ β ω) (l : Loop) : Prop where
  /-- In its short sleep. What it may take up before the end of it was there from the start. -/
  | short (wait : l.wait = shortWait) (deadline : l.deadline = last + shortWait)
      (still : s.server.notified = true ∨ l.signal.written = true → s.now = last)
  /-- Asleep until the first task is due. -/
  | long {t : Task κ β ω} (queued : t ∈ s.server.queue.tasks)
      (first : ∀ u ∈ s.server.queue.tasks, t.due ≤ u.due)
      (deadline : (l.deadline : Int) = t.due.since epoch)
      (later : expiry (last + shortWait) ≤ l.deadline)
      (still : ¬ (s.server.notified = true ∨ l.signal.written = true))
  | idle (empty : s.server.queue.tasks = []) (wait : l.wait = idleWait)
      (still : ¬ (s.server.notified = true ∨ l.signal.written = true))

def lastTime (start : Nat) (done : List (Nat × Task κ β ω)) : Nat :=
  (done.getLast?.map Prod.fst).getD start

omit [BEq κ] [Hashable κ] in
theorem lastTime_snoc (start : Nat) (done : List (Nat × Task κ β ω)) (p : Nat × Task κ β ω) :
    lastTime start (done ++ [p]) = p.1 := by
  simp [lastTime]

/-- The timetable has been kept so far. -/
structure Quiet (epoch : Instant) (before : Stage κ β ω) (done : List (Nat × Task κ β ω))
    (s : Stage κ β ω) : Prop where
  sound : s.Sound
  kept : timetable before.now (dues epoch before.server.queue.tasks) =
    done.map (entry epoch) ++
      timetable (lastTime before.now done) (dues epoch s.server.queue.tasks)
  tasks : before.server.queue.tasks.Perm (done.map Prod.snd ++ s.server.queue.tasks)
  phase : ∃ l, s.Going l ∧ Phase epoch (lastTime before.now done) s l

theorem Phase.timely (he : epoch.Ordinary) (sound : s.Sound) (going : s.Going l)
    (phase : Phase epoch last s l) :
    ∀ p ∈ timetable last (dues epoch s.server.queue.tasks), s.now ≤ p.1 := by
  intro p hp
  have onTime := sound.onTime l going.here
  cases phase with
  | short wait deadline still =>
    cases hd : dues epoch s.server.queue.tasks with
    | nil =>
      rw [hd] at hp
      cases hp
    | cons d ds =>
      rw [hd] at hp
      have after := timetable_after hp
      have more : expiry l.deadline ≤ expiry (max (last + shortWait) d.toNat) :=
        expiry_mono (by omega)
      omega
  | @long t queued first deadline later still =>
    obtain ⟨front, back, split⟩ := List.append_of_mem queued
    have perm : s.server.queue.tasks.Perm (t :: (front ++ back)) := by
      rw [split]
      exact List.perm_middle
    rw [dues_cons epoch perm ?_] at hp
    · have after := timetable_after hp
      have more : expiry l.deadline ≤ expiry (max (last + shortWait) (t.due.since epoch).toNat) :=
        expiry_mono (by omega)
      omega
    · intro u hu
      have there := perm.mem_iff.mpr (List.mem_cons_of_mem t hu)
      exact (Instant.since_le_since he (sound.ordinary t queued) (sound.ordinary u there)).mpr
        (first u there)
  | idle empty wait still =>
    rw [empty, dues_nil] at hp
    cases hp

/-- What is taken up was there when the loop last went on. -/
theorem Phase.woken (phase : Phase epoch last s l)
    (there : s.server.notified = true ∨ l.signal.written = true) :
    l.wait = shortWait ∧ s.now = last := by
  cases phase with
  | short wait deadline still => exact ⟨wait, still there⟩
  | long queued first deadline later still => exact absurd there still
  | idle empty wait still => exact absurd there still

/-- Nothing is there to take up but the end of the sleep. -/
theorem Phase.undisturbed (phase : Phase epoch last s l) (now : s.now = expiry l.deadline) :
    ¬ (s.server.notified = true ∨ l.signal.written = true) := by
  cases phase with
  | short wait deadline still =>
    intro there
    have begun := still there
    have ahead := le_expiry l.deadline
    have positive := shortWait_pos
    omega
  | long queued first deadline later still => exact still
  | idle empty wait still => exact still

/-- When the loop looks at the queue, the short sleep is over, and it has not slept past the
instant at which the first task is due. -/
theorem Phase.look (he : epoch.Ordinary) (sound : s.Sound) (phase : Phase epoch last s l)
    (now : s.now = expiry l.deadline) {t : Task κ β ω} (queued : t ∈ s.server.queue.tasks) :
    expiry (last + shortWait) ≤ s.now ∧
      s.now ≤ expiry (max (last + shortWait) (t.due.since epoch).toNat) := by
  cases phase with
  | short wait deadline still =>
    rw [now, deadline]
    exact ⟨Nat.le_refl _, expiry_mono (Nat.le_max_left _ _)⟩
  | @long u there before deadline later still =>
    have earlier := (Instant.since_le_since he (sound.ordinary u there)
      (sound.ordinary t queued)).mpr (before t queued)
    have ahead := le_expiry l.deadline
    have more : expiry l.deadline ≤ expiry (max (last + shortWait) (t.due.since epoch).toNat) :=
      expiry_mono (by omega)
    omega
  | idle empty wait still =>
    rw [empty] at queued
    cases queued

/-- The timer at which the first task is found to be due is the one of the timetable. -/
theorem Phase.exact (he : epoch.Ordinary) (sound : s.Sound) (phase : Phase epoch last s l)
    (now : s.now = expiry l.deadline) {t : Task κ β ω} (queued : t ∈ s.server.queue.tasks)
    (due : t.due ≤ Instant.clockFrom epoch s.now) :
    s.now = expiry (max (last + shortWait) (t.due.since epoch).toNat) := by
  obtain ⟨elapsed, within⟩ := phase.look he sound now queued
  have due := (Instant.le_clockFrom_iff he (sound.ordinary t queued)).mp due
  have ahead := le_expiry (last + shortWait)
  refine Nat.le_antisymm within ?_
  rw [now]
  exact expiry_le (by omega)

variable [LawfulBEq κ]

theorem Quiet.turn (he : epoch.Ordinary) (quiet : Quiet epoch before done s) {cause : Cause}
    {handed : Option (Task κ β ω)} (step : Step (Instant.clockFrom epoch) s (.turn cause handed) s')
    (ready : s.Ready cause) :
    Quiet epoch before (done ++ (handed.map fun t => (s.now, t)).toList) s' := by
  obtain ⟨l, going, phase⟩ := quiet.phase
  have turned := going.turned quiet.sound.valid step
  have sound := turned.sound he quiet.sound going
  cases turned with
  | signal written =>
    simp only [Option.map_none, Option.toList_none, List.append_nil]
    obtain ⟨wait, now⟩ := phase.woken (.inr written)
    exact ⟨sound, quiet.kept, quiet.tasks, _, ⟨rfl, going.running, going.unstopped, going.held⟩,
      .short wait (by rw [now, wait]) fun _ => now⟩
  | notification notified =>
    simp only [Option.map_none, Option.toList_none, List.append_nil]
    have now := (phase.woken (.inl notified)).2
    exact ⟨sound, quiet.kept, quiet.tasks, _, going.resleep rfl,
      .short rfl (by rw [now]) fun _ => now⟩
  | idle empty =>
    have now := quiet.sound.timer going ready
    simp only [Option.map_none, Option.toList_none, List.append_nil]
    exact ⟨sound, quiet.kept, quiet.tasks, _, going.resleep rfl,
      .idle empty rfl (phase.undisturbed now)⟩
  | @wait t q valid same queued first early =>
    have now := quiet.sound.timer going ready
    have sleep := sleepFor_clockFrom he (quiet.sound.ordinary t queued) early
    have elapsed := (phase.look he quiet.sound now queued).1
    simp only [Option.map_none, Option.toList_none, List.append_nil]
    refine ⟨sound, ?_, quiet.tasks.trans (same.symm.append_left _), _, going.resleep rfl, ?_⟩
    · rw [quiet.kept, dues_congr same]
    · refine .long (same.mem_iff.mpr queued) (fun u hu => first u (same.mem_iff.mp hu)) sleep ?_
        (phase.undisturbed now)
      exact Nat.le_trans elapsed (Nat.le_add_right _ _)
  | @ready t q valid taken due first =>
    have now := quiet.sound.timer going ready
    have queued := taken.mem_iff.mpr List.mem_cons_self
    have time := phase.exact he quiet.sound now queued due
    have earliest : ∀ u ∈ q.tasks, t.due.since epoch ≤ u.due.since epoch := by
      intro u hu
      have there := taken.mem_iff.mpr (List.mem_cons_of_mem t hu)
      exact (Instant.since_le_since he (quiet.sound.ordinary t queued)
        (quiet.sound.ordinary u there)).mpr (first u there)
    simp only [Option.map_some, Option.toList_some]
    refine ⟨sound, ?_, ?_, _, going.resleep rfl, ?_⟩
    · rw [quiet.kept, dues_cons epoch taken earliest, timetable, ← time, lastTime_snoc]
      simp [entry]
    · simpa using quiet.tasks.trans (taken.append_left _)
    · rw [lastTime_snoc]
      exact .short rfl rfl fun _ => rfl

theorem Quiet.step (he : epoch.Ordinary) (quiet : Quiet epoch before done s)
    (step : Step (Instant.clockFrom epoch) s e s') (timely : e.Timely s) (inner : e.Inner) :
    Quiet epoch before (done ++ (e.handed?.map fun t => (s.now, t)).toList) s' := by
  obtain ⟨unstopped, ordinary, fresh⟩ := inner.mild (s := s)
  have sound := quiet.sound.step he step timely unstopped ordinary fresh
  cases e with
  | turn cause handed => exact quiet.turn he step timely
  | pass nanos =>
    obtain ⟨l, going, phase⟩ := quiet.phase
    cases step with
    | pass =>
      simp only [Event.handed?, Option.map_none, Option.toList_none, List.append_nil]
      refine ⟨sound, quiet.kept, quiet.tasks, l, going.carry rfl, ?_⟩
      have still := going.still timely
      cases phase with
      | short wait deadline _ => exact .short wait deadline fun there => absurd there still
      | long queued first deadline later _ => exact .long queued first deadline later still
      | idle empty wait _ => exact .idle empty wait still
  | _ => exact inner.elim

theorem Quiet.run (he : epoch.Ordinary) (quiet : Quiet epoch s [] s)
    (run : Timed (fun _ e => e.Inner) (Instant.clockFrom epoch) s es s') :
    Quiet epoch s (dispatches s.now es) s' := by
  induction run with
  | nil => exact quiet
  | snoc before last timely inner ih =>
    rw [before.run.dispatches_snoc]
    exact ih.step he last timely inner

def Event.Begins : Event κ β ω → Prop
  | .start _ => True
  | .turn cause _ => cause = .notification
  | _ => False

omit [LawfulBEq κ] in
theorem Event.Begins.sleeps {clock : Nat → Instant} (begins : e.Begins) (step : Step clock s e s')
    (going : s'.Going l) :
    s'.server.queue = s.server.queue ∧ l.wait = shortWait ∧ l.deadline = s'.now + shortWait := by
  have rounded {k : Loop} (now : Nat) (wait : k.wait = shortWait)
      (running : (k.round now).ended = false) :
      (k.round now).wait = shortWait ∧ (k.round now).deadline = now + shortWait := by
    cases stop : k.signal.stop with
    | true =>
      rw [round_ended now stop] at running
      cases running
    | false =>
      rw [round_going stop]
      exact ⟨wait, by rw [wait]⟩
  have running := going.running
  cases step with
  | start signal absent =>
    cases going.here
    exact ⟨rfl, rounded s.now rfl running⟩
  | @turn k r cause here ready h =>
    have taken : cause = .notification := begins
    subst taken h
    cases going.here
    exact ⟨rfl, rounded s.now rfl running⟩
  | _ => exact begins.elim

omit [LawfulBEq κ] in
theorem Quiet.of_begins {clock : Nat → Instant} (begins : e.Begins)
    (step : Step clock s e s') (going : s'.Going l) (valid : s.server.queue.Valid)
    (ordinary : ∀ t ∈ s'.server.queue.tasks, t.due.Ordinary) : Quiet epoch s' [] s' := by
  obtain ⟨queue, wait, deadline⟩ := begins.sleeps step going
  have positive := shortWait_pos
  have ahead := le_expiry l.deadline
  exact ⟨.of_going (queue ▸ valid) ordinary going (by omega) (by omega), rfl, .refl _, l, going,
    .short wait deadline fun _ => rfl⟩

/-- What a quiet period that began at one stage has come to at another. -/
structure Punctual (epoch : Instant) (s s' : Stage κ β ω) (done : List (Nat × Task κ β ω)) :
    Prop where
  /-- The timetable has been kept, and the rest of it lies ahead. -/
  kept : ∃ left, timetable s.now (dues epoch s.server.queue.tasks) = done.map (entry epoch) ++ left ∧
    ∀ p ∈ left, s'.now ≤ p.1
  /-- Each task has gone out or is still queued. -/
  tasks : s.server.queue.tasks.Perm (done.map Prod.snd ++ s'.server.queue.tasks)
  /-- With nothing left, the loop looks at the queue once after a short sleep, and then idles. -/
  idle : s'.server.queue.tasks = [] → ∃ l, s'.Going l ∧
    (l.wait = idleWait ∨ s'.now ≤ expiry (lastTime s.now done + shortWait))

omit [LawfulBEq κ] in
theorem Quiet.punctual (he : epoch.Ordinary) (quiet : Quiet epoch s done s') :
    Punctual epoch s s' done := by
  obtain ⟨l, going, phase⟩ := quiet.phase
  refine ⟨⟨_, quiet.kept, phase.timely he quiet.sound going⟩, quiet.tasks, ?_⟩
  intro empty
  refine ⟨l, going, ?_⟩
  cases phase with
  | short wait deadline still =>
    have onTime := quiet.sound.onTime l going.here
    rw [deadline] at onTime
    exact .inr onTime
  | long queued first deadline later still =>
    rw [empty] at queued
    cases queued
  | idle empty wait still => exact .inl wait

/-- From the instant at which the loop starts or takes up a notification, while nothing is pushed,
moved, removed or told to the loop, the tasks that are then queued go out by the timetable, and
the loop only idles afterwards. Time goes on, so that every one of them goes out. The clock starts
outside a leap second and no task is due within one; then the instants of the timetable are those
at which the clock comes to the tasks. -/
theorem quiet_period (he : epoch.Ordinary) {s₀ : Stage κ β ω}
    (run : Run (Instant.clockFrom epoch) .empty es s₀) (distinct : (pushed es).Nodup)
    (begins : e.Begins) (step : Step (Instant.clockFrom epoch) s₀ e s) (going : s.Going l)
    (ordinary : ∀ t ∈ s.server.queue.tasks, t.due.Ordinary) :
    (∀ t ∈ s.server.queue.tasks, ∀ now : Nat,
      t.due ≤ Instant.clockFrom epoch now ↔ t.due.since epoch ≤ now) ∧
    ∀ es' s', Timed (fun _ e => e.Inner) (Instant.clockFrom epoch) s es' s' →
      Punctual epoch s s' (dispatches s.now es') ∧
      ∀ nanos, ∃ es'' s'', Timed (fun _ e => e.Inner) (Instant.clockFrom epoch) s' es'' s'' ∧
        s''.now = s'.now + nanos := by
  refine ⟨fun t ht now => Instant.le_clockFrom_iff he (ordinary t ht), ?_⟩
  intro es' s' after
  have valid := (run.books distinct).valid
  have quiet := (Quiet.of_begins begins step going valid ordinary).run he after
  exact ⟨quiet.punctual he, quiet.sound.goesOn he⟩

/-- The timetable is not kept within a leap second. A task that is due in one, and that the clock has
come to after two seconds, is still queued after two seconds and a half, since the calendar counts the
leap second; where the clock is past it at the start, the task goes out at the first look, though the
calendar counts up to it. From a clock that starts in one, time may not go on to a task that is due
at an ordinary instant soon after. And a loop whose stop signal is dropped, though never written,
leaves a due task where it is. -/
theorem timetable_not_kept :
    let leap : Instant := ⟨19849, 86399, 1500000000, by decide, by decide⟩
    let evening : Instant := ⟨19849, 86398, 0, by decide, by decide⟩
    let morning : Instant := ⟨19850, 0, 200000000, by decide, by decide⟩
    let soon : Instant := ⟨19850, 0, 900000000, by decide, by decide⟩
    let task (due : Instant) : Task Nat Unit Unit := .dueAt 1 due ()
    let stage (due : Instant) : Stage Nat Unit Unit := .alone (task due) (.holding false)
    let left (due : Instant) : Stage Nat Unit Unit := .alone (task due) (Signal.holding false).drop
    (∀ epoch due signal, ∃ s, Run (Instant.clockFrom epoch) .empty [.push (task due)] s ∧
      Step (Instant.clockFrom epoch) s (.start signal) (.alone (task due) signal)) ∧
    (evening.Ordinary ∧ leap ≤ Instant.clockFrom evening (2000 * resolution) ∧
      ∃ es s, Timed (fun _ e => e.Inner) (Instant.clockFrom evening) (stage leap) es s ∧
        s.now = 2500 * resolution ∧ task leap ∈ s.server.queue.tasks) ∧
    (morning.Ordinary ∧
      ∃ es s, Timed (fun _ e => e.Inner) (Instant.clockFrom morning) (stage leap) es s ∧
        dispatches 0 es = [(resolution, task leap)] ∧
        ¬ Punctual morning (stage leap) s (dispatches 0 es)) ∧
    (soon.Ordinary ∧
      ∃ es s, Timed (fun _ e => e.Inner) (Instant.clockFrom leap) (stage soon) es s ∧
        s.now = 400 * resolution ∧ s.Stuck (Instant.clockFrom leap) (task soon)) ∧
    ∃ es s, Timed (fun _ e => e.Inner) (Instant.clockFrom evening) (left evening) es s ∧
      s.now = 2 * resolution ∧ task evening ∈ s.server.queue.tasks := by
  intro leap evening morning soon task stage left
  have single (due : Instant) : (stage due).server.queue.tasks.Perm [task due] :=
    DueQueue.tasks_push .empty (task due)
  refine ⟨fun epoch due => alone_begins _ _, ⟨show 0 < 1000000000 by decide, by decide +kernel, ?_⟩,
    ⟨show 200000000 < 1000000000 by decide, ?_⟩, ⟨show 900000000 < 1000000000 by decide, ?_⟩, ?_⟩
  · have sleep : sleepFor (task leap) (Instant.clockFrom evening resolution) = 2499 * resolution := by
      decide +kernel
    obtain ⟨r, -, same, late⟩ := Stage.alone_late
      (show Instant.clockFrom evening resolution < (task leap).due by decide +kernel)
      (show 0 < 2499 * resolution by decide) (Nat.le_of_eq sleep.symm)
    exact ⟨_, _, late, rfl, same.mem_iff.mpr (List.mem_singleton_self _)⟩
  · have due : (task leap).due ≤ Instant.clockFrom morning resolution := by decide +kernel
    obtain ⟨s, went⟩ := Stage.alone_due due
    refine ⟨_, s, went, rfl, ?_⟩
    rintro ⟨⟨later, kept, -⟩, -, -⟩
    rw [dues_cons morning (single leap) (fun u hu => nomatch hu), dues_nil] at kept
    have listed : timetable 0 [leap.since morning] = (resolution, leap.since morning) :: later := kept
    have time : expiry (max (0 + shortWait) (leap.since morning).toNat) = 300 * resolution := by
      decide +kernel
    rw [timetable, time] at listed
    exact absurd (congrArg Prod.fst (List.cons.inj listed).1) (by decide)
  · exact Stage.alone_stuck (by decide +kernel) (show 0 < 399 * resolution by decide)
      (by decide +kernel) (by decide) (by decide +kernel) (by decide +kernel)
  · obtain ⟨s, ended, now, same⟩ :=
      Stage.alone_dropped (Instant.clockFrom evening) (task evening) (2 * resolution)
    refine ⟨_, s, ended, now, ?_⟩
    rw [same]
    exact (single evening).mem_iff.mpr (List.mem_singleton_self _)

/-- One task that is due after five milliseconds, pushed before the loop starts. -/
theorem quiet_period_alarm :
    let t : Task Nat Unit Unit := .dueAt 1 (.ofMicros 5000) ()
    let epoch : Instant := .ofMicros 0
    let s : Stage Nat Unit Unit :=
      ⟨Server.empty.push t, some (.start (.holding false) 0), 0⟩
    timetable 0 (dues epoch s.server.queue.tasks) = [(5000000, 5000000)] ∧
      ∀ es s', Timed (fun _ e => e.Inner) (Instant.clockFrom epoch) s es s' →
        Punctual epoch s s' (dispatches 0 es) := by
  intro t epoch s
  have ordinary := Instant.ofMicros_ordinary
  have perm : s.server.queue.tasks.Perm [t] := DueQueue.tasks_push .empty t
  constructor
  · rw [dues_cons epoch perm (fun u hu => nomatch hu), dues_nil]
    decide
  · intro es s' after
    have nothing : Run (Instant.clockFrom epoch) .empty [] (Stage.empty : Stage Nat Unit Unit) := .nil
    have queued := nothing.snoc (.push t)
    have going : s.Going (.start (.holding false) 0) := ⟨rfl, rfl, rfl, rfl⟩
    have started : Step (Instant.clockFrom epoch) ⟨Server.empty.push t, none, 0⟩
        (.start (.holding false)) s := .start (.holding false) rfl
    have begins : (.start (.holding false) : Event Nat Unit Unit).Begins := trivial
    have plain : ∀ u ∈ s.server.queue.tasks, u.due.Ordinary := by
      intro u hu
      obtain rfl := List.mem_singleton.mp (perm.mem_iff.mp hu)
      exact ordinary 5000
    exact ((quiet_period (ordinary 0) queued (by decide) begins started going plain).2 es s' after).1

end HomeScenes.Dispatch
