import HomeScenes.Proofs.Dispatch.Turns

/-!
# A loop with one task

What the looks at a queue with one task come to, by any clock: the task goes out if the clock says
that it is due, and otherwise the loop sleeps for as long as the calendar counts up to it, unless it
ends because nobody can tell it to any more. Where leap seconds part the calendar from the clock,
the sleep may be too long; and where the calendar counts nothing up to an instant that is still to
come, the loop looks again and again, and time does not go on.
-/

namespace HomeScenes.Dispatch

variable {κ β ω : Type} [BEq κ] [Hashable κ]

def Stage.alone (t : Task κ β ω) (signal : Signal) : Stage κ β ω :=
  ⟨Server.empty.push t, some (.start signal 0), 0⟩

/-- The loop is in a sleep, and nothing but the end of it is to come. -/
def Stage.asleep (q : DueQueue κ β ω) (wait deadline now : Nat) : Stage κ β ω :=
  ⟨⟨q, false⟩, some ⟨.holding false, wait, deadline, false⟩, now⟩

/-- Time does not go on from a stage by itself, and a task is queued there for good. -/
def Stage.Stuck (clock : Nat → Instant) (t : Task κ β ω) (s : Stage κ β ω) : Prop :=
  ∀ es s', Timed (fun _ e => e.Inner) clock s es s' → s'.now = s.now ∧ t ∈ s'.server.queue.tasks

variable {allowed : Stage κ β ω → Event κ β ω → Prop} {clock : Nat → Instant}
  {s s' : Stage κ β ω} {es : List (Event κ β ω)} {t : Task κ β ω} {q : DueQueue κ β ω}
  {wait deadline now nanos : Nat}

theorem alone_begins (clock : Nat → Instant) (t : Task κ β ω) (signal : Signal) :
    ∃ s, Run clock .empty [.push t] s ∧ Step clock s (.start signal) (.alone t signal) := by
  have nothing : Run clock .empty [] (Stage.empty : Stage κ β ω) := .nil
  exact ⟨_, nothing.snoc (.push t), .start signal rfl⟩

namespace Stage

theorem asleep_going (q : DueQueue κ β ω) (wait deadline now : Nat) :
    (asleep q wait deadline now).Going ⟨.holding false, wait, deadline, false⟩ :=
  ⟨rfl, rfl, rfl, rfl⟩

theorem asleep_ready_iff {cause : Cause} : (asleep q wait deadline now).Ready cause ↔
    cause = .timer ∧ expiry deadline ≤ now := by
  rw [(asleep_going q wait deadline now).ready_iff]
  cases cause with
  | signal => simp [Loop.isReady, Signal.holding]
  | notification => simp [Loop.isReady, asleep]
  | timer =>
    show (!false && decide (expiry deadline ≤ now)) = true ↔ _
    simp

theorem asleep_ready (elapsed : expiry deadline ≤ now) :
    (asleep q wait deadline now).Ready .timer :=
  asleep_ready_iff.mpr ⟨rfl, elapsed⟩

/-- Time passes while the loop sleeps. -/
theorem asleep_pass (run : Timed allowed clock s es (asleep q wait deadline now))
    (ahead : now < expiry deadline) (nanos later : Nat) (time : now + nanos = later)
    (fits : later ≤ expiry deadline) (ok : ∀ r, allowed r (.pass nanos)) :
    Timed allowed clock s (es ++ [.pass nanos]) (asleep q wait deadline later) := by
  subst time
  have timely := (asleep_going q wait deadline now).timely_pass rfl rfl ahead fits
  exact run.snoc (.pass nanos) timely (ok _)

/-- A loop that has ended lets time pass. -/
theorem ended_timely {l : Loop} (here : s.loop = some l) (ended : l.ended = true) (nanos : Nat) :
    (.pass nanos : Event κ β ω).Timely s := by
  constructor
  · rintro cause ⟨k, there, ready⟩
    cases here.symm.trans there
    have running := running_of_ready ready
    rw [ended] at running
    cases running
  · intro k there running
    cases here.symm.trans there
    rw [ended] at running
    cases running

/-- A loop that nobody can tell to end any more ends, and its task stays. -/
theorem alone_dropped (clock : Nat → Instant) (t : Task κ β ω) (nanos : Nat) :
    ∃ s, Timed (fun _ e => e.Inner) clock (alone t (Signal.holding false).drop)
        [.turn .signal none, .pass nanos] s ∧
      s.now = nanos ∧ s.server.queue = DueQueue.empty.push t := by
  have nothing : Timed (fun _ e => e.Inner) clock (alone t (Signal.holding false).drop) []
      (alone t (Signal.holding false).drop) := .nil
  have ended := nothing.snoc (.turn .signal rfl rfl rfl) ⟨_, rfl, rfl⟩ trivial
  exact ⟨_, ended.snoc (.pass nanos) (ended_timely rfl rfl nanos) trivial, Nat.zero_add nanos, rfl⟩

/-- The notification of the push is taken up at once. -/
theorem alone_taken (clock : Nat → Instant) (t : Task κ β ω) :
    Timed (fun _ e => e.Inner) clock (alone t (.holding false)) [.turn .notification none]
      (asleep (DueQueue.empty.push t) shortWait (0 + shortWait) 0) := by
  have nothing : Timed (fun _ e => e.Inner) clock (alone t (.holding false)) []
      (alone t (.holding false)) := .nil
  have taken := nothing.snoc (.turn .notification rfl rfl rfl) ⟨_, rfl, rfl⟩ trivial
  exact taken

/-- The short sleep after it is over at the next step of the resolution. -/
theorem alone_asleep (clock : Nat → Instant) (t : Task κ β ω) :
    Timed (fun _ e => e.Inner) clock (alone t (.holding false))
      [.turn .notification none, .pass resolution]
      (asleep (DueQueue.empty.push t) shortWait (0 + shortWait) resolution) :=
  asleep_pass (alone_taken clock t) (by decide) resolution resolution (Nat.zero_add resolution)
    (by decide) fun _ => trivial

variable [LawfulBEq κ]

theorem alone_valid (t : Task κ β ω) : (DueQueue.empty.push t : DueQueue κ β ω).Valid :=
  DueQueue.push_valid DueQueue.empty_valid fun _ hu => nomatch hu

/-- What the end of a sleep comes to with one task in the queue. -/
theorem asleep_turn (valid : q.Valid) (single : q.tasks.Perm [t]) {cause : Cause}
    {handed : Option (Task κ β ω)}
    (step : Step clock (asleep q wait deadline now) (.turn cause handed) s') :
    (clock now < t.due → handed = none ∧ ∃ r : DueQueue κ β ω, r.Valid ∧ r.tasks.Perm [t] ∧
      s' = asleep r (sleepFor t (clock now)) (now + sleepFor t (clock now)) now) ∧
    (t.due ≤ clock now → handed = some t ∧ s'.now = now) := by
  have turned := (asleep_going q wait deadline now).turned valid step
  have queued : t ∈ q.tasks := single.mem_iff.mpr (List.mem_singleton_self t)
  cases turned with
  | signal written => cases written
  | notification notified => cases notified
  | idle empty =>
    have nothing : q.tasks = [] := empty
    rw [nothing] at queued
    cases queued
  | @wait u r again same there first ahead =>
    obtain rfl := List.mem_singleton.mp (single.mem_iff.mp there)
    exact ⟨fun _ => ⟨rfl, r, again, same.trans single, rfl⟩,
      fun due => absurd ahead (Std.not_lt.mpr due)⟩
  | @ready u r again taken due first =>
    have there := taken.mem_iff.mpr List.mem_cons_self
    obtain rfl := List.mem_singleton.mp (single.mem_iff.mp there)
    exact ⟨fun early => absurd early (Std.not_lt.mpr due), fun _ => ⟨rfl, rfl⟩⟩

/-- The end of a sleep for a task that is not due yet is the beginning of another one. -/
theorem asleep_again (valid : q.Valid) (single : q.tasks.Perm [t]) (early : clock now < t.due)
    (elapsed : expiry deadline ≤ now) : ∃ r : DueQueue κ β ω, r.Valid ∧ r.tasks.Perm [t] ∧
      Step clock (asleep q wait deadline now) (.turn .timer none)
        (asleep r (sleepFor t (clock now)) (now + sleepFor t (clock now)) now) := by
  have ready : (asleep q wait deadline now).Ready .timer := asleep_ready elapsed
  obtain ⟨handed, s', step⟩ := ready.turn clock
  obtain ⟨rfl, r, again, same, rfl⟩ := (asleep_turn valid single step).1 early
  exact ⟨r, again, same, step⟩

/-- A task that is due goes out at the end of a sleep. -/
theorem asleep_due (valid : q.Valid) (single : q.tasks.Perm [t]) (due : t.due ≤ clock now)
    (elapsed : expiry deadline ≤ now) :
    ∃ s', s'.now = now ∧ Step clock (asleep q wait deadline now) (.turn .timer (some t)) s' := by
  have ready : (asleep q wait deadline now).Ready .timer := asleep_ready elapsed
  obtain ⟨handed, s', step⟩ := ready.turn clock
  obtain ⟨rfl, same⟩ := (asleep_turn valid single step).2 due
  exact ⟨s', same, step⟩

/-- A task that is due at the first look goes out then. -/
theorem alone_due (due : t.due ≤ clock resolution) :
    ∃ s, Timed (fun _ e => e.Inner) clock (alone t (.holding false))
      [.turn .notification none, .pass resolution, .turn .timer (some t)] s := by
  have elapsed : expiry (0 + shortWait) ≤ resolution := by decide
  obtain ⟨s, -, step⟩ := asleep_due (alone_valid t) (DueQueue.tasks_push .empty t) due elapsed
  exact ⟨s, (alone_asleep clock t).snoc step (asleep_ready elapsed) trivial⟩

/-- A task that is not due at the first look is still queued at any instant that the sleep for it
reaches, whatever the clock says then. -/
theorem alone_late (early : clock resolution < t.due) (positive : 0 < nanos)
    (fits : nanos ≤ sleepFor t (clock resolution)) : ∃ r : DueQueue κ β ω, r.Valid ∧
      r.tasks.Perm [t] ∧ Timed (fun _ e => e.Inner) clock (alone t (.holding false))
        [.turn .notification none, .pass resolution, .turn .timer none, .pass nanos]
        (asleep r (sleepFor t (clock resolution)) (resolution + sleepFor t (clock resolution))
          (resolution + nanos)) := by
  have elapsed : expiry (0 + shortWait) ≤ resolution := by decide
  obtain ⟨r, again, same, step⟩ :=
    asleep_again (alone_valid t) (DueQueue.tasks_push .empty t) early elapsed
  have looked := (alone_asleep clock t).snoc step (asleep_ready elapsed) trivial
  have ahead := le_expiry (resolution + sleepFor t (clock resolution))
  exact ⟨r, again, same, asleep_pass looked (by omega) nanos _ rfl (by omega) fun _ => trivial⟩

/-- Where the calendar counts nothing up to a task that is not due yet, time does not go on. -/
theorem asleep_stuck (valid : q.Valid) (single : q.tasks.Perm [t]) (grid : expiry now ≤ now)
    (early : clock now < t.due) (nothing : sleepFor t (clock now) = 0) :
    (asleep q 0 now now).Stuck clock t := by
  intro es s run
  suffices stays : ∃ r : DueQueue κ β ω, r.Valid ∧ r.tasks.Perm [t] ∧ s = asleep r 0 now now by
    obtain ⟨r, -, same, rfl⟩ := stays
    exact ⟨rfl, same.mem_iff.mpr (List.mem_singleton_self t)⟩
  induction run with
  | nil => exact ⟨q, valid, single, rfl⟩
  | @snoc es e r r' before last timely inner ih =>
    obtain ⟨r, valid, single, rfl⟩ := ih
    cases e with
    | pass nanos => exact absurd (asleep_ready grid) (timely.1 .timer)
    | turn cause handed =>
      obtain ⟨-, r', again, same, rfl⟩ := (asleep_turn valid single last).1 early
      exact ⟨r', again, same, by rw [nothing, Nat.add_zero]⟩
    | _ => exact inner.elim

theorem alone_stuck (early : clock resolution < t.due) (positive : 0 < nanos)
    (sleep : sleepFor t (clock resolution) = nanos)
    (grid : expiry (resolution + nanos) ≤ resolution + nanos)
    (still : clock (resolution + nanos) < t.due)
    (nothing : sleepFor t (clock (resolution + nanos)) = 0) :
    ∃ es s, Timed (fun _ e => e.Inner) clock (alone t (.holding false)) es s ∧
      s.now = resolution + nanos ∧ s.Stuck clock t := by
  obtain ⟨r, valid, single, late⟩ := alone_late early positive (Nat.le_of_eq sleep.symm)
  rw [sleep] at late
  obtain ⟨r', valid', single', step⟩ := asleep_again valid single still grid
  rw [nothing, Nat.add_zero] at step
  exact ⟨_, _, late.snoc step (asleep_ready grid) trivial, rfl,
    asleep_stuck valid' single' grid still nothing⟩

end Stage

end HomeScenes.Dispatch
