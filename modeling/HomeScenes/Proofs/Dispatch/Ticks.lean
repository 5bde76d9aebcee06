import HomeScenes.Dispatch.Server
import HomeScenes.Proofs.Calendar.Clock
import HomeScenes.Proofs.DueQueue.Refinement

/-!
# Looking at the queue again and again

A look at the queue takes the earliest task once it is due. Before that it takes nothing, and says
for how long to wait. However often one looks in the meantime, the queue keeps the same tasks, and
the first look that is not too early takes a task that is due at the earliest instant.

The wait is the time that the calendar counts up to that instant. Within a leap second the calendar
may count less than nothing although the instant is still to come, and then the wait is a fixed
short one. Nor does the calendar count a leap second that is not over, so that an instant within
one comes before the wait for it has passed.
-/

namespace HomeScenes

variable {κ β ω : Type} [BEq κ] [Hashable κ]

structure DueQueue.Earliest (q : DueQueue κ β ω) (m : Instant) : Prop where
  due : ∃ t ∈ q.tasks, t.due = m
  first : ∀ t ∈ q.tasks, m ≤ t.due

namespace DueQueue

variable {q r : DueQueue κ β ω} {m : Instant}

theorem Earliest.perm (h : q.Earliest m) (same : r.tasks.Perm q.tasks) : r.Earliest m := by
  obtain ⟨t, ht, due⟩ := h.due
  exact ⟨⟨t, same.mem_iff.mpr ht, due⟩, fun u hu => h.first u (same.mem_iff.mp hu)⟩

theorem Earliest.of_pop [LawfulBEq κ] {t : Task κ β ω} (hv : q.Valid)
    (pop : q.pop? = some (t, r)) : q.Earliest t.due := by
  obtain ⟨-, perm, first⟩ := pop?_spec hv pop
  exact ⟨⟨t, perm.mem_iff.mpr List.mem_cons_self, rfl⟩, first⟩

theorem Earliest.unique {n : Instant} (hm : q.Earliest m) (hn : q.Earliest n) : m = n := by
  obtain ⟨t, ht, rfl⟩ := hm.due
  obtain ⟨u, hu, rfl⟩ := hn.due
  exact Std.le_antisymm (hm.first u hu) (hn.first t ht)

end DueQueue

namespace Dispatch

def waitUntil (due now : Instant) : Nat :=
  if 0 ≤ due.since now then (due.since now).toNat else shortWait

section

variable {due now : Instant}

/-- From an ordinary time on, the wait is as long as the calendar says. -/
theorem waitUntil_eq (ordinary : now.Ordinary) (early : now < due) :
    (waitUntil due now : Int) = due.since now := by
  have left := Instant.since_pos ordinary early
  rw [waitUntil, if_pos (Int.le_of_lt left)]
  omega

theorem shift_waitUntil (ordinary : now.Ordinary) (hd : due.Ordinary) (early : now < due) :
    now.shift (waitUntil due now) = due := by
  rw [waitUntil_eq ordinary early, Instant.shift_since hd ordinary]

/-- The wait gets shorter by the time that has passed. -/
theorem waitUntil_later {later : Instant} (ordinary : now.Ordinary) (hd : due.Ordinary)
    (hl : later.Ordinary) (early : now < due) (still : later < due) :
    (waitUntil due later : Int) = waitUntil due now - later.since now := by
  rw [waitUntil_eq ordinary early, waitUntil_eq hl still, Instant.since_eq hd ordinary,
    Instant.since_eq hd hl, Instant.since_eq hl ordinary]
  omega

end

namespace Server

variable {s : Server κ β ω} {m now : Instant}

def ticks (s : Server κ β ω) : List Instant → List (Tick κ β ω) × Server κ β ω
  | [] => ([], s)
  | now :: rest =>
    ((s.tick now).1 :: ((s.tick now).2.ticks rest).1, ((s.tick now).2.ticks rest).2)

theorem tick_of_empty (h : s.queue.pop? = none) : s.tick now = (.idle, s) := by
  rw [tick, h]

theorem tick_of_pop {t : Task κ β ω} {rest : DueQueue κ β ω}
    (h : s.queue.pop? = some (t, rest)) : s.tick now =
      if now < t.due then (.wait (waitUntil t.due now), { s with queue := rest.push t })
      else (.ready t, { s with queue := rest }) := by
  rw [tick, h]
  rfl

variable [LawfulBEq κ]

theorem reached_tick (h : s.queue.Reached) (now : Instant) : (s.tick now).2.queue.Reached := by
  cases pop : s.queue.pop? with
  | none =>
    rw [tick_of_empty pop]
    exact h
  | some p =>
    obtain ⟨t, rest⟩ := p
    rw [tick_of_pop pop]
    split
    · obtain ⟨-, perm, -⟩ := DueQueue.pop?_spec h.valid pop
      exact (h.popped pop).pushed (h.valid.apart perm)
    · exact h.popped pop

omit [LawfulBEq κ] in
theorem tick_idle_iff : (s.tick now).1 = .idle ↔ s.queue.tasks = [] := by
  rw [← DueQueue.pop?_eq_none_iff]
  cases pop : s.queue.pop? with
  | none => simp [tick_of_empty pop]
  | some p =>
    rw [tick_of_pop pop]
    split <;> simp

theorem exists_earliest (hv : s.queue.Valid) (queued : s.queue.tasks ≠ []) :
    ∃ m, s.queue.Earliest m := by
  cases pop : s.queue.pop? with
  | none => exact absurd (DueQueue.pop?_eq_none_iff.mp pop) queued
  | some p => exact ⟨_, .of_pop hv pop⟩

theorem pop_earliest (hv : s.queue.Valid) (earliest : s.queue.Earliest m) :
    ∃ t rest, s.queue.pop? = some (t, rest) ∧ t.due = m ∧ s.queue.tasks.Perm (t :: rest.tasks) := by
  cases pop : s.queue.pop? with
  | none =>
    obtain ⟨t, ht, -⟩ := earliest.due
    rw [DueQueue.pop?_eq_none_iff.mp pop] at ht
    cases ht
  | some p =>
    obtain ⟨t, rest⟩ := p
    obtain ⟨-, perm, -⟩ := DueQueue.pop?_spec hv pop
    exact ⟨t, rest, rfl, (DueQueue.Earliest.of_pop hv pop).unique earliest, perm⟩

/-- Too early, the earliest task leaves the queue and comes back. -/
theorem tick_early (hv : s.queue.Valid) (earliest : s.queue.Earliest m) (early : now < m) :
    (s.tick now).1 = .wait (waitUntil m now) ∧ (s.tick now).2.queue.tasks.Perm s.queue.tasks := by
  obtain ⟨t, rest, pop, rfl, perm⟩ := pop_earliest hv earliest
  rw [tick_of_pop pop, if_pos early]
  exact ⟨rfl, (DueQueue.tasks_push rest t).trans perm.symm⟩

theorem tick_due (hv : s.queue.Valid) (earliest : s.queue.Earliest m) (due : m ≤ now) :
    ∃ t, (s.tick now).1 = .ready t ∧ t.due = m ∧
      s.queue.tasks.Perm (t :: (s.tick now).2.queue.tasks) := by
  obtain ⟨t, rest, pop, rfl, perm⟩ := pop_earliest hv earliest
  rw [tick_of_pop pop, if_neg (Std.not_lt.mpr due)]
  exact ⟨t, rfl, rfl, perm⟩

/-- However often one looks too early, the answers are waits and the tasks stay. -/
theorem ticks_early (h : s.queue.Reached) (earliest : s.queue.Earliest m) {ns : List Instant}
    (early : ∀ n ∈ ns, n < m) :
    (s.ticks ns).1 = ns.map (fun n => .wait (waitUntil m n)) ∧
      (s.ticks ns).2.queue.Reached ∧ (s.ticks ns).2.queue.tasks.Perm s.queue.tasks := by
  induction ns generalizing s with
  | nil => exact ⟨rfl, h, .refl _⟩
  | cons n ns ih =>
    obtain ⟨answer, same⟩ := tick_early h.valid earliest (early n List.mem_cons_self)
    obtain ⟨answers, reached, still⟩ := ih (reached_tick h n) (earliest.perm same)
      fun k hk => early k (List.mem_cons_of_mem n hk)
    refine ⟨?_, reached, still.trans same⟩
    rw [ticks, answer, answers, List.map_cons]

/-- What a look says that leaves the server `r` and answers to wait for the earliest instant `m`,
and what it promises of the looks after it. -/
structure Waits (s : Server κ β ω) (now m : Instant) (nanos : Nat) (r : Server κ β ω) : Prop where
  nanos_eq : nanos = waitUntil m now
  same : r.queue.tasks.Perm s.queue.tasks
  positive : now.Ordinary → 0 < nanos ∧ (nanos : Int) = m.since now
  ends : now.Ordinary → m.Ordinary → now.shift nanos = m
  goesDown : now.Ordinary → m.Ordinary → ∀ n, n.Ordinary → n < m →
    (waitUntil m n : Int) = nanos - n.since now
  meanwhile : ∀ ns, (∀ n ∈ ns, n < m) →
    (r.ticks ns).1 = ns.map (fun n => .wait (waitUntil m n)) ∧
      (r.ticks ns).2.queue.tasks.Perm s.queue.tasks
  afterwards : ∀ ns, (∀ n ∈ ns, n < m) → ∀ later, m ≤ later →
    ∃ t, ((r.ticks ns).2.tick later).1 = .ready t ∧ t.due = m

theorem waits_tick (h : s.queue.Reached) (earliest : s.queue.Earliest m) (early : now < m) :
    s.Waits now m (waitUntil m now) (s.tick now).2 := by
  obtain ⟨-, same⟩ := tick_early h.valid earliest early
  have still := earliest.perm same
  refine ⟨rfl, same, fun ordinary => ?_, fun ordinary hd => shift_waitUntil ordinary hd early,
    fun ordinary hd n hn => waitUntil_later ordinary hd hn early, fun ns before => ?_,
    fun ns before later due => ?_⟩
  · have wait := waitUntil_eq ordinary early
    have left := Instant.since_pos ordinary early
    exact ⟨by omega, wait⟩
  · obtain ⟨answers, -, perm⟩ := ticks_early (reached_tick h now) still before
    exact ⟨answers, perm.trans same⟩
  · obtain ⟨-, reached, perm⟩ := ticks_early (reached_tick h now) still before
    obtain ⟨t, ready, at_, -⟩ := tick_due reached.valid (still.perm perm) due
    exact ⟨t, ready, at_⟩

/-- A look is idle if nothing is queued. Otherwise it takes a task that is due at the earliest
instant if that has come, and else says for how long to wait and leaves the same tasks in a valid
queue. Looks that are too early all do so, and the first that is not takes a task. From an
ordinary time on the wait is what the calendar says, and if the instant is ordinary too, it is the
end of the wait, and the waits at ordinary times go down with the time. -/
theorem tick_takes_earliest_when_due (h : s.queue.Reached) {answer : Tick κ β ω}
    {r : Server κ β ω} (looked : s.tick now = (answer, r)) :
    (answer = .idle ↔ s.queue.tasks = []) ∧ (answer = .idle → r = s) ∧
    (s.queue.tasks ≠ [] → ∃ m, s.queue.Earliest m) ∧ r.queue.Reached ∧ r.queue.Valid ∧
    ∀ m, s.queue.Earliest m →
      ((∃ t, answer = .ready t) ↔ m ≤ now) ∧
      (∀ t, answer = .ready t → t.due = m ∧ s.queue.tasks.Perm (t :: r.queue.tasks)) ∧
      ((∃ nanos, answer = .wait nanos) ↔ now < m) ∧
      ∀ nanos, answer = .wait nanos → s.Waits now m nanos r := by
  have reached := reached_tick h now
  have idle : (s.tick now).1 = .idle ↔ s.queue.tasks = [] := tick_idle_iff
  rw [looked] at reached idle
  refine ⟨idle, ?_, exists_earliest h.valid, reached, reached.valid, fun m earliest => ?_⟩
  · intro nothing
    rw [tick_of_empty (DueQueue.pop?_eq_none_iff.mpr (idle.mp nothing))] at looked
    exact (Prod.mk.inj looked).2.symm
  by_cases early : now < m
  · have answered := (tick_early h.valid earliest early).1
    have waits := waits_tick h earliest early
    rw [looked] at answered waits
    obtain rfl : answer = .wait (waitUntil m now) := answered
    refine ⟨⟨?_, fun due => absurd early (Std.not_lt.mpr due)⟩, ?_, ⟨fun _ => early, ?_⟩, ?_⟩
    · rintro ⟨t, ⟨⟩⟩
    · rintro t ⟨⟩
    · exact fun _ => ⟨_, rfl⟩
    · rintro _ ⟨⟩
      exact waits
  · obtain ⟨t, answered, due, perm⟩ := tick_due h.valid earliest (Std.not_lt.mp early)
    rw [looked] at answered perm
    obtain rfl : answer = .ready t := answered
    refine ⟨⟨fun _ => Std.not_lt.mp early, fun _ => ⟨t, rfl⟩⟩, ?_,
      ⟨?_, fun e => absurd e early⟩, ?_⟩
    · rintro _ ⟨⟩
      exact ⟨due, perm⟩
    · rintro ⟨nanos, ⟨⟩⟩
    · rintro nanos ⟨⟩

/-- Two tasks are due together and one after them. -/
theorem tick_takes_earliest_when_due_ties :
    let task (id : Nat) (micros : Int) : Task Nat Unit Unit := .dueAt id (.ofMicros micros) ()
    let q := [task 1 5, task 2 9, task 3 5].foldl .push DueQueue.empty
    let s : Server Nat Unit Unit := ⟨q, false⟩
    ∃ r, s.tick (.ofMicros 1) = (.wait 4000, r) ∧ r.queue.tasks.Perm q.tasks ∧
      (r.ticks [.ofMicros 4, .ofMicros 2]).1 = [.wait 1000, .wait 3000] ∧
      ∃ t, ((r.ticks [.ofMicros 4, .ofMicros 2]).2.tick (.ofMicros 5)).1 = .ready t ∧
        t.due = .ofMicros 5 := by
  intro task q s
  have reached : q.Reached := .pushedAll .empty (by decide)
  have earliest : q.Earliest (.ofMicros 5) :=
    ⟨by decide +kernel, by decide +kernel⟩
  have before : ∀ n ∈ [Instant.ofMicros 4, .ofMicros 2], n < .ofMicros 5 := by decide +kernel
  have looked : s.tick (.ofMicros 1) = ((s.tick (.ofMicros 1)).1, (s.tick (.ofMicros 1)).2) := rfl
  obtain ⟨-, -, -, -, -, looks⟩ := tick_takes_earliest_when_due reached looked
  obtain ⟨-, -, wait_iff, waits⟩ := looks _ earliest
  obtain ⟨nanos, answer⟩ := wait_iff.mpr (by decide +kernel)
  have promise := waits nanos answer
  have wait : nanos = 4000 := promise.nanos_eq.trans (by decide +kernel)
  refine ⟨_, Prod.ext (answer.trans (congrArg _ wait)) rfl, promise.same,
    (promise.meanwhile _ before).1.trans ?_, promise.afterwards _ before _ (Std.le_refl _)⟩
  have once : waitUntil (.ofMicros 5) (.ofMicros 4) = 1000 := by decide +kernel
  have twice : waitUntil (.ofMicros 5) (.ofMicros 2) = 3000 := by decide +kernel
  rw [List.map_cons, List.map_singleton, once, twice]

/-- In the middle of a leap second, with a task due soon after it, the calendar counts less than
nothing and the wait is the short one. And when a task is due within a leap second, a look before
the end of the wait for it finds it due. -/
theorem tick_leap_second :
    let task (due : Instant) : Task Nat Unit Unit := .dueAt 1 due ()
    let one (due : Instant) : Server Nat Unit Unit := ⟨.push .empty (task due), false⟩
    let before : Instant := ⟨19849, 86398, 800000000, by decide, by decide⟩
    let within : Instant := ⟨19849, 86399, 1500000000, by decide, by decide⟩
    let after : Instant := ⟨19850, 0, 200000000, by decide, by decide⟩
    (one after).queue.Reached ∧ (one after).queue.Earliest after ∧ within < after ∧
      after.since within < 0 ∧ ((one after).tick within).1 = .wait shortWait ∧
    (one within).queue.Reached ∧ ((one within).tick before).1 = .wait 1700000000 ∧
      after < before.shift 1700000000 ∧
      ∃ t, (((one within).tick before).2.tick after).1 = .ready t := by
  intro task one before within after
  have reached (due : Instant) : (one due).queue.Reached :=
    DueQueue.Reached.empty.pushed (by rintro u ⟨⟩)
  have early : within < after := by decide +kernel
  have earlier : before < within := by decide +kernel
  have soon : (one after).queue.Earliest after := ⟨by decide +kernel, by decide +kernel⟩
  have leap : (one within).queue.Earliest within := ⟨by decide +kernel, by decide +kernel⟩
  have short : waitUntil after within = shortWait := by decide +kernel
  have long : waitUntil within before = 1700000000 := by decide +kernel
  obtain ⟨first, -⟩ := tick_early (reached after).valid soon early
  obtain ⟨second, same⟩ := tick_early (reached within).valid leap earlier
  obtain ⟨t, ready, -, -⟩ := tick_due (reached_tick (reached within) before).valid
    (leap.perm same) (Std.le_of_lt early)
  rw [short] at first
  rw [long] at second
  exact ⟨reached after, soon, early, by decide +kernel, first, reached within, second,
    by decide +kernel, t, ready⟩

end Server

end Dispatch

end HomeScenes
