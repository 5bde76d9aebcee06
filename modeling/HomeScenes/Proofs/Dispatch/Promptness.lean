import HomeScenes.Proofs.Dispatch.SingleTask
import Mathlib.Data.List.Perm.Subperm

/-!
# How long a due task waits

While the stop signal is left alone, a task that is due waits for short sleeps only. Each of
them but the last ends with the dispatch of a task that is due no later, or is begun anew by
a notification that is taken up meanwhile. Tasks that are pushed or moved to later instants
never go first, but their notifications are among these. Tasks that are due within a leap second
may wait for longer.
-/

namespace HomeScenes.Dispatch

def sleeps : Nat → Nat → Nat
  | 0, start => start
  | n + 1, start => expiry (sleeps n start + shortWait)

theorem sleeps_succ_ge (n start : Nat) : sleeps n start ≤ sleeps (n + 1) start := by
  have later := le_expiry (sleeps n start + shortWait)
  rw [sleeps]
  omega

theorem sleeps_mono {m n : Nat} (h : m ≤ n) (start : Nat) : sleeps m start ≤ sleeps n start := by
  induction h with
  | refl => exact Nat.le_refl _
  | step _ ih => exact Nat.le_trans ih (sleeps_succ_ge _ start)

theorem le_sleeps (n start : Nat) : start ≤ sleeps n start :=
  sleeps_mono (Nat.zero_le n) start

variable {κ β ω : Type} [BEq κ] [Hashable κ]

variable {epoch : Instant} {s r s' : Stage κ β ω} {es es' : List (Event κ β ω)}
  {e : Event κ β ω} {l : Loop} {x : Task κ β ω}

/-- The task that a push or a move makes due no later than another one. -/
def Event.rival? (x : Task κ β ω) : Event κ β ω → Option κ
  | .push u => if u.due ≤ x.due then some u.id else none
  | .reschedule id due true => if due ≤ x.due then some id else none
  | _ => none

/-- The other tasks that are due no later than one at a stage, or become so by what happens. -/
def rivals (x : Task κ β ω) (s : Stage κ β ω) (es : List (Event κ β ω)) : List κ :=
  (s.server.queue.tasks.filter fun u => u.due ≤ x.due && u.id != x.id).map Task.id ++
    es.filterMap (Event.rival? x)

def Event.wakes : Event κ β ω → Bool
  | .turn .notification _ => true
  | _ => false

/-- How many notifications are taken up later than at the start. -/
def restarts (start : Nat) (es : List (Event κ β ω)) : Nat :=
  (stamped start es).countP fun p => start < p.1 && p.2.wakes

/-- A task is neither removed nor moved. -/
def Event.Spares (id : κ) : Event κ β ω → Prop
  | .remove k true => k ≠ id
  | .reschedule k _ true => k ≠ id
  | _ => True

theorem rivals_snoc (x : Task κ β ω) (s : Stage κ β ω) (es : List (Event κ β ω))
    (e : Event κ β ω) : rivals x s (es ++ [e]) = rivals x s es ++ (e.rival? x).toList := by
  rw [rivals, List.filterMap_append, ← List.append_assoc, ← rivals]
  cases h : e.rival? x <;> simp [h]

omit [BEq κ] [Hashable κ] in
theorem Run.restarts_snoc {clock : Nat → Instant} [BEq κ] [Hashable κ] {s r : Stage κ β ω}
    (run : Run clock s es r) (e : Event κ β ω) :
    restarts s.now (es ++ [e]) =
      restarts s.now es + if s.now < r.now && e.wakes then 1 else 0 := by
  rw [restarts, run.stamped_snoc, List.countP_append, List.countP_singleton, restarts]

/-- The loop goes on before any queued task is due, or soon. -/
structure Stage.Attentive (epoch : Instant) (s : Stage κ β ω) : Prop where
  unwritten : ∀ l, s.loop = some l → l.signal.written = false
  near : ∀ l, s.loop = some l → s.server.notified = true ∨ l.deadline ≤ s.now + shortWait ∨
    ∀ u ∈ s.server.queue.tasks, (l.deadline : Int) ≤ u.due.since epoch

theorem Stage.Attentive.of_loop (here : s.loop = some l) (unwritten : l.signal.written = false)
    (near : s.server.notified = true ∨ l.deadline ≤ s.now + shortWait ∨
      ∀ u ∈ s.server.queue.tasks, (l.deadline : Int) ≤ u.due.since epoch) : s.Attentive epoch := by
  constructor
  · intro k there
    cases here.symm.trans there
    exact unwritten
  · intro k there
    cases here.symm.trans there
    exact near

theorem Stage.Attentive.turned (he : epoch.Ordinary) (attentive : s.Attentive epoch)
    (sound : s.Sound) (going : s.Going l) {cause : Cause} {handed : Option (Task κ β ω)}
    (turned : Turned s l (Instant.clockFrom epoch s.now) cause handed s') : s'.Attentive epoch := by
  have unwritten := attentive.unwritten l going.here
  cases turned with
  | signal written =>
    rw [unwritten] at written
    cases written
  | notification notified => exact .of_loop rfl unwritten (.inr (.inl (Nat.le_refl _)))
  | idle empty =>
    refine .of_loop rfl unwritten (.inr (.inr fun u hu => ?_))
    rw [empty] at hu
    cases hu
  | @wait t q valid same queued first early =>
    have sleep := sleepFor_clockFrom he (sound.ordinary t queued) early
    refine .of_loop rfl unwritten (.inr (.inr fun u hu => ?_))
    have there := same.mem_iff.mp hu
    have later := (Instant.since_le_since he (sound.ordinary t queued)
      (sound.ordinary u there)).mpr (first u there)
    exact Int.le_trans (Int.le_of_eq sleep) later
  | ready valid taken due first => exact .of_loop rfl unwritten (.inr (.inl (Nat.le_refl _)))

variable [LawfulBEq κ]

theorem Stage.Attentive.step (he : epoch.Ordinary) (attentive : s.Attentive epoch) (sound : s.Sound)
    (step : Step (Instant.clockFrom epoch) s e s') (unsignaled : e.Unsignaled) :
    s'.Attentive epoch := by
  cases step with
  | push t => exact ⟨attentive.unwritten, fun _ _ => .inl rfl⟩
  | @remove id found q h =>
    have left := Server.tasks_remove sound.valid id
    rw [h] at left
    have notified := Server.remove_notified h
    refine ⟨attentive.unwritten, fun l here => ?_⟩
    rcases attentive.near l here with waiting | soon | early
    · exact .inl (notified.trans waiting)
    · exact .inr (.inl soon)
    · refine .inr (.inr fun u hu => early u ?_)
      exact (List.mem_filter.mp (left.2.mem_iff.mp hu)).1
  | @reschedule id due found q h =>
    cases found with
    | false =>
      obtain rfl := Server.reschedule_false h
      exact attentive
    | true =>
      exact ⟨attentive.unwritten, fun _ _ => .inl (Server.reschedule_notified h)⟩
  | start signal absent =>
    have held : signal = .holding false := unsignaled
    subst held
    exact .of_loop rfl rfl (.inr (.inl (Nat.le_refl _)))
  | write stop here held => exact unsignaled.elim
  | drop here => exact unsignaled.elim
  | pass nanos =>
    refine ⟨attentive.unwritten, fun l here => ?_⟩
    rcases attentive.near l here with waiting | soon | early
    · exact .inl waiting
    · exact .inr (.inl (Nat.le_trans soon (Nat.add_le_add_right (Nat.le_add_right _ _) _)))
    · exact .inr (.inr early)
  | @turn l q cause here ready h =>
    have going := sound.going l here
    exact attentive.turned he sound going (going.turned sound.valid (.turn cause here ready h))

/-- From the beginning, with the signal left alone. -/
theorem Timed.attentive (he : epoch.Ordinary)
    (run : Timed (fun _ e => e.Unsignaled ∧ e.Ordinary) (Instant.clockFrom epoch) .empty es s)
    (distinct : (pushed es).Nodup) : s.Sound ∧ s.Attentive epoch := by
  have mild : ∀ (r : Stage κ β ω) (e : Event κ β ω), e.Unsignaled ∧ e.Ordinary →
      e.Unstopped ∧ e.Ordinary :=
    fun _ _ ok => ⟨ok.1.unstopped, ok.2⟩
  refine ⟨run.sound_of_empty he mild distinct, ?_⟩
  induction run with
  | nil =>
    constructor
    · intro l here
      cases here
    · intro l here
      cases here
  | @snoc es e r r' before last timely ok ih =>
    rw [pushed, List.filterMap_append] at distinct
    have once := distinct.of_append_left
    exact (ih once).step he (before.sound_of_empty he mild once) last ok.1

/-- How many short sleeps a task has waited for, the one it waits for included. -/
def waits (start : Nat) (es : List (Event κ β ω)) : Nat :=
  (dispatched es).length + restarts start es + 1

/-- A task waits that was due at a stage before. -/
structure Waiting (x : Task κ β ω) (s : Stage κ β ω) (es : List (Event κ β ω))
    (s' : Stage κ β ω) : Prop where
  after : s.now ≤ s'.now
  queued : x ∈ s'.server.queue.tasks
  ahead : ∀ u ∈ s'.server.queue.tasks, u.id ≠ x.id → u.due ≤ x.due → u.id ∈ rivals x s es
  gone : ∀ id ∈ dispatched es, id ∈ rivals x s es
  timer : ∃ l, s'.Going l ∧ ((s'.server.notified = true ∧ s'.now = s.now) ∨
    expiry l.deadline ≤ sleeps (waits s.now es) s.now)

omit [LawfulBEq κ] in
theorem Waiting.now_le (waiting : Waiting x s es r) (sound : r.Sound) :
    r.now ≤ sleeps (waits s.now es) s.now := by
  obtain ⟨l, going, ⟨-, now⟩ | timer⟩ := waiting.timer
  · rw [now]
    exact le_sleeps _ _
  · exact Nat.le_trans (sound.onTime l going.here) timer

omit [LawfulBEq κ] in
/-- An event that dispatches nothing. -/
theorem Waiting.next (waiting : Waiting x s es r) (hd : e.dispatched? = none) (now : r.now ≤ s'.now)
    (queued : x ∈ s'.server.queue.tasks)
    (ahead : ∀ u ∈ s'.server.queue.tasks, u.id ≠ x.id → u.due ≤ x.due →
      u ∈ r.server.queue.tasks ∨ e.rival? x = some u.id)
    (timer : ∃ l, s'.Going l ∧ ((s'.server.notified = true ∧ s'.now = s.now) ∨
      expiry l.deadline ≤ sleeps (waits s.now (es ++ [e])) s.now)) :
    Waiting x s (es ++ [e]) s' := by
  refine ⟨Nat.le_trans waiting.after now, queued, ?_, ?_, timer⟩
  · intro u hu other due
    rw [rivals_snoc, List.mem_append]
    rcases ahead u hu other due with there | rival
    · exact .inl (waiting.ahead u there other due)
    · exact .inr (by simp [rival])
  · intro id hid
    rw [dispatched, List.filterMap_append, List.filterMap_cons, hd, List.filterMap_nil,
      List.append_nil] at hid
    rw [rivals_snoc]
    exact List.mem_append_left _ (waiting.gone id hid)

omit [LawfulBEq κ] in
theorem waits_snoc {clock : Nat → Instant} (run : Run clock s es r) (e : Event κ β ω) :
    waits s.now (es ++ [e]) = waits s.now es + (if e.dispatched?.isSome then 1 else 0) +
      (if s.now < r.now && e.wakes then 1 else 0) := by
  rw [waits, run.restarts_snoc, dispatched, List.filterMap_append, List.length_append, waits,
    dispatched]
  cases h : e.dispatched? with
  | none =>
    simp only [List.filterMap_cons, h, List.filterMap_nil, List.length_nil, Option.isSome_none,
      Bool.false_eq_true, if_false]
    omega
  | some id =>
    simp only [List.filterMap_cons, h, List.filterMap_nil, List.length_singleton,
      Option.isSome_some, if_true]
    omega

omit [LawfulBEq κ] in
/-- An event that leaves the loop alone leaves its sleep as it is. -/
theorem Waiting.stays {clock : Nat → Instant} (waiting : Waiting x s es r) (run : Run clock s es r)
    (same : s'.loop = r.loop) (quiet : e.wakes = false ∧ e.dispatched? = none)
    (now : r.now ≤ s'.now)
    (still : r.server.notified = true → s'.server.notified = true ∧ s'.now = r.now)
    (queued : x ∈ s'.server.queue.tasks)
    (ahead : ∀ u ∈ s'.server.queue.tasks, u.id ≠ x.id → u.due ≤ x.due →
      u ∈ r.server.queue.tasks ∨ e.rival? x = some u.id) :
    Waiting x s (es ++ [e]) s' := by
  obtain ⟨wakes, nothing⟩ := quiet
  obtain ⟨l, going, timer⟩ := waiting.timer
  have count : waits s.now (es ++ [e]) = waits s.now es := by
    simp [waits_snoc run, wakes, nothing]
  refine waiting.next nothing now queued ahead ⟨l, going.carry same, ?_⟩
  rw [count]
  rcases timer with ⟨notified, begun⟩ | elapsed
  · obtain ⟨notified, now⟩ := still notified
    exact .inl ⟨notified, now.trans begun⟩
  · exact .inr elapsed

/-- An event from outside, or passing time, leaves a task that it spares in the queue, and puts no other
one before it but its rival. -/
theorem Step.spared {clock : Nat → Instant} (step : Step clock r e s')
    (valid : r.server.queue.Valid) (spares : e.Spares x.id)
    (outer : ∀ cause handed, e ≠ .turn cause handed) (queued : x ∈ r.server.queue.tasks) :
    x ∈ s'.server.queue.tasks ∧ ∀ u ∈ s'.server.queue.tasks, u.id ≠ x.id → u.due ≤ x.due →
      u ∈ r.server.queue.tasks ∨ e.rival? x = some u.id := by
  cases step with
  | push u =>
    have perm := DueQueue.tasks_push r.server.queue u
    refine ⟨perm.mem_iff.mpr (List.mem_cons_of_mem u queued), fun v hv _ due => ?_⟩
    rcases List.mem_cons.mp (perm.mem_iff.mp hv) with rfl | hv
    · exact .inr (if_pos due)
    · exact .inl hv
  | @remove id found q h =>
    cases found with
    | false =>
      obtain ⟨rfl, -⟩ := Server.remove_false valid h
      exact ⟨queued, fun u hu _ _ => .inl hu⟩
    | true =>
      obtain ⟨-, t, hid, perm⟩ := Server.remove_true valid h
      have other : id ≠ x.id := spares
      refine ⟨?_, fun u hu _ _ => .inl (perm.mem_iff.mpr (List.mem_cons_of_mem t hu))⟩
      rcases List.mem_cons.mp (perm.mem_iff.mp queued) with rfl | there
      · exact absurd hid.symm other
      · exact there
  | @reschedule id due found q h =>
    cases found with
    | false =>
      obtain rfl := Server.reschedule_false h
      exact ⟨queued, fun u hu _ _ => .inl hu⟩
    | true =>
      obtain ⟨-, t, rest, hid, before, moved⟩ := Server.reschedule_true valid h
      have other : id ≠ x.id := spares
      constructor
      · rcases List.mem_cons.mp (before.mem_iff.mp queued) with rfl | there
        · exact absurd hid.symm other
        · exact moved.mem_iff.mpr (List.mem_cons_of_mem _ there)
      · intro u hu _ early
        rcases List.mem_cons.mp (moved.mem_iff.mp hu) with rfl | hu
        · have early : due ≤ x.due := early
          refine .inr ?_
          rw [Event.rival?, if_pos early, ← hid]
          rfl
        · exact .inl (before.mem_iff.mpr (List.mem_cons_of_mem t hu))
  | turn cause here ready h => exact absurd rfl (outer _ _)
  | _ => exact ⟨queued, fun u hu _ _ => .inl hu⟩

/-- An event from outside, or passing time, leaves the sleep as it is. -/
theorem Waiting.outer (waiting : Waiting x s es r) (sound : r.Sound)
    (run : Run (Instant.clockFrom epoch) s es r) (step : Step (Instant.clockFrom epoch) r e s')
    (timely : e.Timely r) (unsignaled : e.Unsignaled) (spares : e.Spares x.id)
    (outer : ∀ cause handed, e ≠ .turn cause handed) :
    Waiting x s (es ++ [e]) s' := by
  obtain ⟨queued, ahead⟩ := step.spared sound.valid spares outer waiting.queued
  obtain ⟨l, going, -⟩ := waiting.timer
  cases step with
  | push u =>
    exact waiting.stays run rfl ⟨rfl, rfl⟩ (Nat.le_refl _) (fun _ => ⟨rfl, rfl⟩) queued ahead
  | remove h =>
    exact waiting.stays run rfl ⟨rfl, rfl⟩ (Nat.le_refl _)
      (fun there => ⟨(Server.remove_notified h).trans there, rfl⟩) queued ahead
  | @reschedule id due found q h =>
    refine waiting.stays run rfl ⟨rfl, rfl⟩ (Nat.le_refl _) (fun there => ⟨?_, rfl⟩) queued ahead
    cases found with
    | false =>
      obtain rfl := Server.reschedule_false h
      exact there
    | true => exact Server.reschedule_notified h
  | start signal absent =>
    rw [going.here] at absent
    cases absent
  | write stop here held => exact unsignaled.elim
  | drop here => exact unsignaled.elim
  | pass nanos =>
    -- no time passes while a notification is there
    exact waiting.stays run rfl ⟨rfl, rfl⟩ (Nat.le_add_right _ _)
      (fun notified => absurd (.inl notified) (going.still timely)) queued ahead
  | turn cause here ready h => exact absurd rfl (outer _ _)

omit [LawfulBEq κ] in
/-- A notification begins the short sleep anew. -/
theorem Waiting.again {clock : Nat → Instant} (waiting : Waiting x s es r) (run : Run clock s es r)
    (within : r.now ≤ sleeps (waits s.now es) s.now) (going : s'.Going l)
    (deadline : l.deadline = r.now + shortWait) (queue : s'.server.queue = r.server.queue)
    (now : s'.now = r.now) : Waiting x s (es ++ [.turn .notification none]) s' := by
  refine waiting.next rfl (Nat.le_of_eq now.symm) (queue ▸ waiting.queued)
    (fun u hu _ _ => .inl (queue ▸ hu)) ⟨l, going, .inr ?_⟩
  rw [deadline, waits_snoc run]
  by_cases later : s.now < r.now
  · simp only [Event.wakes, later, decide_true, Bool.and_self, if_true]
    exact expiry_mono (Nat.add_le_add_right within _)
  · have begun : r.now = s.now := Nat.le_antisymm (Nat.not_lt.mp later) waiting.after
    rw [begun]
    exact sleeps_mono (m := 1) (by rw [waits]; omega) s.now

omit [LawfulBEq κ] in
/-- Another task that is due no later goes first. -/
theorem Waiting.overtaken {clock : Nat → Instant} (waiting : Waiting x s es r)
    (run : Run clock s es r) (within : r.now ≤ sleeps (waits s.now es) s.now) {t : Task κ β ω}
    (taken : r.server.queue.tasks.Perm (t :: s'.server.queue.tasks)) (other : t.id ≠ x.id)
    (first : t.due ≤ x.due) (going : s'.Going l) (deadline : l.deadline = r.now + shortWait)
    (now : s'.now = r.now) : Waiting x s (es ++ [.turn .timer (some t)]) s' := by
  refine ⟨now ▸ waiting.after, ?_, ?_, ?_, l, going, .inr ?_⟩
  · rcases List.mem_cons.mp (taken.mem_iff.mp waiting.queued) with rfl | there
    · exact absurd rfl other
    · exact there
  · intro u hu differs due
    have there := taken.mem_iff.mpr (List.mem_cons_of_mem t hu)
    rw [rivals_snoc]
    exact List.mem_append_left _ (waiting.ahead u there differs due)
  · intro id hid
    rw [rivals_snoc]
    refine List.mem_append_left _ ?_
    rw [dispatched, List.filterMap_append] at hid
    rcases List.mem_append.mp hid with hid | hid
    · exact waiting.gone id hid
    · obtain rfl : id = t.id := by simpa [Event.dispatched?] using hid
      exact waiting.ahead t (taken.mem_iff.mpr List.mem_cons_self) other first
  · rw [deadline, waits_snoc run]
    simp only [Event.dispatched?, Option.isSome_some, if_true, Event.wakes, Bool.and_false,
      Bool.false_eq_true, if_false, Nat.add_zero]
    exact expiry_mono (Nat.add_le_add_right within _)

/-- A turn of the loop dispatches the task, or another one that is due no later, or takes up a
notification. -/
theorem Waiting.turn (he : epoch.Ordinary) (waiting : Waiting x s es r) (sound : r.Sound)
    (attentive : r.Attentive epoch) (run : Run (Instant.clockFrom epoch) s es r) {cause : Cause}
    {handed : Option (Task κ β ω)}
    (step : Step (Instant.clockFrom epoch) r (.turn cause handed) s')
    (due : x.due ≤ Instant.clockFrom epoch s.now) :
    Waiting x s (es ++ [.turn cause handed]) s' ∨ handed = some x := by
  have within := waiting.now_le sound
  obtain ⟨l, going, -⟩ := waiting.timer
  have ordinary := sound.ordinary x waiting.queued
  have due : x.due ≤ Instant.clockFrom epoch r.now := by
    have after := waiting.after
    rw [Instant.le_clockFrom_iff he ordinary] at due ⊢
    omega
  have turned := going.turned sound.valid step
  cases turned with
  | signal written =>
    rw [attentive.unwritten l going.here] at written
    cases written
  | notification notified => exact .inl (waiting.again run within (going.resleep rfl) rfl rfl rfl)
  | idle empty =>
    have queued := waiting.queued
    rw [empty] at queued
    cases queued
  | wait valid same queued first early =>
    exact absurd (Std.le_trans (first x waiting.queued) due) (Std.not_le.mpr early)
  | @ready t q valid taken early first =>
    by_cases other : t.id = x.id
    · rcases List.mem_cons.mp (taken.mem_iff.mp waiting.queued) with rfl | there
      · exact .inr rfl
      · exact absurd other.symm (sound.valid.apart taken x there)
    · exact .inl (waiting.overtaken run within taken other (first x waiting.queued)
        (going.resleep rfl) rfl rfl)

/-- A due task waits from where it is due; the loop is attentive to it. -/
theorem Stage.Attentive.waiting (he : epoch.Ordinary) (attentive : s.Attentive epoch)
    (sound : s.Sound) (here : s.loop = some l) (queued : x ∈ s.server.queue.tasks)
    (due : x.due ≤ Instant.clockFrom epoch s.now) : Waiting x s [] s := by
  refine ⟨Nat.le_refl _, queued, ?_, fun id hid => (nomatch hid), l, sound.going l here, ?_⟩
  · intro u hu other early
    refine List.mem_append_left _ (List.mem_map_of_mem (List.mem_filter.mpr ⟨hu, ?_⟩))
    simpa using ⟨early, other⟩
  · have due := (Instant.le_clockFrom_iff he (sound.ordinary x queued)).mp due
    have first : sleeps (waits s.now ([] : List (Event κ β ω))) s.now = expiry (s.now + shortWait) :=
      rfl
    rw [first]
    rcases attentive.near l here with notified | soon | early
    · exact .inl ⟨notified, rfl⟩
    · exact .inr (expiry_mono soon)
    · have before := early x queued
      exact .inr (expiry_mono (by omega))

theorem Run.dispatched_nodup {clock : Nat → Instant} (run : Run clock .empty es s)
    (distinct : (pushed es).Nodup) : (dispatched es).Nodup := by
  rw [List.nodup_iff_count_le_one] at distinct ⊢
  intro id
  have account := (run.books (List.nodup_iff_count_le_one.mpr distinct)).account id
  have once := distinct id
  omega

omit [LawfulBEq κ] in
/-- Each sleep that is over belongs to a task that goes first, or to a notification. -/
theorem Waiting.waits_le (waiting : Waiting x s es r) (once : (dispatched (es' ++ es)).Nodup)
    {ahead : List κ} (covers : rivals x s es ⊆ ahead) :
    waits s.now es ≤ ahead.length + restarts s.now es + 1 := by
  rw [dispatched, List.filterMap_append] at once
  have once : (dispatched es).Nodup := once.of_append_right
  have gone : dispatched es ⊆ ahead := fun id hid => covers (waiting.gone id hid)
  have fewer := (List.subperm_of_subset once gone).length_le
  rw [waits]
  omega

/-- What happens to a task that is due at a stage and is neither removed nor moved from then on. -/
theorem Timed.waits (he : epoch.Ordinary)
    (run : Timed (fun _ e => e.Unsignaled ∧ e.Ordinary) (Instant.clockFrom epoch) .empty es s)
    (here : s.loop = some l) (queued : x ∈ s.server.queue.tasks)
    (due : x.due ≤ Instant.clockFrom epoch s.now)
    (more : Timed (fun _ e => (e.Unsignaled ∧ e.Ordinary) ∧ e.Spares x.id)
      (Instant.clockFrom epoch) s es' s')
    (distinct : (pushed (es ++ es')).Nodup) {ahead : List κ} (covers : rivals x s es' ⊆ ahead) :
    Waiting x s es' s' ∨ ∃ time, (time, x) ∈ dispatches s.now es' ∧
      time ≤ sleeps (ahead.length + restarts s.now es' + 1) s.now := by
  induction more with
  | nil =>
    rw [List.append_nil] at distinct
    obtain ⟨sound, attentive⟩ := run.attentive he distinct
    exact .inl (attentive.waiting he sound here queued due)
  | @snoc es' e r r' before last timely ok ih =>
    rw [← List.append_assoc, pushed, List.filterMap_append] at distinct
    have once := distinct.of_append_left
    rw [rivals_snoc] at covers
    have covers : rivals x s es' ⊆ ahead := fun id hid => covers (List.mem_append_left _ hid)
    have whole := run.append (before.mono fun _ _ ok => ok.1)
    obtain ⟨sound, attentive⟩ := whole.attentive he once
    have longer : sleeps (ahead.length + restarts s.now es' + 1) s.now ≤
        sleeps (ahead.length + restarts s.now (es' ++ [e]) + 1) s.now := by
      rw [before.run.restarts_snoc]
      exact sleeps_mono (by omega) s.now
    rw [before.run.dispatches_snoc]
    rcases ih once covers with waiting | ⟨time, went, early⟩
    · have fewer := waiting.waits_le (whole.run.dispatched_nodup once) covers
      have early := Nat.le_trans (waiting.now_le sound) (sleeps_mono fewer s.now)
      cases e with
      | turn cause handed =>
        rcases waiting.turn he sound attentive before.run last due with waiting | rfl
        · exact .inl waiting
        · refine .inr ⟨r.now, ?_, Nat.le_trans early longer⟩
          simp [Event.handed?]
      | _ =>
        refine .inl (waiting.outer sound before.run last timely ok.1.1 ok.2 ?_)
        rintro cause handed ⟨⟩
    · exact .inr ⟨time, List.mem_append_left _ went, Nat.le_trans early longer⟩

/-- While the stop signal is left alone, a task that is due at an instant and is neither removed nor
moved waits for no more short sleeps from then on than one, one for each other task that is due no
later at that instant or becomes so while it waits, and one for each notification that is taken up
later while it waits. -/
theorem promptness (he : epoch.Ordinary)
    (run : Timed (fun _ e => e.Unsignaled ∧ e.Ordinary) (Instant.clockFrom epoch) .empty es s)
    (here : s.loop = some l) (queued : x ∈ s.server.queue.tasks)
    (due : x.due ≤ Instant.clockFrom epoch s.now)
    (more : Timed (fun _ e => (e.Unsignaled ∧ e.Ordinary) ∧ e.Spares x.id)
      (Instant.clockFrom epoch) s es' s')
    (distinct : (pushed (es ++ es')).Nodup) {ahead : List κ} (covers : rivals x s es' ⊆ ahead) :
    ((x ∈ s'.server.queue.tasks ∧ s'.now ≤ sleeps (ahead.length + restarts s.now es' + 1) s.now) ∨
      ∃ time, (time, x) ∈ dispatches s.now es' ∧
        time ≤ sleeps (ahead.length + restarts s.now es' + 1) s.now) ∧
    ∀ nanos, ∃ es'' s'', Timed (fun _ e => e.Inner) (Instant.clockFrom epoch) s' es'' s'' ∧
      s''.now = s'.now + nanos := by
  have whole := run.append (more.mono fun _ _ ok => ok.1)
  obtain ⟨sound, -⟩ := whole.attentive he distinct
  refine ⟨?_, sound.goesOn he⟩
  refine (run.waits he here queued due more distinct covers).imp (fun waiting => ?_) id
  have fewer := waiting.waits_le (whole.run.dispatched_nodup distinct) covers
  exact ⟨waiting.queued, Nat.le_trans (waiting.now_le sound) (sleeps_mono fewer s.now)⟩

theorem rivals_alone (single : s.server.queue.tasks.Perm [x]) (es : List (Event κ β ω)) :
    rivals x s es = es.filterMap (Event.rival? x) := by
  have none : s.server.queue.tasks.filter (fun u => u.due ≤ x.due && u.id != x.id) = [] := by
    rw [List.filter_eq_nil_iff]
    intro u hu
    obtain rfl := List.mem_singleton.mp (single.mem_iff.mp hu)
    simp
  rw [rivals, none, List.map_nil, List.nil_append]

/-- Where the clock comes to a task before the sleep for it is over, the task waits for the rest of
the sleep. -/
theorem alone_overruns {clock : Nat → Instant} {before after : Nat}
    (early : clock resolution < x.due) (due : x.due ≤ clock (resolution + before))
    (positive : 0 < before ∧ 0 < after) (sleep : sleepFor x (clock resolution) = before + after) :
    ∃ es s s', Timed (fun _ e => e.Unsignaled) clock (.alone x (.holding false)) es s ∧
      s.now = resolution + before ∧ x ∈ s.server.queue.tasks ∧ x.due ≤ clock s.now ∧
      Timed (fun _ e => e.Unsignaled) clock s [.pass after] s' ∧ rivals x s [.pass after] = [] ∧
      restarts s.now [(.pass after : Event κ β ω)] = 0 ∧ x ∈ s'.server.queue.tasks ∧
      s'.now = s.now + after := by
  obtain ⟨r, -, single, late⟩ := Stage.alone_late early positive.1 (by omega)
  have queued := single.mem_iff.mpr (List.mem_singleton_self x)
  have ahead := le_expiry (resolution + sleepFor x (clock resolution))
  have here : Timed (fun _ e => e.Inner) clock
      (.asleep r (sleepFor x (clock resolution)) (resolution + sleepFor x (clock resolution))
        (resolution + before)) [] _ := .nil
  have more := Stage.asleep_pass here (by omega) after _ rfl (by omega) fun _ => trivial
  refine ⟨_, _, _, late.mono fun _ _ inner => inner.unsignaled, rfl, queued, due,
    more.mono fun _ _ inner => inner.unsignaled, ?_, ?_, queued, rfl⟩
  · rw [rivals_alone single]
    rfl
  · simp [restarts, stamped, Event.wakes]

namespace Delay

def due : Task Nat Unit Unit := .dueAt 0 (.ofMicros 0) ()

def late (n : Nat) : Task Nat Unit Unit := .dueAt (n + 1) (.ofMicros 60000000) ()

def early : Task Nat Unit Unit := .dueAt 1 (.ofMicros (-1)) ()

def clock (now : Nat) : Instant := Instant.clockFrom (.ofMicros 0) now

def started (signal : Signal) : Stage Nat Unit Unit :=
  .alone due signal

def asleep (q : DueQueue Nat Unit Unit) (n : Nat) : Stage Nat Unit Unit :=
  .asleep q shortWait (n * resolution + shortWait) (n * resolution)

variable {s : Stage Nat Unit Unit} {es : List (Event Nat Unit Unit)} {q : DueQueue Nat Unit Unit}
  {n : Nat}

theorem next_tick (n : Nat) : n * resolution + resolution = (n + 1) * resolution :=
  (Nat.succ_mul n resolution).symm

theorem expiry_asleep (n : Nat) : expiry (n * resolution + shortWait) = (n + 1) * resolution := by
  simp only [expiry, resolution, shortWait]
  omega

/-- The short sleep passes. -/
theorem asleep_passed (run : Timed (fun _ e => e.Unsignaled) clock s es (asleep q n)) :
    Timed (fun _ e => e.Unsignaled) clock s (es ++ [.pass resolution])
      (.asleep q shortWait (n * resolution + shortWait) ((n + 1) * resolution)) := by
  have tick := expiry_asleep n
  have next := next_tick n
  have positive : 0 < resolution := by decide
  exact Stage.asleep_pass run (by omega) resolution _ next (by omega) fun _ => trivial

/-- Something is pushed, and its notification is taken up. -/
theorem pushed_asleep {deadline : Nat}
    (run : Timed (fun _ e => e.Unsignaled) clock s es (.asleep q shortWait deadline (n * resolution)))
    (t : Task Nat Unit Unit) :
    Timed (fun _ e => e.Unsignaled) clock s (es ++ [.push t] ++ [.turn .notification none])
      (asleep (q.push t) n) := by
  have pushed := run.snoc (.push t) trivial trivial
  have taken := pushed.snoc (.turn .notification rfl rfl rfl) ⟨_, rfl, rfl⟩ trivial
  exact taken

theorem started_asleep :
    Timed (fun _ e => e.Unsignaled) clock (started (.holding false)) [.turn .notification none]
      (asleep (DueQueue.empty.push due) 0) := by
  have taken := Stage.alone_taken clock due
  rw [asleep, Nat.zero_mul]
  exact taken.mono fun _ _ inner => inner.unsignaled

/-- No other task is there at the start. -/
theorem started_rivals (es : List (Event Nat Unit Unit)) :
    rivals due (started (.holding false)) es = es.filterMap (Event.rival? due) :=
  rivals_alone (DueQueue.tasks_push DueQueue.empty due) es

/-- Whenever the timer would go off, the notification of another push is taken up first. -/
theorem postponed (n : Nat) : ∃ es q,
    Timed (fun _ e => e.Unsignaled) clock (started (.holding false)) es (asleep q n) ∧
      rivals due (started (.holding false)) es = [] ∧ pushed es = (List.range n).map (· + 1) ∧
        due ∈ q.tasks := by
  have alone := DueQueue.tasks_push DueQueue.empty due
  induction n with
  | zero =>
    exact ⟨_, _, started_asleep, started_rivals _, rfl, alone.mem_iff.mpr List.mem_cons_self⟩
  | succ n ih =>
    obtain ⟨es, q, run, none, ids, queued⟩ := ih
    refine ⟨_, _, pushed_asleep (asleep_passed run) (late n), ?_, ?_, ?_⟩
    · have apart : ¬ (late n).due ≤ due.due := by
        show ¬ Instant.ofMicros 60000000 ≤ Instant.ofMicros 0
        decide
      rw [rivals_snoc, rivals_snoc, rivals_snoc, none]
      simp [Event.rival?, apart]
    · rw [pushed] at ids
      simp only [pushed, List.filterMap_append, ids, List.range_succ, List.map_append,
        List.append_assoc]
      rfl
    · exact (DueQueue.tasks_push q (late n)).mem_iff.mpr (List.mem_cons_of_mem _ queued)

/-- At the end of the sleep a task that was pushed meanwhile, and is due before, goes out. -/
theorem overtaken : ∃ es s, Timed (fun _ e => e.Unsignaled) clock (started (.holding false)) es s ∧
    restarts 0 es = 0 ∧ (due.id :: pushed es).Nodup ∧ due ∈ s.server.queue.tasks ∧
      sleeps 1 0 < s.now := by
  have both := (DueQueue.tasks_push (DueQueue.empty.push due) early).trans
    ((DueQueue.tasks_push DueQueue.empty due).cons early)
  have twice := pushed_asleep started_asleep early
  generalize hq : (DueQueue.empty.push due).push early = q at both twice
  have valid : q.Valid := by
    subst hq
    refine DueQueue.push_valid (Stage.alone_valid due) ?_
    intro u hu
    obtain rfl := List.mem_singleton.mp ((DueQueue.tasks_push DueQueue.empty due).mem_iff.mp hu)
    decide
  have slept := asleep_passed twice
  have ready : (Stage.asleep q shortWait (0 * resolution + shortWait) ((0 + 1) * resolution)).Ready
      .timer := Stage.asleep_ready (Nat.le_of_eq (expiry_asleep 0))
  have passed : due.due ≤ clock ((0 + 1) * resolution) := by
    refine (Instant.le_clockFrom_iff (Instant.ofMicros_ordinary 0) (Instant.ofMicros_ordinary 0)).mpr ?_
    decide
  have there : due ∈ q.tasks := both.mem_iff.mpr (.tail _ (.head _))
  obtain ⟨handed, s', step⟩ := ready.turn clock
  have turned := (Stage.asleep_going q shortWait _ _).turned valid step
  cases turned with
  | idle empty =>
    have there : due ∈ ([] : List (Task Nat Unit Unit)) := empty ▸ there
    cases there
  | wait valid same queued first future =>
    exact absurd (Std.le_trans (first due there) passed) (Std.not_le.mpr future)
  | @ready t rest valid taken elapsed first =>
    have apart : ¬ due.due ≤ early.due := by
      show ¬ Instant.ofMicros 0 ≤ Instant.ofMicros (-1)
      decide
    have which : t = early := by
      rcases List.mem_cons.mp (both.mem_iff.mp (taken.mem_iff.mpr List.mem_cons_self)) with rfl | rest
      · rfl
      · obtain rfl := List.mem_singleton.mp rest
        exact absurd (first early (both.mem_iff.mpr List.mem_cons_self)) apart
    subst which
    have turned := slept.snoc step ready trivial
    refine ⟨_, _, asleep_passed (n := 1) turned, rfl, ?_, ?_, ?_⟩
    · show [0, 1].Nodup
      decide
    · rcases List.mem_cons.mp (taken.mem_iff.mp there) with same | left
      · exact absurd (congrArg Task.id same) (by decide)
      · exact left
    · show sleeps 1 0 < (1 + 1) * resolution
      decide

/-- The tasks ahead at the start do not bound the wait. A loop that is told to end from the start, or
that nobody can tell to end any more, leaves a due task where it is. Notifications of tasks that
are due later keep a due task waiting without end. One that is pushed meanwhile, and is due before,
goes first. A task that is due within a leap second waits for more than the short sleep once the
clock has come to it, since the calendar counts the leap second. And from a clock that starts within
one, time may stand still where a task is due by the calendar and not by the clock. -/
theorem not_by_those_ahead :
    let leap : Instant := ⟨19849, 86399, 1500000000, by decide, by decide⟩
    let evening : Instant := ⟨19849, 86398, 0, by decide, by decide⟩
    let soon : Instant := ⟨19850, 0, 900000000, by decide, by decide⟩
    let task (due : Instant) : Task Nat Unit Unit := .dueAt 0 due ()
    (∀ signal, Timed (fun _ e => ∀ stop, e ≠ .write stop) clock .empty
        [.push due, .start signal] (started signal) ∧
      (started signal).server.queue.tasks.Perm [due] ∧ due.due ≤ clock 0) ∧
    (∀ signal ∈ [Signal.holding true, (Signal.holding false).drop], ∃ es s,
      Timed (fun _ e => ∀ stop, e ≠ .write stop) clock (started signal) es s ∧ pushed es = [] ∧
        due ∈ s.server.queue.tasks ∧ sleeps 1 0 < s.now) ∧
    (∀ n, ∃ es s, Timed (fun _ e => e.Unsignaled) clock (started (.holding false)) es s ∧
      rivals due (started (.holding false)) es = [] ∧ (due.id :: pushed es).Nodup ∧
        due ∈ s.server.queue.tasks ∧ s.now = n * resolution) ∧
    (∃ es s, Timed (fun _ e => e.Unsignaled) clock (started (.holding false)) es s ∧
      restarts 0 es = 0 ∧ (due.id :: pushed es).Nodup ∧ due ∈ s.server.queue.tasks ∧
        sleeps 1 0 < s.now) ∧
    (evening.Ordinary ∧ ∃ es s es' s',
      Timed (fun _ e => e.Unsignaled) (Instant.clockFrom evening)
        (.alone (task leap) (.holding false)) es s ∧
      task leap ∈ s.server.queue.tasks ∧ leap ≤ Instant.clockFrom evening s.now ∧
      Timed (fun _ e => e.Unsignaled) (Instant.clockFrom evening) s es' s' ∧
      rivals (task leap) s es' = [] ∧ restarts s.now es' = 0 ∧
      task leap ∈ s'.server.queue.tasks ∧ sleeps 1 s.now < s'.now) ∧
    (soon.Ordinary ∧ ∃ es s,
      Timed (fun _ e => e.Unsignaled) (Instant.clockFrom leap)
        (.alone (task soon) (.holding false)) es s ∧
      soon.since leap ≤ s.now ∧ s.Stuck (Instant.clockFrom leap) (task soon)) := by
  intro leap evening soon task
  have alone := DueQueue.tasks_push DueQueue.empty due
  have queued : due ∈ (DueQueue.empty.push due).tasks := alone.mem_iff.mpr List.mem_cons_self
  refine ⟨?_, ?_, ?_, overtaken, ?_, ?_⟩
  · intro signal
    have nothing : Timed (fun _ e => ∀ stop, e ≠ .write stop) clock .empty []
        (Stage.empty : Stage Nat Unit Unit) := .nil
    have pushed := nothing.snoc (.push due) trivial nofun
    refine ⟨pushed.snoc (.start signal rfl) trivial nofun, alone, ?_⟩
    exact (Instant.le_clockFrom_iff (Instant.ofMicros_ordinary 0) (Instant.ofMicros_ordinary 0)).mpr
      (by decide)
  · intro signal told
    have nothing : Timed (fun _ e => ∀ stop, e ≠ .write stop) clock (started signal) []
        (started signal) := .nil
    rcases List.mem_cons.mp told with rfl | told
    · exact ⟨_, _, nothing.snoc (.pass (2 * resolution)) (Stage.ended_timely rfl rfl _) nofun, rfl, queued,
        by decide⟩
    · obtain rfl := List.mem_singleton.mp told
      obtain ⟨s, left, now, same⟩ := Stage.alone_dropped clock due (2 * resolution)
      refine ⟨_, s, left.mono fun _ _ inner => ?_, rfl, same ▸ queued, by rw [now]; decide⟩
      rintro stop rfl
      exact inner
  · intro n
    obtain ⟨es, q, run, none, ids, there⟩ := postponed n
    refine ⟨es, _, run, none, ?_, there, rfl⟩
    rw [ids, List.nodup_cons]
    refine ⟨?_, List.nodup_range.map fun a b => Nat.succ.inj⟩
    intro old
    obtain ⟨k, -, same⟩ := List.mem_map.mp old
    exact Nat.succ_ne_zero k same
  · have due : (task leap).due ≤ Instant.clockFrom evening (resolution + 1999 * resolution) := by
      decide +kernel
    obtain ⟨es, s, s', run, now, queued, due, more, none, quiet, still, later⟩ :=
      alone_overruns (by decide +kernel) due (show 0 < 1999 * resolution ∧ 0 < 500 * resolution by decide)
        (by decide +kernel)
    refine ⟨show 0 < 1000000000 by decide, es, s, _, s', run, queued, due, more, none, quiet, still, ?_⟩
    rw [later, now]
    decide
  · obtain ⟨es, s, run, now, stuck⟩ := Stage.alone_stuck
      (show Instant.clockFrom leap resolution < (task soon).due by decide +kernel)
      (show 0 < 399 * resolution by decide) (by decide +kernel) (by decide) (by decide +kernel)
      (by decide +kernel)
    refine ⟨show 900000000 < 1000000000 by decide, es, s,
      run.mono fun _ _ inner => inner.unsignaled, ?_, stuck⟩
    rw [now]
    decide +kernel

/-- A task that is there when the loop starts, with nothing before it, waits for one short sleep. -/
theorem promptness_alone : ∃ s',
    Timed (fun _ e => (e.Unsignaled ∧ e.Ordinary) ∧ e.Spares due.id) clock (started (.holding false))
      [.turn .notification none, .pass resolution] s' ∧
    ((due ∈ s'.server.queue.tasks ∧ s'.now ≤ sleeps 1 0) ∨
      ∃ time, (time, due) ∈ dispatches 0 [.turn .notification none, .pass resolution] ∧
        time ≤ sleeps 1 0) ∧
    ∀ nanos, ∃ es s'', Timed (fun _ e => e.Inner) clock s' es s'' ∧ s''.now = s'.now + nanos := by
  have alone := DueQueue.tasks_push DueQueue.empty due
  have ordinary := Instant.ofMicros_ordinary 0
  have nothing : Timed (fun _ e => e.Unsignaled ∧ e.Ordinary) clock .empty []
      (Stage.empty : Stage Nat Unit Unit) := .nil
  have before : Timed (fun _ e => e.Unsignaled ∧ e.Ordinary) clock .empty
      [.push due, .start (.holding false)] (started (.holding false)) :=
    (nothing.snoc (.push due) trivial ⟨trivial, ordinary⟩).snoc
      (.start (.holding false) rfl) trivial ⟨rfl, trivial⟩
  have covers : rivals due (started (.holding false))
      [.turn .notification none, .pass resolution] ⊆ [] := by
    rw [started_rivals]
    exact List.Subset.refl _
  have mild : ∀ (_ : Stage Nat Unit Unit) (e : Event Nat Unit Unit), e.Inner →
      (e.Unsignaled ∧ e.Ordinary) ∧ e.Spares due.id := by
    intro _ e inner
    cases e with
    | pass nanos => exact ⟨⟨trivial, trivial⟩, trivial⟩
    | turn cause handed => exact ⟨⟨trivial, trivial⟩, trivial⟩
    | _ => exact inner.elim
  have after := (Stage.alone_asleep clock due).mono mild
  have queued : due ∈ (started (.holding false)).server.queue.tasks :=
    alone.mem_iff.mpr List.mem_cons_self
  have elapsed : due.due ≤ Instant.clockFrom (.ofMicros 0) (started (.holding false)).now :=
    (Instant.le_clockFrom_iff ordinary ordinary).mpr (by decide)
  have bound := promptness ordinary before rfl queued elapsed after (by decide) covers
  exact ⟨_, after, bound⟩

end Delay

end HomeScenes.Dispatch
