import HomeScenes.Dispatch.Loop
import HomeScenes.Proofs.Dispatch.Server

/-!
# The ledger of the dispatch loop

A server and its loop on virtual time, while tasks are pushed, removed and moved, the
stop signal is written or dropped, and time passes, in any order. Of several causes that
are there together the loop may take up any. The clock is any function of virtual time.

Every task that was pushed is in one place: queued, dispatched once, or removed. It is
dispatched when it is due and nothing in the queue is due before it, and never once the
loop has seen the stop signal.
-/

namespace HomeScenes.Dispatch

structure Stage (κ β ω : Type) [BEq κ] [Hashable κ] where
  server : Server κ β ω
  /-- Absent until the loop is started. -/
  loop : Option Loop
  now : Nat

inductive Event (κ β ω : Type) where
  | push (t : Task κ β ω)
  | remove (id : κ) (found : Bool)
  | reschedule (id : κ) (due : Instant) (found : Bool)
  | start (signal : Signal)
  | write (stop : Bool)
  | drop
  | pass (nanos : Nat)
  /-- The loop goes on with a cause, and may dispatch a task. -/
  | turn (cause : Cause) (dispatched : Option (Task κ β ω))

variable {κ β ω : Type} [BEq κ] [Hashable κ]

def Stage.empty : Stage κ β ω := ⟨.empty, none, 0⟩

inductive Step (clock : Nat → Instant) (s : Stage κ β ω) : Event κ β ω → Stage κ β ω → Prop where
  | push (t : Task κ β ω) : Step clock s (.push t) { s with server := s.server.push t }
  | remove {id : κ} {found : Bool} {r : Server κ β ω} (h : s.server.remove id = (found, r)) :
      Step clock s (.remove id found) { s with server := r }
  | reschedule {id : κ} {due : Instant} {found : Bool} {r : Server κ β ω}
      (h : s.server.reschedule id due = (found, r)) :
      Step clock s (.reschedule id due found) { s with server := r }
  | start (signal : Signal) (absent : s.loop = none) :
      Step clock s (.start signal) { s with loop := some (.start signal s.now) }
  | write {l : Loop} (stop : Bool) (here : s.loop = some l) (held : l.signal.dropped = false) :
      Step clock s (.write stop) { s with loop := some { l with signal := l.signal.write stop } }
  | drop {l : Loop} (here : s.loop = some l) :
      Step clock s .drop { s with loop := some { l with signal := l.signal.drop } }
  | pass (nanos : Nat) : Step clock s (.pass nanos) { s with now := s.now + nanos }
  | turn {l : Loop} {r : Loop.Step κ β ω} (cause : Cause) (here : s.loop = some l)
      (ready : l.isReady s.server (l.deadline ≤ s.now) cause)
      (h : l.step s.server s.now (clock s.now) cause = r) :
      Step clock s (.turn cause r.dispatched) ⟨r.server, some r.loop, s.now⟩

/-- Events in the order in which they happen, from one stage to another. -/
inductive Run (clock : Nat → Instant) (s : Stage κ β ω) : List (Event κ β ω) → Stage κ β ω → Prop where
  | nil : Run clock s [] s
  | snoc {es : List (Event κ β ω)} {e : Event κ β ω} {r r' : Stage κ β ω}
      (before : Run clock s es r) (last : Step clock r e r') : Run clock s (es ++ [e]) r'

def Event.pushed? : Event κ β ω → Option κ
  | .push t => some t.id
  | _ => none

def Event.removed? : Event κ β ω → Option κ
  | .remove id true => some id
  | _ => none

def Event.dispatched? : Event κ β ω → Option κ
  | .turn _ (some t) => some t.id
  | _ => none

def pushed (es : List (Event κ β ω)) : List κ := es.filterMap Event.pushed?

def removed (es : List (Event κ β ω)) : List κ := es.filterMap Event.removed?

def dispatched (es : List (Event κ β ω)) : List κ := es.filterMap Event.dispatched?

def Stage.queued (s : Stage κ β ω) : List κ := s.server.queue.tasks.map Task.id

def Event.due? (id : κ) (before : Option Instant) : Event κ β ω → Option Instant
  | .push t => if t.id == id then some t.due else before
  | .reschedule k due true => if k == id then some due else before
  | _ => before

/-- The due instant that a task was pushed with or last moved to. -/
def lastDue? (es : List (Event κ β ω)) (id : κ) : Option Instant :=
  es.foldl (Event.due? id) none

/-- What is known of the stop signal: its value, and whether a round began while it was true. -/
structure Notice where
  stop : Bool
  seen : Bool

def Notice.after (n : Notice) : Event κ β ω → Notice
  | .start signal => ⟨signal.stop, signal.stop⟩
  | .write stop => { n with stop := stop }
  | .turn .. => { n with seen := n.seen || n.stop }
  | _ => n

def notice (es : List (Event κ β ω)) : Notice :=
  es.foldl Notice.after ⟨false, false⟩

/-- What an event does to the queue when the loop leaves the queue alone. -/
def Event.onQueue (q : DueQueue κ β ω) : Event κ β ω → DueQueue κ β ω
  | .push t => q.push t
  | .remove id _ => ((q.remove? id).map Prod.snd).getD q
  | .reschedule id due _ => (q.update? id due).getD q
  | _ => q

omit [Hashable κ] in
theorem lastDue?_snoc (es : List (Event κ β ω)) (e : Event κ β ω) (id : κ) :
    lastDue? (es ++ [e]) id = e.due? id (lastDue? es id) := by
  simp [lastDue?]

omit [BEq κ] [Hashable κ] in
theorem notice_snoc (es : List (Event κ β ω)) (e : Event κ β ω) :
    notice (es ++ [e]) = (notice es).after e := by
  simp [notice]

theorem round_stop (l : Loop) (now : Nat) : (l.round now).signal = l.signal := by
  unfold Loop.round
  split <;> rfl

theorem round_ended {l : Loop} (now : Nat) (h : l.signal.stop = true) :
    (l.round now).ended = true := by
  simp [Loop.round, h]

/-- A turn leaves the value of the signal alone, and a loop that makes it while the signal says
stop has ended. -/
theorem step_signal (l : Loop) (s : Server κ β ω) (now : Nat) (clock : Instant) (cause : Cause) :
    (l.step s now clock cause).loop.signal.stop = l.signal.stop ∧
      (l.signal.stop = true → (l.step s now clock cause).loop.ended = true) := by
  cases cause with
  | signal =>
    simp only [Loop.step, Loop.takeSignal]
    split
    · exact ⟨by rw [round_stop], fun h => round_ended now h⟩
    · exact ⟨rfl, fun _ => rfl⟩
  | notification =>
    simp only [Loop.step, Loop.takeNotification]
    exact ⟨by rw [round_stop], fun h => round_ended now h⟩
  | timer =>
    simp only [Loop.step, Loop.takeTimer]
    exact ⟨by rw [round_stop], fun h => round_ended now h⟩

/-- What a turn does to the queue: it keeps all tasks, or hands out one that is due first. -/
inductive Taken (s : Server κ β ω) (clock : Instant) : Option (Task κ β ω) → Server κ β ω → Prop where
  | kept {r : Server κ β ω} (valid : r.queue.Valid)
      (same : r.queue.tasks.Perm s.queue.tasks) : Taken s clock none r
  | handed {t : Task κ β ω} {r : Server κ β ω} (valid : r.queue.Valid)
      (taken : s.queue.tasks.Perm (t :: r.queue.tasks)) (due : t.due ≤ clock)
      (first : ∀ u ∈ s.queue.tasks, t.due ≤ u.due) : Taken s clock (some t) r

variable [LawfulBEq κ]

theorem step_taken {s : Server κ β ω} (hv : s.queue.Valid) (l : Loop) (now : Nat)
    (clock : Instant) (cause : Cause) :
    Taken s clock (l.step s now clock cause).dispatched (l.step s now clock cause).server := by
  cases cause with
  | signal =>
    simp only [Loop.step, Loop.takeSignal]
    split <;> exact .kept hv (.refl _)
  | notification => exact .kept hv (.refl _)
  | timer =>
    simp only [Loop.step, Loop.takeTimer]
    have look := Server.look_tick hv clock
    generalize s.tick clock = r at look
    obtain ⟨t, r⟩ := r
    cases look with
    | idle empty => exact .kept hv (.refl _)
    | wait valid same later => exact .kept valid same
    | ready valid taken due first => exact .handed valid taken due first

/-- The ledger of a run against the stage that it led to. -/
structure Books (es : List (Event κ β ω)) (s : Stage κ β ω) : Prop where
  valid : s.server.queue.Valid
  account : ∀ id, s.queued.count id + (dispatched es).count id + (removed es).count id =
    (pushed es).count id
  due : ∀ t ∈ s.server.queue.tasks, lastDue? es t.id = some t.due
  signal : ∀ l, s.loop = some l →
    (notice es).stop = l.signal.stop ∧ ((notice es).seen = true → l.ended = true)
  unseen : s.loop = none → (notice es).seen = false

theorem books_empty : Books [] (Stage.empty : Stage κ β ω) where
  valid := DueQueue.empty_valid
  account id := rfl
  due t ht := by cases ht
  signal l h := by cases h
  unseen _ := rfl

omit [LawfulBEq κ] in
/-- An event that touches neither the queue nor the lists of the ledger. -/
theorem Books.idle {es : List (Event κ β ω)} {e : Event κ β ω} {s s' : Stage κ β ω}
    (b : Books es s) (server : s'.server.queue = s.server.queue) (hp : e.pushed? = none)
    (hr : e.removed? = none) (hd : e.dispatched? = none)
    (hdue : ∀ id before, e.due? id before = before)
    (signal : ∀ l, s'.loop = some l → ((notice es).after e).stop = l.signal.stop ∧
      (((notice es).after e).seen = true → l.ended = true))
    (unseen : s'.loop = none → ((notice es).after e).seen = false) : Books (es ++ [e]) s' where
  valid := by rw [server]; exact b.valid
  account id := by
    have queued : s'.queued = s.queued := by rw [Stage.queued, server, Stage.queued]
    simpa [pushed, removed, dispatched, hp, hr, hd, queued] using b.account id
  due t ht := by
    rw [server] at ht
    rw [lastDue?_snoc, hdue]
    exact b.due t ht
  signal l hl := by rw [notice_snoc]; exact signal l hl
  unseen h := by rw [notice_snoc]; exact unseen h

theorem Books.push {es : List (Event κ β ω)} {s : Stage κ β ω} (b : Books es s) {t : Task κ β ω}
    (new : t.id ∉ pushed es) :
    Books (es ++ [.push t]) { s with server := s.server.push t } := by
  have perm := DueQueue.tasks_push s.server.queue t
  have apart : ∀ u ∈ s.server.queue.tasks, u.id ≠ t.id := by
    intro u hu same
    have queued : t.id ∈ s.queued := same ▸ List.mem_map_of_mem hu
    have once := b.account t.id
    rw [List.count_eq_zero_of_not_mem new] at once
    have := List.count_pos_iff.mpr queued
    omega
  refine ⟨DueQueue.push_valid b.valid apart, ?_, ?_, ?_, ?_⟩
  · intro id
    have old := b.account id
    have head := (perm.map Task.id).count_eq id
    simp only [List.map_cons, List.count_cons] at head
    simp only [pushed, dispatched, removed, Stage.queued, Server.push, List.filterMap_append,
      List.filterMap_cons, List.filterMap_nil, Event.pushed?, Event.dispatched?, Event.removed?,
      List.count_append, List.count_cons, List.count_nil, List.append_nil] at old ⊢
    omega
  · intro u hu
    rw [lastDue?_snoc, Event.due?]
    have hu := perm.mem_iff.mp hu
    rcases List.mem_cons.mp hu with rfl | hu
    · rw [if_pos (beq_self_eq_true _)]
    · rw [if_neg (by simpa using Ne.symm (apart u hu))]
      exact b.due u hu
  · intro l hl
    rw [notice_snoc]
    exact b.signal l hl
  · intro h
    rw [notice_snoc]
    exact b.unseen h

theorem Books.remove {es : List (Event κ β ω)} {s : Stage κ β ω} (b : Books es s) {id : κ}
    {r : Server κ β ω} (h : s.server.remove id = (true, r)) :
    Books (es ++ [.remove id true]) { s with server := r } := by
  obtain ⟨valid, t, rfl, perm⟩ := Server.remove_true b.valid h
  refine ⟨valid, ?_, ?_, ?_, ?_⟩
  · intro id
    have old := b.account id
    have head := (perm.map Task.id).count_eq id
    simp only [List.map_cons, List.count_cons] at head
    simp only [pushed, dispatched, removed, Stage.queued, List.filterMap_append,
      List.filterMap_cons, List.filterMap_nil, Event.pushed?, Event.dispatched?, Event.removed?,
      List.count_append, List.count_cons, List.count_nil, List.append_nil] at old ⊢
    omega
  · intro u hu
    rw [lastDue?_snoc]
    exact b.due u (perm.mem_iff.mpr (List.mem_cons_of_mem t hu))
  · intro l hl
    rw [notice_snoc]
    exact b.signal l hl
  · intro h
    rw [notice_snoc]
    exact b.unseen h

theorem Books.reschedule {es : List (Event κ β ω)} {s : Stage κ β ω} (b : Books es s) {id : κ}
    {due : Instant} {r : Server κ β ω} (h : s.server.reschedule id due = (true, r)) :
    Books (es ++ [.reschedule id due true]) { s with server := r } := by
  obtain ⟨valid, t, rest, rfl, before, after⟩ := Server.reschedule_true b.valid h
  refine ⟨valid, ?_, ?_, ?_, ?_⟩
  · intro id
    have old := b.account id
    have head := (before.map Task.id).count_eq id
    have moved := (after.map Task.id).count_eq id
    have same : (t.withDue due).id = t.id := rfl
    simp only [List.map_cons, List.count_cons, same] at head moved
    simp only [pushed, dispatched, removed, Stage.queued, List.filterMap_append,
      List.filterMap_cons, List.filterMap_nil, Event.pushed?, Event.dispatched?, Event.removed?,
      List.append_nil] at old ⊢
    omega
  · intro u hu
    rw [lastDue?_snoc, Event.due?]
    rcases List.mem_cons.mp (after.mem_iff.mp hu) with rfl | hu
    · exact if_pos (beq_self_eq_true _)
    · rw [if_neg (by simpa using Ne.symm (b.valid.apart before u hu))]
      exact b.due u (before.mem_iff.mpr (List.mem_cons_of_mem t hu))
  · intro l hl
    rw [notice_snoc]
    exact b.signal l hl
  · intro h
    rw [notice_snoc]
    exact b.unseen h

omit [LawfulBEq κ] in
theorem Books.turn {es : List (Event κ β ω)} {s : Stage κ β ω} (b : Books es s)
    {cause : Cause} {handed : Option (Task κ β ω)} {clock : Instant} {r : Server κ β ω} {l : Loop}
    {now : Nat} (taken : Taken s.server clock handed r)
    (stop : (notice es).stop = l.signal.stop)
    (ended : ((notice es).after (.turn cause handed)).seen = true → l.ended = true) :
    Books (es ++ [.turn cause handed]) ⟨r, some l, now⟩ := by
  cases taken with
  | kept valid same =>
    refine ⟨valid, ?_, ?_, ?_, fun h => nomatch h⟩
    · intro id
      have old := b.account id
      have queued := (same.map Task.id).count_eq id
      simp only [pushed, dispatched, removed, Stage.queued, List.filterMap_append,
        List.filterMap_cons, List.filterMap_nil, Event.pushed?, Event.dispatched?, Event.removed?,
        List.append_nil] at old ⊢
      omega
    · intro u hu
      rw [lastDue?_snoc]
      exact b.due u (same.mem_iff.mp hu)
    · rintro k ⟨⟩
      rw [notice_snoc]
      exact ⟨stop, ended⟩
  | @handed t r valid taken due first =>
    refine ⟨valid, ?_, ?_, ?_, fun h => nomatch h⟩
    · intro id
      have old := b.account id
      have head := (taken.map Task.id).count_eq id
      simp only [List.map_cons, List.count_cons] at head
      simp only [pushed, dispatched, removed, Stage.queued, List.filterMap_append,
        List.filterMap_cons, List.filterMap_nil, Event.pushed?, Event.dispatched?, Event.removed?,
        List.count_append, List.count_cons, List.count_nil, List.append_nil] at old ⊢
      omega
    · intro u hu
      rw [lastDue?_snoc]
      exact b.due u (taken.mem_iff.mpr (List.mem_cons_of_mem t hu))
    · rintro k ⟨⟩
      rw [notice_snoc]
      exact ⟨stop, ended⟩

omit [LawfulBEq κ] in
/-- The loop goes on only while it has not ended. -/
theorem running_of_ready {l : Loop} {s : Server κ β ω} {elapsed : Bool} {cause : Cause}
    (h : l.isReady s elapsed cause = true) : l.ended = false := by
  cases cause <;> simp_all [Loop.isReady]

theorem books_step {clock : Nat → Instant} {es : List (Event κ β ω)} {s s' : Stage κ β ω}
    {e : Event κ β ω} (b : Books es s) (h : Step clock s e s') (distinct : (pushed (es ++ [e])).Nodup) :
    Books (es ++ [e]) s' := by
  cases h with
  | push t =>
    refine b.push fun old => ?_
    rw [pushed, List.filterMap_append] at distinct
    exact List.disjoint_of_nodup_append distinct old (List.mem_singleton_self t.id)
  | @remove id found r h =>
    cases found with
    | true => exact b.remove h
    | false =>
      obtain ⟨rfl, -⟩ := Server.remove_false b.valid h
      exact b.idle rfl rfl rfl rfl (fun _ _ => rfl) b.signal b.unseen
  | @reschedule id due found r h =>
    cases found with
    | true => exact b.reschedule h
    | false =>
      obtain rfl := Server.reschedule_false h
      exact b.idle rfl rfl rfl rfl (fun _ _ => rfl) b.signal b.unseen
  | start signal absent =>
    refine b.idle rfl rfl rfl rfl (fun _ _ => rfl) ?_ (fun h => nomatch h)
    rintro l ⟨⟩
    exact ⟨by rw [Loop.start, round_stop]; rfl, fun seen => round_ended s.now seen⟩
  | @write l stop here held =>
    refine b.idle rfl rfl rfl rfl (fun _ _ => rfl) ?_ (fun h => nomatch h)
    rintro k ⟨⟩
    exact ⟨rfl, (b.signal l here).2⟩
  | @drop l here =>
    refine b.idle rfl rfl rfl rfl (fun _ _ => rfl) ?_ (fun h => nomatch h)
    rintro k ⟨⟩
    exact b.signal l here
  | pass nanos => exact b.idle rfl rfl rfl rfl (fun _ _ => rfl) b.signal b.unseen
  | @turn l r cause here ready h =>
    subst h
    obtain ⟨stop, done⟩ := b.signal l here
    obtain ⟨kept, ended⟩ := step_signal l s.server s.now (clock s.now) cause
    refine b.turn (step_taken b.valid l s.now (clock s.now) cause) (stop.trans kept.symm) ?_
    intro seen
    rcases Bool.or_eq_true_iff.mp seen with seen | seen
    · have running := running_of_ready ready
      rw [done seen] at running
      cases running
    · exact ended (stop.symm.trans seen)

theorem Run.books {clock : Nat → Instant} {es : List (Event κ β ω)} {s : Stage κ β ω}
    (run : Run clock .empty es s) (distinct : (pushed es).Nodup) : Books es s := by
  induction run with
  | nil => exact books_empty
  | @snoc es e r r' before last ih =>
    refine books_step (ih ?_) last distinct
    rw [pushed, List.filterMap_append] at distinct
    exact distinct.of_append_left

omit [LawfulBEq κ] in
/-- A loop that has ended takes no further turn: it dispatches nothing, and only pushes,
removals and moves from outside change the queue. -/
theorem step_ended {clock : Nat → Instant} {s s' : Stage κ β ω} {e : Event κ β ω} {l : Loop}
    (here : s.loop = some l) (ended : l.ended = true) (h : Step clock s e s') :
    (∃ k, s'.loop = some k ∧ k.ended = true) ∧ e.dispatched? = none ∧
      s'.server.queue = e.onQueue s.server.queue := by
  cases h with
  | push t => exact ⟨⟨l, here, ended⟩, rfl, rfl⟩
  | @remove id found r h =>
    refine ⟨⟨l, here, ended⟩, by cases found <;> rfl, ?_⟩
    rw [Server.remove] at h
    rw [Event.onQueue]
    cases hr : s.server.queue.remove? id with
    | none => rw [hr] at h; cases h; rfl
    | some p => rw [hr] at h; cases h; rfl
  | @reschedule id due found r h =>
    refine ⟨⟨l, here, ended⟩, rfl, ?_⟩
    rw [Server.reschedule] at h
    rw [Event.onQueue]
    cases hr : s.server.queue.update? id due with
    | none => rw [hr] at h; cases h; rfl
    | some q => rw [hr] at h; cases h; rfl
  | start signal absent =>
    rw [absent] at here
    cases here
  | @write k stop there held =>
    cases here.symm.trans there
    exact ⟨⟨_, rfl, ended⟩, rfl, rfl⟩
  | @drop k there =>
    cases here.symm.trans there
    exact ⟨⟨_, rfl, ended⟩, rfl, rfl⟩
  | pass nanos => exact ⟨⟨l, here, ended⟩, rfl, rfl⟩
  | @turn k r cause there ready h =>
    cases here.symm.trans there
    have running := running_of_ready ready
    rw [ended] at running
    cases running

omit [LawfulBEq κ] in
theorem run_ended {clock : Nat → Instant} {s s' : Stage κ β ω} {es : List (Event κ β ω)} {l : Loop}
    (here : s.loop = some l) (ended : l.ended = true) (run : Run clock s es s') :
    (∃ k, s'.loop = some k ∧ k.ended = true) ∧ dispatched es = [] ∧
      s'.server.queue = es.foldl Event.onQueue s.server.queue := by
  induction run with
  | nil => exact ⟨⟨l, here, ended⟩, rfl, rfl⟩
  | @snoc es e r r' before last ih =>
    obtain ⟨⟨k, hk, done⟩, silent, queue⟩ := ih
    obtain ⟨still, nothing, after⟩ := step_ended hk done last
    refine ⟨still, ?_, ?_⟩
    · simp only [dispatched, List.filterMap_append, List.filterMap_cons, nothing,
        List.filterMap_nil, List.append_nil]
      exact silent
    · rw [List.foldl_append, ← queue]
      exact after

/-- Every task that was pushed is in one place; a task is handed out when it is due and none
left is due before it; after the stop was seen, none is handed out. -/
theorem run_ledger {clock : Nat → Instant} {es : List (Event κ β ω)} {s : Stage κ β ω}
    (run : Run clock .empty es s) (distinct : (pushed es).Nodup) :
    (∀ id ∈ pushed es,
      s.queued.count id + (dispatched es).count id + (removed es).count id = 1) ∧
    (∀ cause t s', Step clock s (.turn cause (some t)) s' →
      lastDue? es t.id = some t.due ∧ t.due ≤ clock s.now ∧
        ∀ u ∈ s'.server.queue.tasks, t.due ≤ u.due) ∧
    ((notice es).seen = true → ∀ es' s', Run clock s es' s' →
      dispatched es' = [] ∧ s'.server.queue = es'.foldl Event.onQueue s.server.queue) := by
  have b := run.books distinct
  refine ⟨?_, ?_, ?_⟩
  · intro id hid
    rw [b.account id, distinct.count, if_pos hid]
  · intro cause t s' h
    generalize he : Event.turn cause (some t) = e at h
    cases h with
    | @turn l r cause' here ready h =>
      subst h
      have taken := step_taken b.valid l s.now (clock s.now) cause'
      injection he with hc ht
      rw [← ht] at taken
      cases taken with
      | handed valid taken due first =>
        refine ⟨b.due t (taken.mem_iff.mpr List.mem_cons_self), due, ?_⟩
        exact fun u hu => first u (taken.mem_iff.mpr (List.mem_cons_of_mem t hu))
    | _ => cases he
  · intro seen es' s' after
    cases hl : s.loop with
    | none =>
      rw [b.unseen hl] at seen
      cases seen
    | some l => exact (run_ended hl ((b.signal l hl).2 seen) after).2

/-- A stop that comes with the end of the sleep: the due task goes out, and then nothing. -/
theorem run_ledger_stop :
    let t : Task Nat Unit Unit := .dueAt 1 (.ofMicros 0) ()
    let clock (_ : Nat) : Instant := .ofMicros 7
    let es : List (Event Nat Unit Unit) :=
      [.push t, .start (.holding false), .pass shortWait, .write true, .turn .timer (some t)]
    ∃ s, Run clock .empty es s ∧ (pushed es).Nodup ∧ (notice es).seen = true ∧
      s.queued.count 1 + (dispatched es).count 1 + (removed es).count 1 = 1 ∧
      ∀ es' s', Run clock s es' s' → dispatched es' = [] := by
  intro t clock es
  have late (now : Nat) : ¬ clock now < t.due := by
    change ¬ Instant.ofMicros 7 < Instant.ofMicros 0
    decide
  have queue : (Server.empty.push t).queue = ⟨#[t], (∅ : Std.HashMap Nat Nat).insert 1 0⟩ := by
    rw [Server.push, Server.empty, DueQueue.push, DueQueue.siftUp]
    rfl
  have popped : ∃ rest, (Server.empty.push t).queue.pop? = some (t, rest) := by
    rw [queue]
    exact ⟨_, rfl⟩
  obtain ⟨rest, popped⟩ := popped
  have handed (l : Loop) (now : Nat) :
      (l.step (Server.empty.push t) now (clock now) .timer).dispatched = some t := by
    simp only [Loop.step, Loop.takeTimer, Server.tick, popped, if_neg (late now)]
  let l : Loop := { Loop.start (.holding false) 0 with signal := ⟨true, true, false⟩ }
  have ready : l.isReady (Server.empty.push t) (l.deadline ≤ 0 + shortWait) .timer = true := rfl
  have queued := Run.snoc (Run.nil : Run clock .empty [] Stage.empty) (.push t)
  have started := Run.snoc queued (.start (.holding false) rfl)
  have waited := Run.snoc started (.pass shortWait)
  have written := Run.snoc waited (.write true rfl rfl)
  have turned := Run.snoc written (Step.turn (l := l) .timer rfl ready rfl)
  rw [Stage.empty, handed] at turned
  obtain ⟨account, -, silent⟩ := run_ledger turned (by decide)
  refine ⟨_, turned, by decide, rfl, account 1 ?_, fun es' s' h => (silent rfl es' s' h).1⟩
  decide

end HomeScenes.Dispatch
