import HomeScenes.Proofs.Engine.Pending
import HomeScenes.Proofs.SceneStore

/-!
# Histories

All that can happen to an engine from the time it is made. Besides the moves, it is started,
an arrangement is queued from outside, and the stores and the journal go out of order or into
it again. A history keeps every moment that was passed, with the event that ended it.

What an event comes to is said once, in `happens`, and what it queues in `grown_happen`: firings
that no task has led to, the arrangement of a day, and children of the task that runs.
-/

namespace HomeScenes

/-- A duty that may queue firings which no task has led to. -/
def Duty.Sows : Duty → Prop
  | .arrange _ => True
  | .act (.enable _) _ => True
  | _ => False

inductive Event where
  | move (move : Move)
  | start
  | arrange (time : LocalTime)
  | outage (outages : Engine.Outages)

def Event.Outer : Event → Prop
  | .move .tick => False
  | .move (.run _) => False
  | _ => True

namespace Moment

def fresh (settings : Engine.Settings) (clock : LocalTime) (scenes : SceneStore)
    (devices : DeviceStore) (network : Network) (journal : Journal Ticket) : Moment :=
  ⟨Engine.ofParts settings clock scenes devices network journal, []⟩

def happen (m : Moment) : Event → Moment
  | .move move => m.apply move
  | .start => { m with engine := m.engine.start.2 }
  | .arrange time => { m with engine := m.engine.addArrangement time }
  | .outage outages => { m with engine := { m.engine with outages := outages } }

/-- Events one after another, each of them allowed where it happens. -/
inductive History (allowed : Moment → Event → Prop) (first : Moment) :
    List (Moment × Event) → Moment → Prop where
  | begin : History allowed first [] first
  | next {past : List (Moment × Event)} {m : Moment} (before : History allowed first past m)
      (event : Event) (ok : allowed m event) :
      History allowed first (past ++ [(m, event)]) (m.happen event)

/-- What holds at first and is kept by the events that are allowed holds all the time. -/
theorem History.invariant {allowed : Moment → Event → Prop} {first m : Moment}
    {past : List (Moment × Event)} {P : Moment → Prop} (history : History allowed first past m)
    (start : P first) (kept : ∀ s event, allowed s event → P s → P (s.happen event)) : P m := by
  induction history with
  | begin => exact start
  | next before event ok ih => exact kept _ event ok ih

theorem History.mono {allowed more : Moment → Event → Prop} {first m : Moment}
    {past : List (Moment × Event)} (history : History allowed first past m)
    (weaker : ∀ s event, allowed s event → more s event) : History more first past m := by
  induction history with
  | begin => exact .begin
  | next before event ok ih => exact ih.next event (weaker _ event ok)

/-- Events that are allowed wherever they happen make a history. -/
theorem History.append {allowed : Moment → Event → Prop} {first m : Moment}
    {past : List (Moment × Event)} (history : History allowed first past m) (events : List Event)
    (ok : ∀ event ∈ events, ∀ s, allowed s event) :
    ∃ past, History allowed first past (events.foldl happen m) := by
  induction events generalizing m past with
  | nil => exact ⟨past, history⟩
  | cons event events ih =>
    have next := history.next event (ok event List.mem_cons_self m)
    exact ih next fun e he => ok e (List.mem_cons_of_mem event he)

/-- The arrangement that an event queues without running one. A start that fails queues none. -/
def opens? (m : Moment) : Event → Option LocalTime
  | .start => m.engine.start.1.toOption.map fun _ =>
      m.engine.clock.onSameDay m.engine.settings.arrangeAt
  | .arrange time => some time
  | _ => none

/-- What an event may queue. -/
inductive Raises (m : Moment) : Event → Errand → Prop where
  | root {event : Event} {r : Errand} (outer : event.Outer) (root : r.Root) : Raises m event r
  | opened {event : Event} {time : LocalTime} (opens : m.opens? event = some time) :
      Raises m event (Engine.arrangement time)
  | sown {place : Nat} {t : EngineTask} {r : Errand} (found : m.handed[place]? = some t)
      (sows : t.body.Sows) (root : r.Root) : Raises m (.move (.run place)) r
  | next {place : Nat} {t : EngineTask} {time : LocalTime} (found : m.handed[place]? = some t)
      (duty : t.body = .arrange time) :
      Raises m (.move (.run place)) (Engine.arrangement (time.addDays 1))
  | child {place : Nat} {t : EngineTask} {r : Errand} (found : m.handed[place]? = some t)
      (child : Engine.Child m.engine t.handle t.body r) : Raises m (.move (.run place)) r

/-- What an event comes to: firings are queued and dropped, an arrangement is queued, something
changes around the queue, a task is handed out, or one runs. -/
inductive Happens (m : Moment) : Event → Moment → Prop where
  | within {event : Event} {e : Engine} (outer : event.Outer) (closed : m.opens? event = none)
      (kept : ∀ {P : Engine → Prop}, Engine.Rooted P → P m.engine → P e) :
      Happens m event ⟨e, m.handed⟩
  | opened {event : Event} {time : LocalTime} {e : Engine} (outer : event.Outer)
      (opens : m.opens? event = some time)
      (kept : ∀ {P : Engine → Prop}, Engine.Rooted P → P m.engine → P e) :
      Happens m event ⟨e.enqueue (Engine.arrangement time), m.handed⟩
  | around {event : Event} (outer : event.Outer) (closed : m.opens? event = none)
      (clock : LocalTime) (scenes : SceneStore) (outages : Engine.Outages) :
      Happens m event
        ⟨{ m.engine with clock := clock, scenes := scenes, outages := outages }, m.handed⟩
  | tick : Happens m (.move .tick) m.handOut
  | run (place : Nat) : Happens m (.move (.run place)) (m.runAt place)

end Moment

namespace Engine

variable {e r : Engine} {handed : List EngineTask} {m : Moment}

theorem consistent_fresh (settings : Settings) (clock : LocalTime) (scenes : SceneStore)
    (devices : DeviceStore) (network : Network) (journal : Journal Ticket) :
    Consistent (Moment.fresh settings clock scenes devices network journal).engine [] := by
  constructor
  · exact DueQueue.empty_valid
  · exact List.nodup_nil
  · rintro t ⟨⟩
  · rintro t ⟨⟩
  · rintro scene id ⟨⟩

/-- Starting queues firings and an arrangement, or nothing if the scenes cannot be read. -/
theorem start_cases (e : Engine) :
    (∃ failure, e.outages.scenes = some failure ∧ e.start = (.error failure, e)) ∨
    (e.outages.scenes = none ∧ e.start = (.ok (), (e.enqueueAll
      (dayFirings e.scenes e.clock e.clock)).enqueue
        (arrangement (e.clock.onSameDay e.settings.arrangeAt)))) := by
  cases working : e.outages.scenes with
  | some failure =>
    refine .inl ⟨failure, rfl, ?_⟩
    simp only [Engine.start, addForDay, working]
  | none =>
    refine .inr ⟨rfl, ?_⟩
    rw [start_eq e working, enqueueAll_append]
    rfl

theorem happens (m : Moment) (event : Event) : m.Happens event (m.happen event) := by
  cases event with
  | start =>
    rcases start_cases m.engine with ⟨failure, -, same⟩ | ⟨-, same⟩
    · simp only [Moment.happen, same]
      exact .within trivial (by rw [Moment.opens?, same]; rfl) fun _ h => h
    · simp only [Moment.happen, same]
      refine .opened trivial (by rw [Moment.opens?, same]; rfl) fun rooted h => ?_
      exact rooted.enqueueAll h dayFirings_root
  | arrange time => exact .opened trivial rfl fun _ h => h
  | outage outages => exact .around (by trivial) rfl m.engine.clock m.engine.scenes outages
  | move move =>
    by_cases outer : move.Outer
    · have quiet : (Event.move move).Outer := by
        cases move <;> trivial
      have handed : (m.apply move).handed = m.handed := by
        cases move <;> first | rfl | exact outer.elim
      have same : m.happen (.move move) = ⟨(m.apply move).engine, m.handed⟩ := by
        rw [← handed]
        rfl
      rw [same]
      exact .within quiet rfl fun rooted h => (rooted.apply h outer).1
    · cases move with
      | save s =>
        obtain ⟨scenes, frame⟩ := saveScene_frame m.engine s
        simp only [Moment.happen, Moment.apply, frame]
        exact .around (by trivial) rfl m.engine.clock scenes m.engine.outages
      | advance utc =>
        exact .around (by trivial) rfl { m.engine.clock with utc := utc } m.engine.scenes m.engine.outages
      | tick => exact .tick
      | run place => exact .run place
      | _ => exact absurd trivial outer

theorem Consistent.happen (h : Consistent m.engine m.handed) (event : Event) :
    Consistent (m.happen event).engine (m.happen event).handed := by
  have happens := happens m event
  generalize m.happen event = r at happens ⊢
  cases happens with
  | within outer closed kept => exact kept (consistent_stable m.handed).toRooted h
  | opened outer opens kept => exact (kept (consistent_stable m.handed).toRooted h).enqueue _
  | around => exact h.congr rfl rfl rfl
  | tick => exact h.handOut
  | run place => exact h.runAt place

/-- A property of stores that is kept when a scene is armed, disarmed or deleted, and when a
scene is stored that may be. -/
structure Storing (P : SceneStore → Prop) (may : Scene → Prop) : Prop where
  armed : ∀ {s r : SceneStore} {scene : SceneId} {armed : Bool}, P s →
    s.setArmed scene armed = .ok r → P r
  deleted : ∀ {s r : SceneStore} {scene : SceneId} {now : Instant}, P s →
    s.softDelete scene now = .ok r → P r
  saved : ∀ {s r : SceneStore} {scene : Scene}, may scene → P s → s.save scene = .ok r → P r

theorem Storing.lasting {P : SceneStore → Prop} {may : Scene → Prop} (storing : Storing P may) :
    Lasting fun e => P e.scenes where
  queue h _ _ _ := h
  armed h set := storing.armed h set
  deleted h gone := storing.deleted h gone
  aside h _ _ _ _ := h

theorem Storing.happen {P : SceneStore → Prop} {may : Scene → Prop} (storing : Storing P may)
    (h : P m.engine.scenes) {event : Event} (ok : ∀ s, event = .move (.save s) → may s) :
    P (m.happen event).engine.scenes := by
  have lasting := storing.lasting
  cases event with
  | start =>
    rcases start_cases m.engine with ⟨failure, -, same⟩ | ⟨-, same⟩
    · simpa only [Moment.happen, same] using h
    · simp only [Moment.happen, same]
      exact lasting.stable.toRooted.enqueueAll h dayFirings_root
  | arrange time => exact h
  | outage outages => exact h
  | move move =>
    by_cases moves : ∃ s, move = .save s
    · obtain ⟨s, rfl⟩ := moves
      simp only [Moment.happen, Moment.apply, saveScene, changeScenes]
      split
      · exact h
      · split
        · exact h
        · rename_i saved
          exact storing.saved (ok s rfl) h saved
    · by_cases clock : ∃ utc, move = .advance utc
      · obtain ⟨utc, rfl⟩ := clock
        exact h
      · exact lasting.apply h (fun s same => moves ⟨s, same⟩) fun utc same => clock ⟨utc, same⟩

theorem keyed_storing : Storing SceneStore.Keyed fun _ => True where
  armed h set := h.setArmed set
  deleted h gone := h.softDelete gone
  saved _ h saved := h.save saved

/-- Since some tickets were issued, nothing was queued but tasks of certain errands. -/
structure Grown (old : List EngineTask) (issued : Ticket) (may : Errand → Prop) (e : Engine) :
    Prop where
  later : issued ≤ e.issued
  tasks : ∀ t ∈ e.server.queue.tasks, t ∈ old ∨ ∃ r i, may r ∧ issued ≤ i ∧ t = r.task i

variable {old : List EngineTask} {issued : Ticket} {may : Errand → Prop}

theorem Grown.refl (e : Engine) (may : Errand → Prop) :
    Grown e.server.queue.tasks e.issued may e :=
  ⟨Nat.le_refl _, fun _ ht => .inl ht⟩

theorem Grown.congr (h : Grown old issued may e) (server : r.server.queue = e.server.queue)
    (same : r.issued = e.issued) : Grown old issued may r := by
  constructor
  · rw [same]
    exact h.later
  · rw [server]
    exact h.tasks

theorem Grown.enqueue (h : Grown old issued may e) {r : Errand} (ok : may r) :
    Grown old issued may (e.enqueue r) := by
  constructor
  · exact Nat.le_succ_of_le h.later
  · intro t ht
    rcases List.mem_cons.mp ((DueQueue.tasks_push e.server.queue _).mem_iff.mp ht) with rfl | ht
    · exact .inr ⟨r, e.issued, ok, h.later, rfl⟩
    · exact h.tasks t ht

theorem grown_settled (handed : List EngineTask) (old : List EngineTask) (issued : Ticket)
    (may : Errand → Prop) : Settled fun e => Consistent e handed ∧ Grown old issued may e where
  drop {e} scene h := by
    obtain ⟨consistent, left⟩ := h.1.dropFirings scene
    refine ⟨consistent, ?_, fun t ht => ?_⟩
    · rw [dropFirings_frame]
      exact h.2.later
    · exact h.2.tasks t (List.mem_filter.mp (left.mem_iff.mp ht)).1
  armed h _ := ⟨h.1.congr rfl rfl rfl, h.2.congr rfl rfl⟩
  deleted h _ := ⟨h.1.congr rfl rfl rfl, h.2.congr rfl rfl⟩
  aside h _ _ _ _ := ⟨h.1.congr rfl rfl rfl, h.2.congr rfl rfl⟩

theorem grown_rooted (handed : List EngineTask) (root : ∀ r : Errand, r.Root → may r) :
    Rooted fun e => Consistent e handed ∧ Grown old issued may e where
  toSettled := grown_settled handed old issued may
  root own h := ⟨h.1.enqueue _, h.2.enqueue (root _ own)⟩

/-- A task that runs queues its children, the next arrangement if it is one, and if it sows,
firings that no task has led to. -/
theorem Grown.effect {t : EngineTask} (h : Grown old issued may e) (hc : Consistent e (t :: handed))
    (root : t.body.Sows → ∀ r : Errand, r.Root → may r)
    (child : ∀ r, Child e t.handle t.body r → may r)
    (next : ∀ time, t.body = .arrange time → may (arrangement (time.addDays 1))) (yes : Bool) :
    Grown old issued may (e.effect t.handle yes t.body) := by
  cases own : t.body.arrangement? with
  | some time =>
    have duty := Duty.eq_arrange own
    have left := hc.acted (by rw [duty]; rfl)
    have rooted : Rooted fun e => Consistent e handed ∧ Grown old issued may e :=
      grown_rooted handed (root (by rw [duty]; trivial))
    simp only [duty]
    exact (rooted.addForDay ⟨left.enqueue _, h.enqueue (next time duty)⟩ (time.addDays 1)).2
  | none =>
    rcases effect_cases e t.handle yes own with ⟨scene, lineage, timed, rs, duty, children, effect⟩ |
      ⟨kind, lineage, rs, duty, children, effect⟩ | ⟨scene, lineage, duty, effect⟩ |
      ⟨scene, lineage, duty, effect⟩
    · have forgotten : Grown old issued may (e.forgetPending scene t.id) := by
        rw [forgetPending_frame]
        exact h.congr rfl rfl
      rw [effect]
      exact enqueueAll_keeps (fun ok grown => grown.enqueue ok) forgotten
        fun r hr => child r (children r hr)
    · rw [effect]
      exact enqueueAll_keeps (fun ok grown => grown.enqueue ok) h
        fun r hr => child r (children r hr)
    · have rooted : Rooted fun e => Consistent e handed ∧ Grown old issued may e :=
        grown_rooted handed (root (by rw [duty]; trivial))
      rw [effect]
      exact (rooted.arm ⟨hc.acted (by rw [duty]; rfl), h⟩ scene).2
    · have settled := grown_settled handed old issued may
      rw [effect]
      exact (settled.disarm ⟨hc.acted (by rw [duty]; rfl), h⟩ scene).2

theorem Child.beside {handle : Handle Ticket} {d : Duty} {u : Errand} (near : Beside e r)
    (h : Child r handle d u) : Child e handle d u := by
  obtain ⟨network, journal, entries, rfl⟩ := near
  cases h with
  | action loaded listed parent duty => exact .action loaded listed parent duty
  | firing apart loaded parent duty => exact .firing apart loaded parent duty

theorem Grown.beside (h : Grown old issued may e) (near : Beside e r) : Grown old issued may r := by
  obtain ⟨network, journal, entries, rfl⟩ := near
  exact h.congr rfl rfl

theorem grown_handOut (hv : m.engine.server.queue.Valid) (may : Errand → Prop) :
    Grown m.engine.server.queue.tasks m.engine.issued may m.handOut.engine := by
  obtain ⟨server, -, ⟨out, same, -⟩ | ⟨t, out, taken, -, -⟩⟩ := handOut_cases hv
  · rw [out]
    exact ⟨Nat.le_refl _, fun u hu => .inl (same.mem_iff.mp hu)⟩
  · rw [out]
    exact ⟨Nat.le_refl _, fun u hu => .inl (taken.mem_iff.mpr (List.mem_cons_of_mem t hu))⟩

theorem grown_runAt (hc : Consistent m.engine m.handed) (place : Nat) :
    Grown m.engine.server.queue.tasks m.engine.issued (m.Raises (.move (.run place)))
      (m.runAt place).engine := by
  cases found : m.handed[place]? with
  | none =>
    rw [runAt_none found]
    exact .refl _ _
  | some t =>
    obtain ⟨perm, -, start, yes, before, after⟩ := runAt_effect found
    have consistent := (consistent_stable _).beside (hc.perm perm.symm) before
    have grown : Grown m.engine.server.queue.tasks m.engine.issued
      (m.Raises (.move (.run place))) start := (Grown.refl m.engine _).beside before
    refine (grown.effect consistent ?_ ?_ ?_ yes).beside after
    · exact fun sows r root => .sown found sows root
    · exact fun r child => .child found (child.beside before)
    · exact fun time duty => .next found duty

/-- What an event queues, whatever it drops. -/
theorem grown_happen (hc : Consistent m.engine m.handed) (event : Event) :
    Grown m.engine.server.queue.tasks m.engine.issued (m.Raises event) (m.happen event).engine := by
  have same := Grown.refl m.engine (m.Raises event)
  have happens := happens m event
  generalize m.happen event = r at happens ⊢
  cases happens with
  | within outer closed kept =>
    exact (kept (grown_rooted m.handed fun r root => .root outer root) ⟨hc, same⟩).2
  | opened outer opens kept =>
    have grown := (kept (grown_rooted m.handed fun r root => .root outer root) ⟨hc, same⟩).2
    exact grown.enqueue (.opened opens)
  | around => exact same.congr rfl rfl
  | tick => exact grown_handOut hc.valid _
  | run place => exact grown_runAt hc place

/-- What is handed out after an event was handed out before, or queued and due. -/
theorem handed_happen (hc : Consistent m.engine m.handed) (event : Event) :
    ∀ t ∈ (m.happen event).handed,
      t ∈ m.handed ∨ t ∈ m.engine.server.queue.tasks ∧ t.due ≤ m.engine.now := by
  have happens := happens m event
  generalize m.happen event = r at happens ⊢
  intro t ht
  cases happens with
  | within => exact .inl ht
  | opened => exact .inl ht
  | around => exact .inl ht
  | tick =>
    obtain ⟨server, -, ⟨out, -, -⟩ | ⟨u, out, taken, due, -⟩⟩ := handOut_cases hc.valid
    · rw [out] at ht
      exact .inl ht
    · rw [out] at ht
      rcases List.mem_append.mp ht with ht | ht
      · exact .inl ht
      · rw [List.mem_singleton.mp ht]
        exact .inr ⟨taken.mem_iff.mpr List.mem_cons_self, due⟩
  | run place =>
    cases found : m.handed[place]? with
    | none =>
      rw [runAt_none found] at ht
      exact .inl ht
    | some u =>
      obtain ⟨-, left, -⟩ := runAt_effect found
      rw [left] at ht
      exact .inl (List.mem_of_mem_eraseIdx ht)

end Engine

end HomeScenes
