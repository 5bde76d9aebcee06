import HomeScenes.Proofs.Engine.Arrangement
import HomeScenes.Proofs.Engine.History

/-!
# The chain of arrangements

An arrangement that runs queues the next one before it does anything that may fail. So each
arrangement that is queued otherwise, by a start or from outside, is the first of a chain
that goes on for good: of every chain one arrangement waits, as many days after the first one
as have run, and each that ran made one scheduling pass. This needs no assumption on the
clock, the stores or the order in which tasks run.
-/

namespace HomeScenes

namespace Moment

def arranges? (m : Moment) : Event → Option LocalTime
  | .move move => m.arranging? move
  | _ => none

theorem arranges?_outer (m : Moment) {event : Event} (outer : event.Outer) :
    m.arranges? event = none := by
  cases event with
  | move move => cases move <;> first | rfl | exact outer.elim
  | _ => rfl

end Moment

namespace Engine

/-- The next arrangement is queued and one scheduling pass is made for its day, whatever the
answer. Devices and the journal may change before and after. -/
def Pass (e : Engine) (next : LocalTime) (r : Engine) : Prop :=
  ∃ start answer after, Beside e start ∧
    (start.addArrangement next).addForDay next = (answer, after) ∧ Beside after r

variable {m : Moment}

/-- Only an arrangement that runs goes away, and the next one comes in its place. -/
theorem arrangements_happen (hc : Consistent m.engine m.handed) (event : Event) :
    match m.arranges? event with
    | none => (arrangements ((m.happen event).engine.server.queue.tasks ++
          (m.happen event).handed)).Perm
        ((m.opens? event).toList.map stamp ++
          arrangements (m.engine.server.queue.tasks ++ m.handed))
    | some time => ∃ due rest, (arrangements (m.engine.server.queue.tasks ++ m.handed)).Perm
          ((due, time) :: rest) ∧
        (arrangements ((m.happen event).engine.server.queue.tasks ++ (m.happen event).handed)).Perm
          (stamp (time.addDays 1) :: rest) := by
  have rooted := (arrangements_stable m.handed
    (arrangements (m.engine.server.queue.tasks ++ m.handed))).toRooted
  have happens := happens m event
  generalize m.happen event = r at happens ⊢
  cases happens with
  | within outer closed kept =>
    rw [m.arranges?_outer outer, closed]
    exact (kept rooted ⟨hc, .refl _⟩).2
  | opened outer opens kept =>
    rw [m.arranges?_outer outer, opens]
    exact (arrangements_arrangement _ _ _).trans ((kept rooted ⟨hc, .refl _⟩).2.cons _)
  | around outer closed =>
    rw [m.arranges?_outer outer, closed]
    exact .refl _
  | tick => exact arrangements_handOut hc.valid
  | run place =>
    simp only [Moment.arranges?, Moment.arranging?, Moment.opens?]
    cases found : m.handed[place]? with
    | none =>
      rw [runAt_none found]
      exact .refl _
    | some t =>
      obtain ⟨rest, before, after⟩ := arrangements_runAt hc found
      rw [Option.bind_some]
      cases own : t.body.arrangement? with
      | none =>
        rw [own] at before after
        exact after.trans before.symm
      | some time =>
        rw [own] at before after
        exact ⟨t.due, rest, before, after⟩

/-- An arrangement that runs makes one scheduling pass for the day after. -/
theorem pass_happen {event : Event} {time : LocalTime} (ran : m.arranges? event = some time) :
    Pass m.engine (time.addDays 1) (m.happen event).engine := by
  cases event with
  | move move =>
    cases move with
    | run place =>
      obtain ⟨t, found, own⟩ := Option.bind_eq_some_iff.mp ran
      obtain ⟨-, -, start, yes, before, after⟩ := runAt_effect found
      rw [Duty.eq_arrange own] at after
      exact ⟨start, _, _, before, rfl, after⟩
    | _ => cases ran
  | _ => cases ran

/-- The chains of a history, each with its first arrangement and the number of those that ran. -/
structure Chained (past : List (Moment × Event)) (m : Moment) (chains : List (LocalTime × Nat)) :
    Prop where
  opened : chains.map Prod.fst = past.filterMap fun p => p.1.opens? p.2
  waiting : (arrangements (m.engine.server.queue.tasks ++ m.handed)).Perm
    (chains.map fun c => stamp (c.1.addDays c.2))
  ran : (past.filterMap fun p => p.1.arranges? p.2).Perm
    (chains.flatMap fun c => (List.range c.2).map fun k => c.1.addDays k)

variable {past : List (Moment × Event)} {chains : List (LocalTime × Nat)}

/-- An event that runs no arrangement may open a chain. -/
theorem Chained.open (h : Chained past m chains) (hc : Consistent m.engine m.handed) {event : Event}
    (other : m.arranges? event = none) : Chained (past ++ [(m, event)]) (m.happen event)
      (chains ++ (m.opens? event).toList.map fun first => (first, 0)) := by
  have changed := arrangements_happen hc event
  simp only [other] at changed
  constructor
  · rw [List.map_append, List.filterMap_append, h.opened]
    cases opens : m.opens? event <;> simp [opens]
  · refine changed.trans (List.perm_append_comm.trans ?_)
    rw [List.map_append]
    refine h.waiting.append ?_
    cases m.opens? event <;> simp
  · rw [List.filterMap_append, List.flatMap_append]
    refine h.ran.append ?_
    cases m.opens? event <;> simp [other]

/-- An arrangement that runs is the one that its chain waits for. -/
theorem Chained.extend (h : Chained past m chains) (hc : Consistent m.engine m.handed)
    {event : Event} {time : LocalTime} (runs : m.arranges? event = some time) :
    ∃ chains, Chained (past ++ [(m, event)]) (m.happen event) chains := by
  have changed := arrangements_happen hc event
  simp only [runs] at changed
  obtain ⟨due, rest, before, after⟩ := changed
  have waits := before.symm.trans h.waiting
  obtain ⟨⟨first, k⟩, listed, own⟩ := List.mem_map.mp (waits.mem_iff.mp List.mem_cons_self)
  obtain ⟨rfl, rfl⟩ := Prod.mk.inj own
  obtain ⟨left, right, rfl⟩ := List.append_of_mem listed
  have opensNone : m.opens? event = none := by
    cases event with
    | move move => rfl
    | _ => cases runs
  refine ⟨left ++ (first, k + 1) :: right, ?_, ?_, ?_⟩
  · have opened := h.opened
    simp only [List.map_append, List.map_cons, List.filterMap_append, List.filterMap_cons,
      opensNone, List.filterMap_nil, List.append_nil] at opened ⊢
    exact opened
  · simp only [List.map_append, List.map_cons] at waits ⊢
    have others := (waits.trans List.perm_middle).cons_inv
    refine after.trans (.trans ?_ List.perm_middle.symm)
    rw [LocalTime.addDays_addDays_one]
    exact others.cons _
  · have ran := h.ran
    simp only [List.filterMap_append, List.filterMap_cons, runs, List.filterMap_nil,
      List.flatMap_append, List.flatMap_cons, List.range_succ, List.map_append, List.map_cons,
      List.map_nil, List.append_assoc] at ran ⊢
    refine (ran.append_right _).trans ?_
    simp only [List.append_assoc]
    exact ((List.perm_append_singleton _ _).append_left _).append_left _

theorem chained (settings : Settings) (clock : LocalTime) (scenes : SceneStore)
    (devices : DeviceStore) (network : Network) (journal : Journal Ticket)
    (history : Moment.History (fun _ _ => True)
      (Moment.fresh settings clock scenes devices network journal) past m) :
    Consistent m.engine m.handed ∧ ∃ chains, Chained past m chains := by
  induction history with
  | begin =>
    refine ⟨consistent_fresh _ _ _ _ _ _, [], ?_, ?_, ?_⟩
    · rfl
    · exact .refl _
    · exact .refl _
  | @next past m before event ok ih =>
    obtain ⟨consistent, chains, chained⟩ := ih
    refine ⟨consistent.happen event, ?_⟩
    cases ran : m.arranges? event with
    | none => exact ⟨_, chained.open consistent ran⟩
    | some time => exact chained.extend consistent ran

/-- The one chain of a history in which a start opens the only one. -/
theorem Chained.single (h : Chained past m chains) {s : Moment}
    (once : past.filter (fun p => (p.1.opens? p.2).isSome) = [(s, .start)]) :
    ∃ k, chains = [(s.engine.clock.onSameDay s.engine.settings.arrangeAt, k)] := by
  have listed : (s, Event.start) ∈ past.filter fun p => (p.1.opens? p.2).isSome := by
    rw [once]
    exact List.mem_singleton_self _
  obtain ⟨first, opens⟩ := Option.isSome_iff_exists.mp (List.mem_filter.mp listed).2
  have own : s.engine.clock.onSameDay s.engine.settings.arrangeAt = first := by
    obtain ⟨done, -, own⟩ := Option.map_eq_some_iff.mp opens
    exact own
  have same : past.filterMap (fun p => p.1.opens? p.2) =
      (past.filter fun p => (p.1.opens? p.2).isSome).filterMap fun p => p.1.opens? p.2 := by
    rw [List.filterMap_filter]
    refine List.filterMap_congr fun p _ => ?_
    cases p.1.opens? p.2 <;> rfl
  have opened := h.opened
  simp only [same, once, List.filterMap_cons, opens, List.filterMap_nil] at opened
  obtain ⟨⟨time, k⟩, rfl, rfl⟩ := List.map_eq_singleton_iff.mp opened
  exact ⟨k, by rw [own]⟩

/-- After one start at some local time, and no arrangement queued from outside, one arrangement
waits, as many days after the first one as arrangements have run; and each of these made one
scheduling pass. -/
theorem arrangement_chain {settings : Settings} {clock : LocalTime} {scenes : SceneStore}
    {devices : DeviceStore} {network : Network} {journal : Journal Ticket}
    (history : Moment.History (fun _ _ => True)
      (Moment.fresh settings clock scenes devices network journal) past m) {s : Moment}
    (once : past.filter (fun p => (p.1.opens? p.2).isSome) = [(s, .start)]) :
    let first := s.engine.clock.onSameDay s.engine.settings.arrangeAt
    let ran := past.filterMap fun p => p.1.arranges? p.2
    (m.handed = [] → arrangements m.engine.server.queue.tasks =
      [stamp (first.addDays ran.length)]) ∧
    arrangements (m.engine.server.queue.tasks ++ m.handed) = [stamp (first.addDays ran.length)] ∧
    ran.Perm ((List.range ran.length).map fun k : Nat => first.addDays k) ∧
    ∀ p ∈ past, ∀ time, p.1.arranges? p.2 = some time →
      Pass p.1.engine (time.addDays 1) (p.1.happen p.2).engine := by
  intro first ran
  obtain ⟨-, chains, chained⟩ := chained settings clock scenes devices network journal history
  obtain ⟨k, rfl⟩ := chained.single once
  have each : ran.Perm ((List.range k).map fun k : Nat => first.addDays k) := by
    have each := chained.ran
    rwa [List.flatMap_singleton] at each
  have count : ran.length = k := by
    rw [each.length_eq, List.length_map, List.length_range]
  have waiting : arrangements (m.engine.server.queue.tasks ++ m.handed) =
      [stamp (first.addDays ran.length)] := by
    rw [count]
    exact List.perm_singleton.mp chained.waiting
  refine ⟨?_, waiting, ?_, ?_⟩
  · intro none
    rwa [none, List.append_nil] at waiting
  · rw [count]
    exact each
  · exact fun p _ time runs => pass_happen runs

/-- Two days late, the arrangement of the first day runs, and that of the second waits. -/
theorem arrangement_chain_late :
    let early := Moment.fresh {} ⟨⟨0, .midnight⟩, 0⟩ {} {} default default
    let started := early.happen .start
    let late := started.happen (.move (.advance ⟨2, .midnight⟩))
    let out := late.happen (.move .tick)
    let ran := out.happen (.move (.run 0))
    let first := early.engine.clock.onSameDay early.engine.settings.arrangeAt
    out.arranges? (.move (.run 0)) = some first ∧
      arrangements ran.engine.server.queue.tasks = [stamp (first.addDays 1)] ∧
      Pass out.engine (first.addDays 1) ran.engine := by
  intro early started late out ran first
  have runs : out.arranges? (.move (.run 0)) = some first := by decide +kernel
  have left : ran.handed = [] := List.eq_nil_of_length_eq_zero (by decide +kernel)
  have history : Moment.History (fun _ _ => True) early _ ran :=
    .next (.next (.next (.next .begin .start trivial) (.move (.advance ⟨2, .midnight⟩)) trivial)
      (.move .tick) trivial) (.move (.run 0)) trivial
  obtain ⟨waits, -, -, passes⟩ := arrangement_chain history (s := early) rfl
  have one := waits left
  simp only [List.nil_append, List.filterMap_append, List.filterMap_cons] at one
  rw [runs] at one
  exact ⟨runs, one, passes (out, .move (.run 0)) (List.mem_append_right _ List.mem_cons_self) first runs⟩
end Engine

end HomeScenes
