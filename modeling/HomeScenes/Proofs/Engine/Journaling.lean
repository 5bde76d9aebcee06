import HomeScenes.Proofs.Engine.Interleaving
import Mathlib.Data.List.Forall2

/-!
# The journal is told of every task

An engine that keeps the journal is compared with one that takes the same turns and runs the bare
bodies of the tasks, with no journal around them. Whether or not the journal is out of order, the
tasks do the same in both, at the same turns, and with the same results. And the journal is told
of every task that begins: once that it starts, after its parent, and once how it ended.
-/

namespace HomeScenes

theorem Event.Outer.silence {event : Event} (outer : event.Outer) : event.silence.Outer := by
  cases event <;> exact outer

def Turn.silence : Turn → Turn
  | .event e outer => .event e.silence outer.silence
  | turn => turn

/-- Two lists that agree have related members at each place, and agree without them. -/
theorem forall₂_place {α β : Type} {R : α → β → Prop} {as : List α} {bs : List β}
    (h : List.Forall₂ R as bs) (place : Nat) :
    (as[place]? = none ∧ bs[place]? = none) ∨
      ∃ a b, as[place]? = some a ∧ bs[place]? = some b ∧ R a b ∧
        List.Forall₂ R (as.eraseIdx place) (bs.eraseIdx place) := by
  induction h generalizing place with
  | nil => exact .inl ⟨rfl, rfl⟩
  | @cons a b as bs first others ih =>
    cases place with
    | zero => exact .inr ⟨a, b, rfl, rfl, first, others⟩
    | succ place =>
      rcases ih place with none | ⟨c, d, left, right, related, rest⟩
      · exact .inl none
      · exact .inr ⟨c, d, left, right, related, .cons first rest⟩

namespace Juncture

open Engine

/-- What a task does with no journal around it. -/
def bare (t : EngineTask) : Work Engine TaskResult :=
  body t.body t.handle

/-- The same juncture, but for the journal, which is kept in the first one only. -/
structure Follows (x y : Juncture) : Prop where
  engine : Unlogged y.engine x.engine
  handed : x.handed = y.handed
  ended : x.ended = y.ended
  waiting : List.Forall₂ (fun p q => p.1 = q.1 ∧
    ∃ rest, q.2.Alike Unlogged rest ∧ p.2 = rest.bind (close p.1.handle)) x.waiting y.waiting

variable {x y : Juncture} {t : EngineTask}

theorem unlogged_recordStart {e r : Engine} (h : Unlogged e r) (handle : Handle Ticket)
    (target : Target) : Unlogged e (r.recordStart handle target) := by
  obtain ⟨l, rfl⟩ := h
  refine ⟨((e.withLog l).recordStart handle target).log, ?_⟩
  rw [recordStart_eq]
  rfl

theorem unlogged_recordResult {e r : Engine} (h : Unlogged e r) (handle : Handle Ticket)
    (result : TaskResult) : Unlogged e (r.recordResult handle result) := by
  obtain ⟨l, rfl⟩ := h
  refine ⟨((e.withLog l).recordResult handle result).log, ?_⟩
  rw [recordResult_eq]
  rfl

/-- A task goes on with its body alike, whether or not the journal is kept around it. -/
theorem Follows.goOn (h : x.Follows y) {v rest : Work Engine TaskResult}
    (alike : v.Alike Unlogged rest) :
    Follows (x.goOn t (rest.bind (close t.handle))) (y.goOn t v) := by
  obtain ⟨progress, states⟩ := alike.advance h.engine
  rw [Juncture.goOn, Juncture.goOn, Work.advance_bind]
  generalize v.advance y.engine = left at progress states
  generalize rest.advance x.engine = right at progress states
  obtain ⟨left, e⟩ := left
  obtain ⟨right, r⟩ := right
  cases progress with
  | finished result =>
    have ended : x.ended ++ [(t, result)] = y.ended ++ [(t, result)] := by rw [h.ended]
    exact ⟨unlogged_recordResult states t.handle result, h.handed, ended, h.waiting⟩
  | paused nanos more =>
    exact ⟨states, h.handed, h.ended, List.rel_append h.waiting (.cons ⟨rfl, _, more, rfl⟩ .nil)⟩

theorem Follows.happen (h : x.Follows y) (sound : x.Sound) (turn : Turn) :
    Follows (x.happen perform turn) (y.happen bare turn.silence) := by
  cases turn with
  | event event outer =>
    obtain ⟨l, engine⟩ := h.engine
    obtain ⟨outage, same⟩ := Moment.happen_withLog y.engine l y.handed outer
    rw [← engine] at same
    refine ⟨⟨{ l with outage := outage }, ?_⟩, h.handed, h.ended, h.waiting⟩
    simp only [Juncture.happen, Turn.silence, h.handed]
    exact same
  | tick =>
    obtain ⟨l, engine⟩ := h.engine
    have same := Moment.handOut_withLog y.engine l y.handed
    simp only [Juncture.happen, Turn.silence, engine, h.handed, same]
    exact ⟨⟨l, rfl⟩, rfl, h.ended, h.waiting⟩
  | begin place =>
    simp only [Juncture.happen, Turn.silence, h.handed]
    cases found : y.handed[place]? with
    | none => exact h
    | some t =>
      have here : t ∈ x.handed := by
        rw [h.handed]
        exact List.mem_of_getElem? found
      obtain ⟨target, wrapped⟩ := sound.wrapped t (List.mem_append_right _ here)
      have started : Follows
          { x with
            engine := x.engine.recordStart t.handle target
            handed := y.handed.eraseIdx place }
          { y with handed := y.handed.eraseIdx place } :=
        ⟨unlogged_recordStart h.engine t.handle target, rfl, h.ended, h.waiting⟩
      dsimp only
      rw [perform_eq wrapped]
      exact started.goOn (body_blind t.body t.handle)
  | resume place =>
    simp only [Juncture.happen, Turn.silence]
    rcases forall₂_place h.waiting place with ⟨left, right⟩ | ⟨p, q, left, right, ⟨same, related⟩, rest⟩
    · rw [left, right]
      exact h
    · rw [left, right]
      obtain ⟨t, w⟩ := p
      obtain ⟨_, v⟩ := q
      obtain rfl := same
      obtain ⟨rest', alike, wrapped⟩ := related
      have wrapped : w = rest'.bind (close t.handle) := wrapped
      subst wrapped
      have paused : Follows { x with waiting := x.waiting.eraseIdx place }
          { y with waiting := y.waiting.eraseIdx place } := ⟨h.engine, h.handed, h.ended, rest⟩
      exact paused.goOn alike

/-- Whatever turns an engine takes from the start, its tasks do the same as with no journal around
them and with the journal in order all the time: the same tasks are handed out, wait and end, with
the same results, and the engines are the same but for the journal. The journal is told of every
task that has begun, exactly once that it starts, with its own parent and after the start of that
parent, and once it has ended, exactly once with its outcome, and with a text exactly if it failed.
It is told of no other task. -/
theorem journal_told_once (settings : Settings) (clock : LocalTime) (scenes : SceneStore)
    (devices : DeviceStore) (network : Network) (journal : Journal Ticket) (turns : List Turn) :
    let first := fresh settings clock scenes devices network journal
    let x := turns.foldl (happen perform) first
    let y := (turns.map Turn.silence).foldl (happen bare) first
    (Unlogged y.engine x.engine ∧ x.handed = y.handed ∧ x.ended = y.ended ∧
      x.waiting.map Prod.fst = y.waiting.map Prod.fst) ∧
    ((x.engine.server.queue.tasks ++ x.handed ++ x.begun).map Task.id).Nodup ∧
    (∀ t ∈ x.waiting.map Prod.fst, ∃ target,
      x.engine.told t.id = [.started t.id t.handle.parent target]) ∧
    (∀ t result, (t, result) ∈ x.ended → ∃ target,
      x.engine.told t.id = [.started t.id t.handle.parent target,
        .ended t.id (.ofResult result) (failureText result)]) ∧
    (∀ entry ∈ x.engine.entries, entry.task ∈ x.begun.map Task.id) ∧
    ∀ before task p target after,
      x.engine.entries = before ++ .started task (some p) target :: after →
        ∃ grand own, .started p grand own ∈ before := by
  intro first x y
  obtain ⟨sound, follows⟩ : x.Sound ∧ x.Follows y := by
    have begin : first.Sound ∧ first.Follows first :=
      ⟨sound_fresh settings clock scenes devices network journal,
        ⟨first.engine.log, rfl⟩, rfl, rfl, .nil⟩
    have run : ∀ (turns : List Turn) (a b : Juncture), a.Sound ∧ a.Follows b →
        (turns.foldl (happen perform) a).Sound ∧
          (turns.foldl (happen perform) a).Follows
            ((turns.map Turn.silence).foldl (happen bare) b) := by
      intro turns
      induction turns with
      | nil => exact fun a b h => h
      | cons turn turns ih =>
        exact fun a b h => ih _ _ ⟨h.1.happen turn, h.2.happen h.1 turn⟩
    exact run turns first first begin
  refine ⟨⟨follows.engine, follows.handed, follows.ended, ?_⟩, ?_, ?_, ?_, sound.only, ?_⟩
  · have waiting := follows.waiting
    generalize x.waiting = ws at waiting
    generalize y.waiting = vs at waiting
    induction waiting with
    | nil => rfl
    | cons first rest ih => rw [List.map_cons, List.map_cons, first.1, ih]
  · rw [List.append_assoc]
    exact sound.consistent.distinct
  · intro t waits
    obtain ⟨⟨_, w⟩, member, rfl⟩ := List.mem_map.mp waits
    obtain ⟨target, -, told⟩ := sound.waiting _ w member
    exact ⟨target, told⟩
  · intro t result member
    obtain ⟨target, -, told⟩ := sound.ended t result member
    exact ⟨target, told⟩
  · intro before task p target after split
    exact sound.order before _ after split task p target rfl

end Juncture

end HomeScenes
