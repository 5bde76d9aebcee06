import HomeScenes.Proofs.Engine.Blind
import HomeScenes.Proofs.Engine.Records
import HomeScenes.Proofs.Engine.Steps
import Mathlib.Logic.Relation

/-!
# Tasks that interleave

A task that waits for a device pauses, and others run meanwhile. A juncture is an engine together
with the tasks that have begun and wait in a pause, each with what is left of it. Whatever turns an
engine takes, the journal is told once of each task that begins, after its parent, and once more
when it ends.
-/

namespace HomeScenes

def JournalEntry.task : JournalEntry → Ticket
  | started task .. => task
  | ended task .. => task

/-- An engine with the tasks that were handed out and have not begun, those that wait in a pause
with what is left of them, and those that have ended with their results. -/
structure Juncture where
  engine : Engine
  handed : List EngineTask
  waiting : List (EngineTask × Work Engine TaskResult)
  ended : List (EngineTask × TaskResult)

inductive Turn where
  /-- Something happens in which no task is handed out or runs. -/
  | event (event : Event) (outer : event.Outer)
  | tick
  /-- The task at a place among those that were handed out begins. -/
  | begin (place : Nat)
  /-- The pause of the task at a place among those that wait is over. -/
  | resume (place : Nat)

namespace Juncture

def fresh (settings : Engine.Settings) (clock : LocalTime) (scenes : SceneStore)
    (devices : DeviceStore) (network : Network) (journal : Journal Ticket) : Juncture :=
  ⟨Engine.ofParts settings clock scenes devices network journal, [], [], []⟩

def goOn (j : Juncture) (t : EngineTask) (rest : Work Engine TaskResult) : Juncture :=
  match rest.advance j.engine with
  | (.finished result, e) => { j with engine := e, ended := j.ended ++ [(t, result)] }
  | (.paused _ rest, e) => { j with engine := e, waiting := j.waiting ++ [(t, rest)] }

def happen (course : EngineTask → Work Engine TaskResult) (j : Juncture) : Turn → Juncture
  | .event event _ => { j with engine := (Moment.happen ⟨j.engine, j.handed⟩ event).engine }
  | .tick =>
    let m := Moment.handOut ⟨j.engine, j.handed⟩
    { j with engine := m.engine, handed := m.handed }
  | .begin place =>
    match j.handed[place]? with
    | some t => goOn { j with handed := j.handed.eraseIdx place } t (course t)
    | none => j
  | .resume place =>
    match j.waiting[place]? with
    | some (t, rest) => goOn { j with waiting := j.waiting.eraseIdx place } t rest
    | none => j

def begun (j : Juncture) : List EngineTask :=
  j.waiting.map Prod.fst ++ j.ended.map Prod.fst

end Juncture

namespace Engine

/-- What the journal was told of a task. -/
def told (e : Engine) (task : Ticket) : List JournalEntry :=
  e.entries.filter fun entry => entry.task = task

def close (h : Handle Ticket) (result : TaskResult) : Work Engine TaskResult :=
  .look fun e => .put (e.recordResult h result) (.done result)

theorem perform_eq {t : EngineTask} {target : Target} (wrapped : t.wrappers = [target]) :
    perform t = .look fun e =>
      .put (e.recordStart t.handle target) ((body t.body t.handle).bind (close t.handle)) := by
  rw [perform, Task.run, wrapped]
  rfl

end Engine

namespace Juncture

open Engine

/-- What a turn keeps: queue and index agree, a task is wrapped once and follows its parent, what
is left of a task are steps of its own, and the journal was told of what begun, and of nothing
else. -/
structure Sound (j : Juncture) : Prop where
  consistent : Consistent j.engine (j.handed ++ j.begun)
  wrapped : ∀ t ∈ j.engine.server.queue.tasks ++ j.handed, ∃ target, t.wrappers = [target]
  parents : ∀ t ∈ j.engine.server.queue.tasks ++ j.handed, ∀ p, t.handle.parent = some p →
    p ∈ j.begun.map Task.id
  rests : ∀ t w, (t, w) ∈ j.waiting → ∃ rest : Work Engine TaskResult,
    w = rest.bind (close t.handle) ∧ ∀ e, rest.Within (Steps t.id) e
  waiting : ∀ t w, (t, w) ∈ j.waiting → ∃ target, t.wrappers = [target] ∧
    j.engine.told t.id = [.started t.id t.handle.parent target]
  ended : ∀ t result, (t, result) ∈ j.ended → ∃ target, t.wrappers = [target] ∧
    j.engine.told t.id = [.started t.id t.handle.parent target,
      .ended t.id (.ofResult result) (failureText result)]
  only : ∀ entry ∈ j.engine.entries, entry.task ∈ j.begun.map Task.id
  order : ∀ before entry after, j.engine.entries = before ++ entry :: after →
    ∀ task p target, entry = .started task (some p) target →
      ∃ grand own, .started p grand own ∈ before

variable {j : Juncture} {e : Engine} {t : EngineTask}

theorem sound_fresh (settings : Settings) (clock : LocalTime) (scenes : SceneStore)
    (devices : DeviceStore) (network : Network) (journal : Journal Ticket) :
    Sound (fresh settings clock scenes devices network journal) where
  consistent := consistent_fresh settings clock scenes devices network journal
  wrapped := by rintro t ⟨⟩
  parents := by rintro t ⟨⟩
  rests := by rintro t w ⟨⟩
  waiting := by rintro t w ⟨⟩
  ended := by rintro t result ⟨⟩
  only := by rintro entry ⟨⟩
  order := by
    intro before entry after none
    exact absurd none.symm (List.append_ne_nil_of_right_ne_nil _ (List.cons_ne_nil _ _))

/-- Tasks that have begun are neither queued nor handed out any more. -/
theorem Sound.apart (h : j.Sound) {u : EngineTask}
    (hu : u ∈ j.engine.server.queue.tasks ++ j.handed) : u.id ∉ j.begun.map Task.id := by
  have distinct := h.consistent.distinct
  rw [← List.append_assoc, List.map_append, List.nodup_append] at distinct
  exact fun begun => distinct.2.2 u.id (List.mem_map_of_mem hu) u.id begun rfl

/-- What is not about the queue depends on the log alone. -/
theorem Sound.queued (h : j.Sound) (entries : e.entries = j.engine.entries)
    (consistent : Consistent e (j.handed ++ j.begun))
    (tasks : ∀ t ∈ e.server.queue.tasks, t ∈ j.engine.server.queue.tasks ∨
      (∃ target, t.wrappers = [target]) ∧
        ∀ p, t.handle.parent = some p → p ∈ j.begun.map Task.id) :
    Sound { j with engine := e } where
  consistent := consistent
  wrapped t ht := by
    rcases List.mem_append.mp ht with queued | handed
    · rcases tasks t queued with old | new
      · exact h.wrapped t (List.mem_append_left _ old)
      · exact new.1
    · exact h.wrapped t (List.mem_append_right _ handed)
  parents t ht := by
    rcases List.mem_append.mp ht with queued | handed
    · rcases tasks t queued with old | new
      · exact h.parents t (List.mem_append_left _ old)
      · exact new.2
    · exact h.parents t (List.mem_append_right _ handed)
  rests := h.rests
  waiting t w member := by
    rw [told, entries]
    exact h.waiting t w member
  ended t result member := by
    rw [told, entries]
    exact h.ended t result member
  only := entries ▸ h.only
  order := entries ▸ h.order

/-- An event in which no task runs is the same whatever was handed out. -/
theorem engine_outer (e : Engine) (left right : List EngineTask) {event : Event}
    (outer : event.Outer) :
    (Moment.happen ⟨e, left⟩ event).engine = (Moment.happen ⟨e, right⟩ event).engine := by
  cases event with
  | move move => cases move <;> first | rfl | exact outer.elim
  | _ => rfl

theorem Sound.event (h : j.Sound) {event : Event} (outer : event.Outer) :
    Sound { j with engine := (Moment.happen ⟨j.engine, j.handed⟩ event).engine } := by
  let m : Moment := ⟨j.engine, j.handed ++ j.begun⟩
  have hc : Consistent m.engine m.handed := h.consistent
  have after := hc.happen event
  rw [m.handed_outer outer] at after
  rw [engine_outer j.engine j.handed m.handed outer]
  refine h.queued ?_ after ?_
  · obtain ⟨outage, same⟩ := Moment.happen_withLog j.engine j.engine.log m.handed outer
    rw [withLog_log] at same
    rw [show m = ⟨j.engine, m.handed⟩ from rfl, same]
    rfl
  · intro t ht
    rcases (grown_happen hc event).tasks t ht with old | ⟨r, i, raised, -, rfl⟩
    · exact .inl old
    · have orphan : r.parent = none := by
        cases raised with
        | root _ root => exact root.1
        | opened => rfl
        | sown | next | child => exact outer.elim
      refine .inr ⟨⟨r.target, rfl⟩, fun p line => ?_⟩
      have line : r.parent = some p := line
      rw [orphan] at line
      cases line

/-- A task that is due goes from the queue to those that were handed out. -/
theorem handOut_perm {queued left : List EngineTask} (taken : queued.Perm (t :: left))
    (handed others : List EngineTask) :
    (left ++ (handed ++ [t] ++ others)).Perm (queued ++ (handed ++ others)) := by
  have all : (left ++ (handed ++ [t])).Perm (queued ++ handed) := by
    rw [← List.append_assoc]
    exact (List.perm_append_singleton t _).trans (taken.append_right handed).symm
  have more := all.append_right others
  simp only [List.append_assoc] at more ⊢
  exact more

theorem Sound.handOut (h : j.Sound) {server : Dispatch.Server Ticket Duty Target}
    (valid : server.queue.Valid)
    (taken : j.engine.server.queue.tasks.Perm (t :: server.queue.tasks)) :
    Sound { j with
      engine := { j.engine with server := server }
      handed := j.handed ++ [t] } := by
  have fewer : ∀ u ∈ server.queue.tasks, u ∈ j.engine.server.queue.tasks :=
    fun u hu => taken.mem_iff.mpr (List.mem_cons_of_mem t hu)
  have all := handOut_perm taken j.handed []
  simp only [List.append_nil] at all
  refine ⟨?_, ?_, ?_, h.rests, h.waiting, h.ended, h.only, h.order⟩
  · exact h.consistent.move valid (handOut_perm taken j.handed j.begun) fewer rfl rfl
  · exact fun u hu => h.wrapped u (all.mem_iff.mp hu)
  · exact fun u hu => h.parents u (all.mem_iff.mp hu)

theorem Sound.steps (h : j.Sound) (begun : t ∈ j.begun) (steps : Steps t.id j.engine e) :
    Sound { j with engine := e } := by
  have here : t ∈ j.handed ++ j.begun := List.mem_append_right _ begun
  refine h.queued (by rw [steps.frame]) (steps.consistent h.consistent here) fun v hv => ?_
  rcases (steps.tasks h.consistent here).2 v hv with old | ⟨u, i, -, rfl, line⟩
  · exact .inl old
  · refine .inr ⟨⟨u.target, rfl⟩, fun p own => ?_⟩
    have own : u.parent = some p := own
    rcases line with none | same
    · rw [none] at own
      cases own
    · rw [same] at own
      cases own
      exact List.mem_map_of_mem begun

theorem Sound.perm (h : j.Sound) {ws : List (EngineTask × Work Engine TaskResult)}
    (perm : ws.Perm j.waiting) : Sound { j with waiting := ws } := by
  have begun : (ws.map Prod.fst ++ j.ended.map Prod.fst).Perm j.begun :=
    (perm.map Prod.fst).append_right _
  have known (id : Ticket) : id ∈ (ws.map Prod.fst ++ j.ended.map Prod.fst).map Task.id ↔
      id ∈ j.begun.map Task.id := (begun.map Task.id).mem_iff
  refine ⟨?_, h.wrapped, ?_, ?_, ?_, h.ended, ?_, h.order⟩
  · exact h.consistent.perm (begun.append_left j.handed)
  · exact fun t ht p line => (known p).mpr (h.parents t ht p line)
  · exact fun t w member => h.rests t w (perm.mem_iff.mp member)
  · exact fun t w member => h.waiting t w (perm.mem_iff.mp member)
  · exact fun entry member => (known _).mpr (h.only entry member)

theorem told_append {r : Engine} {entry : JournalEntry} (entries : r.entries = e.entries ++ [entry])
    (id : Ticket) : r.told id = e.told id ++ if entry.task = id then [entry] else [] := by
  rw [told, entries, List.filter_append, told]
  by_cases same : entry.task = id <;> simp [same]

theorem told_other {r : Engine} {entry : JournalEntry} (entries : r.entries = e.entries ++ [entry])
    {id : Ticket} (other : entry.task ≠ id) : r.told id = e.told id := by
  rw [told_append entries, if_neg other, List.append_nil]

/-- A task of which the journal was told nothing. -/
theorem Sound.told_nil (h : j.Sound) {id : Ticket} (idle : id ∉ j.begun.map Task.id) :
    j.engine.told id = [] := by
  rw [told, List.filter_eq_nil_iff]
  intro entry member same
  rw [← of_decide_eq_true same] at idle
  exact idle (h.only entry member)

/-- Of a task that has begun the journal was told its start first, and no other start. -/
theorem Sound.told_cons (h : j.Sound) (begun : t ∈ j.begun) :
    ∃ target, ∃ ends : List (Outcome × Option String), t.wrappers = [target] ∧
      j.engine.told t.id = .started t.id t.handle.parent target ::
        ends.map fun p => .ended t.id p.1 p.2 := by
  rcases List.mem_append.mp begun with waiting | ended
  · obtain ⟨⟨_, w⟩, member, rfl⟩ := List.mem_map.mp waiting
    obtain ⟨target, wrapped, told⟩ := h.waiting _ w member
    exact ⟨target, [], wrapped, told⟩
  · obtain ⟨⟨_, result⟩, member, rfl⟩ := List.mem_map.mp ended
    obtain ⟨target, wrapped, told⟩ := h.ended _ result member
    exact ⟨target, [(.ofResult result, failureText result)], wrapped, told⟩

theorem Sound.started_mem (h : j.Sound) {id : Ticket} (known : id ∈ j.begun.map Task.id) :
    ∃ parent target, .started id parent target ∈ j.engine.entries := by
  obtain ⟨u, begun, rfl⟩ := List.mem_map.mp known
  obtain ⟨target, ends, -, told⟩ := h.told_cons begun
  have first : .started u.id u.handle.parent target ∈ j.engine.told u.id := by
    rw [told]
    exact List.mem_cons_self
  exact ⟨_, target, (List.mem_filter.mp first).1⟩

/-- What the journal was told to start has begun. -/
theorem Sound.of_started (h : j.Sound) {id : Ticket} {parent : Option Ticket} {target : Target}
    (told : .started id parent target ∈ j.engine.entries) :
    ∃ u ∈ j.begun, u.id = id ∧ u.handle.parent = parent := by
  obtain ⟨u, begun, rfl⟩ := List.mem_map.mp (h.only _ told)
  obtain ⟨own, ends, -, all⟩ := h.told_cons begun
  have here : .started u.id parent target ∈ j.engine.told u.id :=
    List.mem_filter.mpr ⟨told, decide_eq_true rfl⟩
  rw [all] at here
  refine ⟨u, begun, rfl, ?_⟩
  rcases List.mem_cons.mp here with same | late
  · cases same
    rfl
  · obtain ⟨p, -, other⟩ := List.mem_map.mp late
    cases other

/-- What the journal was told to have a parent follows it. -/
theorem Sound.parent_begun (h : j.Sound) {id p : Ticket} {target : Target}
    (told : .started id (some p) target ∈ j.engine.entries) : p ∈ j.begun.map Task.id := by
  obtain ⟨before, after, split⟩ := List.append_of_mem told
  obtain ⟨grand, own, first⟩ := h.order before _ after split id p target rfl
  exact h.only (.started p grand own) (split ▸ List.mem_append_left _ first)

/-- Tasks that have begun, with some of those that wait put first. -/
theorem begun_perm {p : EngineTask × Work Engine TaskResult}
    {ws : List (EngineTask × Work Engine TaskResult)} (waits : j.waiting.Perm (p :: ws)) :
    j.begun.Perm (p.1 :: (ws.map Prod.fst ++ j.ended.map Prod.fst)) :=
  (waits.map Prod.fst).append_right _

/-- A task that waits is none of the others that have begun. -/
theorem Sound.apart_waiting (h : j.Sound) {w : Work Engine TaskResult}
    {ws : List (EngineTask × Work Engine TaskResult)} (waits : j.waiting.Perm ((t, w) :: ws)) :
    ∀ u ∈ ws.map Prod.fst ++ j.ended.map Prod.fst, t.id ≠ u.id := by
  have distinct := h.consistent.distinct
  rw [List.map_append, List.map_append, List.nodup_append, List.nodup_append] at distinct
  have own := ((begun_perm waits).map Task.id).nodup_iff.mp distinct.2.1.2.1
  exact fun u member same => (List.nodup_cons.mp own).1 (same ▸ List.mem_map_of_mem member)

/-- A task that begins goes from those that were handed out to those that have begun. -/
theorem begin_perm {handed begun : List EngineTask} {place : Nat}
    (found : handed[place]? = some t) :
    (handed.eraseIdx place ++ (t :: begun)).Perm (handed ++ begun) :=
  List.perm_middle.trans ((picked_perm found).symm.append_right begun)

/-- A task that ends is still one of those that have begun. -/
theorem end_perm (ws : List (EngineTask × Work Engine TaskResult))
    (ended : List (EngineTask × TaskResult)) (t : EngineTask) (result : TaskResult) :
    (ws.map Prod.fst ++ (ended ++ [(t, result)]).map Prod.fst).Perm
      (t :: (ws.map Prod.fst ++ ended.map Prod.fst)) := by
  rw [List.map_append, ← List.append_assoc]
  exact List.perm_append_singleton t _

/-- The first thing that a task does is to tell the journal that it starts. -/
theorem Sound.start (h : j.Sound) {place : Nat} {target : Target}
    (found : j.handed[place]? = some t) (wrapped : t.wrappers = [target]) :
    Sound { j with
      engine := j.engine.recordStart t.handle target
      handed := j.handed.eraseIdx place
      waiting := (t, (body t.body t.handle).bind (close t.handle)) :: j.waiting } := by
  have started := recordStart_eq j.engine t.handle target
  have here : t ∈ j.handed := List.mem_of_getElem? found
  have left : ∀ u ∈ j.engine.server.queue.tasks ++ j.handed.eraseIdx place,
      u ∈ j.engine.server.queue.tasks ++ j.handed := by
    intro u hu
    rcases List.mem_append.mp hu with queued | handed
    · exact List.mem_append_left _ queued
    · exact List.mem_append_right _ (List.mem_of_mem_eraseIdx handed)
  have idle := h.apart (List.mem_append_right _ here)
  have apart : ∀ u ∈ j.begun, t.id ≠ u.id := by
    intro u begun same
    rw [same] at idle
    exact idle (List.mem_map_of_mem begun)
  have entries : (j.engine.recordStart t.handle target).entries =
      j.engine.entries ++ [.started t.id t.handle.parent target] := by
    rw [started]
    rfl
  have same : ∀ u ∈ j.begun,
      (j.engine.recordStart t.handle target).told u.id = j.engine.told u.id :=
    fun u begun => told_other entries (apart u begun)
  constructor
  · rw [started]
    exact (h.consistent.perm (begin_perm found)).congr rfl rfl rfl
  · rw [started]
    exact fun u hu => h.wrapped u (left u hu)
  · rw [started]
    exact fun u hu p line => List.mem_cons_of_mem _ (h.parents u (left u hu) p line)
  · intro u w member
    rcases List.mem_cons.mp member with new | old
    · cases new
      exact ⟨_, rfl, fun e => body_within _ _ e⟩
    · exact h.rests u w old
  · intro u w member
    rcases List.mem_cons.mp member with new | old
    · cases new
      refine ⟨target, wrapped, ?_⟩
      rw [told_append entries, h.told_nil idle]
      exact if_pos rfl
    · rw [same u (List.mem_append_left _ (List.mem_map_of_mem old))]
      exact h.waiting u w old
  · intro u result member
    rw [same u (List.mem_append_right _ (List.mem_map_of_mem member))]
    exact h.ended u result member
  · intro entry member
    rw [entries] at member
    rcases List.mem_append.mp member with old | new
    · exact List.mem_cons_of_mem _ (h.only entry old)
    · rw [List.mem_singleton.mp new]
      exact List.mem_cons_self
  · rw [entries, Journal.forall_before_concat]
    refine ⟨h.order, ?_⟩
    intro task p own same
    -- `parents` holds of what was handed out, so the parent has begun, and was logged then
    have line : t.handle.parent = some p := by
      injection same
    exact h.started_mem (h.parents _ (List.mem_append_right _ here) p line)

/-- A task that ends tells the journal how. -/
theorem Sound.finish {ws : List (EngineTask × Work Engine TaskResult)}
    {w : Work Engine TaskResult} (h : Sound { j with waiting := (t, w) :: ws })
    (result : TaskResult) : Sound { j with
      engine := j.engine.recordResult t.handle result
      waiting := ws
      ended := j.ended ++ [(t, result)] } := by
  have closed := recordResult_eq j.engine t.handle result
  have entries : (j.engine.recordResult t.handle result).entries = j.engine.entries ++
      [.ended t.id (.ofResult result) (failureText result)] := by
    rw [closed]
    rfl
  have begun := end_perm ws j.ended t result
  have known (id : Ticket) : id ∈ (t :: (ws.map Prod.fst ++ j.ended.map Prod.fst)).map Task.id →
      id ∈ (ws.map Prod.fst ++ (j.ended ++ [(t, result)]).map Prod.fst).map Task.id :=
    (begun.map Task.id).mem_iff.mpr
  have apart := h.apart_waiting (.refl _)
  have same : ∀ u ∈ ws.map Prod.fst ++ j.ended.map Prod.fst,
      (j.engine.recordResult t.handle result).told u.id = j.engine.told u.id :=
    fun u member => told_other entries (apart u member)
  constructor
  · rw [closed]
    exact (h.consistent.perm (begun.append_left j.handed)).congr rfl rfl rfl
  · rw [closed]
    exact h.wrapped
  · rw [closed]
    exact fun u hu p line => known p (h.parents u hu p line)
  · exact fun u v member => h.rests u v (List.mem_cons_of_mem _ member)
  · intro u v member
    rw [same u (List.mem_append_left _ (List.mem_map_of_mem member))]
    exact h.waiting u v (List.mem_cons_of_mem _ member)
  · intro u answer member
    rcases List.mem_append.mp member with old | new
    · rw [same u (List.mem_append_right _ (List.mem_map_of_mem old))]
      exact h.ended u answer old
    · cases List.mem_singleton.mp new
      obtain ⟨target, wrapped, told⟩ := h.waiting t w List.mem_cons_self
      refine ⟨target, wrapped, ?_⟩
      rw [told_append entries, told]
      exact congrArg _ (if_pos rfl)
  · intro entry member
    rw [entries] at member
    refine known _ ?_
    rcases List.mem_append.mp member with old | new
    · exact h.only entry old
    · rw [List.mem_singleton.mp new]
      exact List.mem_cons_self
  · rw [entries, Journal.forall_before_concat]
    refine ⟨h.order, ?_⟩
    rintro task p own ⟨⟩

/-- A task that pauses waits with what is left of it. -/
theorem Sound.pause {ws : List (EngineTask × Work Engine TaskResult)}
    {w : Work Engine TaskResult} (h : Sound { j with waiting := (t, w) :: ws })
    {more : Work Engine TaskResult} (goesOn : ∀ r, more.Within (Steps t.id) r) :
    Sound { j with waiting := (t, more.bind (close t.handle)) :: ws } := by
  refine ⟨h.consistent, h.wrapped, h.parents, ?_, ?_, h.ended, h.only, h.order⟩
  · intro u v member
    rcases List.mem_cons.mp member with new | old
    · cases new
      exact ⟨more, rfl, goesOn⟩
    · exact h.rests u v (List.mem_cons_of_mem _ old)
  · intro u v member
    rcases List.mem_cons.mp member with new | old
    · cases new
      exact h.waiting t w List.mem_cons_self
    · exact h.waiting u v (List.mem_cons_of_mem _ old)

/-- What turns are made of: an event, a look at the queue, a task that is handed out, one that
starts, and one that goes on to its next pause or to its end. -/
inductive Passes (may : Event → Prop) (j : Juncture) : Juncture → Prop where
  | event {event : Event} (outer : event.Outer) (ok : may event) :
      Passes may j { j with engine := (Moment.happen ⟨j.engine, j.handed⟩ event).engine }
  | look {server : Dispatch.Server Ticket Duty Target} (valid : server.queue.Valid)
      (same : server.queue.tasks.Perm j.engine.server.queue.tasks) :
      Passes may j { j with engine := { j.engine with server := server } }
  | handOut {server : Dispatch.Server Ticket Duty Target} {t : EngineTask}
      (valid : server.queue.Valid)
      (taken : j.engine.server.queue.tasks.Perm (t :: server.queue.tasks)) :
      Passes may j { j with
        engine := { j.engine with server := server }
        handed := j.handed ++ [t] }
  | start {place : Nat} {t : EngineTask} {target : Target} (found : j.handed[place]? = some t)
      (wrapped : t.wrappers = [target]) :
      Passes may j { j with
        engine := j.engine.recordStart t.handle target
        handed := j.handed.eraseIdx place
        waiting := (t, (body t.body t.handle).bind (close t.handle)) :: j.waiting }
  | pause {t : EngineTask} {w more : Work Engine TaskResult} {nanos : Nat} {e : Engine}
      {ws : List (EngineTask × Work Engine TaskResult)} (waits : j.waiting.Perm ((t, w) :: ws))
      (advanced : w.advance j.engine = (.paused nanos (more.bind (close t.handle)), e))
      (steps : Steps t.id j.engine e) (goesOn : ∀ r, more.Within (Steps t.id) r) :
      Passes may j { j with engine := e, waiting := ws ++ [(t, more.bind (close t.handle))] }
  | finish {t : EngineTask} {w : Work Engine TaskResult} {result : TaskResult} {e : Engine}
      {ws : List (EngineTask × Work Engine TaskResult)} (waits : j.waiting.Perm ((t, w) :: ws))
      (advanced : w.advance j.engine = (.finished result, e.recordResult t.handle result))
      (steps : Steps t.id j.engine e) :
      Passes may j { j with
        engine := e.recordResult t.handle result
        waiting := ws
        ended := j.ended ++ [(t, result)] }

variable {k : Juncture} {may : Event → Prop}

theorem Sound.passes (h : j.Sound) (passes : Passes may j k) : k.Sound := by
  cases passes with
  | event outer ok => exact h.event outer
  | look valid same =>
    refine h.queued rfl ?_ fun u hu => .inl (same.mem_iff.mp hu)
    exact h.consistent.move valid (same.append_right _) (fun u hu => same.mem_iff.mp hu) rfl rfl
  | handOut valid taken => exact h.handOut valid taken
  | start found wrapped => exact h.start found wrapped
  | @pause t w more nanos e ws waits advanced steps goesOn =>
    have moved := (h.perm waits.symm).steps List.mem_cons_self steps
    exact (Sound.pause (j := { j with engine := e }) moved goesOn).perm
      (List.perm_append_singleton _ _)
  | @finish t w result e ws waits advanced steps =>
    have moved := (h.perm waits.symm).steps List.mem_cons_self steps
    exact Sound.finish (j := { j with engine := e }) moved result

/-- A task that waits goes on to its next pause or to its end. -/
theorem Sound.passes_goOn (h : j.Sound) {w : Work Engine TaskResult}
    {ws : List (EngineTask × Work Engine TaskResult)} (waits : j.waiting.Perm ((t, w) :: ws)) :
    Passes may j (goOn { j with waiting := ws } t w) := by
  obtain ⟨rest, rfl, within⟩ := h.rests t w (waits.mem_iff.mpr List.mem_cons_self)
  obtain ⟨steps, goesOn⟩ := Steps.of_advance (within j.engine)
  have whole := Work.advance_bind rest (close t.handle) j.engine
  rw [goOn]
  cases advanced : rest.advance j.engine with
  | mk progress e =>
    rw [advanced] at steps goesOn whole
    rw [whole]
    cases progress with
    | finished result => exact .finish waits whole steps
    | paused nanos more => exact .pause waits whole steps (goesOn nanos more rfl)

/-- A turn is made of such passages. -/
theorem Sound.passes_happen (h : j.Sound) (turn : Turn)
    (ok : ∀ event outer, turn = .event event outer → may event) :
    Relation.ReflTransGen (Passes may) j (j.happen perform turn) := by
  cases turn with
  | event event outer => exact .single (.event outer (ok event outer rfl))
  | tick =>
    obtain ⟨server, valid, ⟨out, same, -⟩ | ⟨t, out, taken, -, -⟩⟩ :=
      handOut_cases (m := ⟨j.engine, j.handed⟩) h.consistent.valid
    · simp only [happen, out]
      exact .single (.look valid same)
    · simp only [happen, out]
      exact .single (.handOut valid taken)
  | begin place =>
    rw [happen]
    split
    · rename_i t found
      obtain ⟨target, wrapped⟩ := h.wrapped t (List.mem_append_right _ (List.mem_of_getElem? found))
      rw [perform_eq wrapped]
      have started : Passes may j _ := .start found wrapped
      exact (Relation.ReflTransGen.single started).tail ((h.passes started).passes_goOn (.refl _))
    · exact .refl
  | resume place =>
    rw [happen]
    split
    · rename_i t w found
      exact .single (h.passes_goOn (picked_perm found))
    · exact .refl

/-- What passages keep as long as the juncture is sound, a turn keeps. -/
theorem Sound.keeps {P : Juncture → Prop} (kept : ∀ a b, a.Sound → Passes may a b → P a → P b)
    (h : j.Sound) (holds : P j) (turn : Turn)
    (ok : ∀ event outer, turn = .event event outer → may event) :
    (j.happen perform turn).Sound ∧ P (j.happen perform turn) := by
  have passes := h.passes_happen turn ok
  generalize j.happen perform turn = k at passes ⊢
  induction passes with
  | refl => exact ⟨h, holds⟩
  | tail before step ih => exact ⟨ih.1.passes step, kept _ _ ih.1 step ih.2⟩

theorem Sound.happen (h : j.Sound) (turn : Turn) : (j.happen perform turn).Sound :=
  (h.keeps (P := fun _ => True) (fun _ _ _ _ _ => trivial) trivial turn fun _ _ _ => trivial).1

/-- What passages keep as long as the juncture is sound, a whole run keeps. -/
theorem Sound.run {P : Juncture → Prop} (kept : ∀ a b, a.Sound → Passes may a b → P a → P b)
    (h : j.Sound) (holds : P j) (turns : List Turn)
    (ok : ∀ event outer, .event event outer ∈ turns → may event) :
    (turns.foldl (Juncture.happen perform) j).Sound ∧
      P (turns.foldl (Juncture.happen perform) j) := by
  induction turns generalizing j with
  | nil => exact ⟨h, holds⟩
  | cons turn turns ih =>
    obtain ⟨sound, next⟩ := h.keeps kept holds turn fun event outer same =>
      ok event outer (same ▸ List.mem_cons_self)
    exact ih sound next fun event outer member => ok event outer (List.mem_cons_of_mem _ member)

end Juncture

end HomeScenes
