import HomeScenes.Proofs.Engine.History
import HomeScenes.Proofs.Engine.Stored

/-!
# Lineages

The lineage that a task carries is read off its parents: it lists the scenes of the firings
that led to the task, the first one first. No scene occurs in it twice, and a firing is not
among those that led to it. Therefore an action that runs a scene queues a firing unless that
would close a cycle or the scene cannot be read.
-/

namespace HomeScenes

def Duty.fired? : Duty → Option SceneId
  | .fire scene _ _ => some scene
  | _ => none

def Duty.lineage? : Duty → Option (List SceneId)
  | .fire _ lineage _ => some lineage
  | .act _ lineage => some lineage
  | .arrange _ => none

def Duty.runs? : Duty → Option (SceneId × List SceneId)
  | .act (.run scene) lineage => some (scene, lineage)
  | _ => none

theorem Duty.eq_run {d : Duty} {scene : SceneId} {lineage : List SceneId}
    (h : d.runs? = some (scene, lineage)) : d = .act (.run scene) lineage := by
  cases d with
  | act kind own =>
    cases kind with
    | run target =>
      cases h
      rfl
    | _ => cases h
  | _ => cases h

def Moment.seen (past : List (Moment × Event)) (m : Moment) : List EngineTask :=
  past.flatMap (fun p => p.1.engine.server.queue.tasks) ++ m.engine.server.queue.tasks

namespace Engine

/-- The tasks that led to a task by their ids as parents, the first one first. -/
inductive Descent (known : List EngineTask) : EngineTask → List EngineTask → Prop where
  | root {t : EngineTask} (first : t.handle.parent = none) : Descent known t []
  | child {t p : EngineTask} {chain : List EngineTask} (listed : p ∈ known)
      (parent : t.handle.parent = some p.id) (before : Descent known p chain) :
      Descent known t (chain ++ [p])

def firedScenes (chain : List EngineTask) : List SceneId :=
  chain.filterMap fun t => t.body.fired?

variable {known wider : List EngineTask} {t : EngineTask} {chain : List EngineTask} {m : Moment}
  {past : List (Moment × Event)}

theorem Descent.mono (h : Descent known t chain) (more : ∀ p ∈ known, p ∈ wider) :
    Descent wider t chain := by
  induction h with
  | root first => exact .root first
  | child listed parent before ih => exact .child (more _ listed) parent ih

/-- Where an id belongs to one task, a task has one chain of parents. -/
theorem Descent.unique {other : List EngineTask} (h : Descent known t chain)
    (distinct : ∀ p ∈ known, ∀ q ∈ known, p.id = q.id → p = q) (h' : Descent known t other) :
    chain = other := by
  induction h generalizing other with
  | root first =>
    cases h' with
    | root _ => rfl
    | child listed parent before =>
      rw [first] at parent
      cases parent
  | @child t p chain listed parent before ih =>
    cases h' with
    | root first =>
      rw [first] at parent
      cases parent
    | @child _ q _ listed' parent' before' =>
      have same : p.id = q.id := Option.some.inj (parent.symm.trans parent')
      obtain rfl := distinct p listed q listed' same
      rw [ih before']

/-- The lineage of a task is the list of the scenes that led to it, each of them once and none
of them its own. -/
def Traced (known : List EngineTask) (t : EngineTask) : Prop :=
  ∀ lineage, t.body.lineage? = some lineage →
    (∃ chain, Descent known t chain ∧ firedScenes chain = lineage) ∧ lineage.Nodup ∧
      ∀ scene, t.body.fired? = some scene → scene ∉ lineage

theorem Traced.mono (h : Traced known t) (more : ∀ p ∈ known, p ∈ wider) : Traced wider t := by
  intro lineage own
  obtain ⟨⟨chain, descent, scenes⟩, rest⟩ := h lineage own
  exact ⟨⟨chain, descent.mono more, scenes⟩, rest⟩

theorem traced_root {r : Errand} (root : r.Root) (id : Ticket) : Traced known (r.task id) := by
  obtain ⟨parent, scene, timed, duty⟩ := root
  intro lineage own
  have none : lineage = [] := by
    simp only [Errand.task, duty, Duty.lineage?, Option.some.injEq] at own
    exact own.symm
  subst none
  exact ⟨⟨[], .root parent, rfl⟩, List.nodup_nil, fun _ _ => List.not_mem_nil⟩

theorem traced_arrangement (time : LocalTime) (id : Ticket) :
    Traced known ((arrangement time).task id) := by
  rintro lineage ⟨⟩

/-- What a task queues as its child continues its lineage. -/
theorem Traced.child {e : Engine} {r : Errand} (h : Traced known t) (listed : t ∈ known)
    (keyed : e.scenes.Keyed) (child : Child e t.handle t.body r) (id : Ticket) :
    Traced known (r.task id) := by
  intro lineage own
  cases step : t.body with
  | arrange time =>
    rw [step] at child
    cases child
  | fire scene before timed =>
    obtain ⟨⟨chain, descent, scenes⟩, once, apart⟩ := h before (by rw [step]; rfl)
    have apart := apart scene (by rw [step]; rfl)
    rw [step] at child
    cases child with
    | action loaded action parent duty =>
      simp only [Errand.task, duty, Duty.lineage?, Option.some.injEq] at own
      subst own
      refine ⟨⟨chain ++ [t], .child listed parent descent, ?_⟩, ?_, ?_⟩
      · rw [← scenes]
        simp [firedScenes, step, Duty.fired?]
      · exact List.nodup_append.mpr ⟨once, List.nodup_singleton _, by
          rintro a ha b hb rfl
          exact apart (List.mem_singleton.mp hb ▸ ha)⟩
      · intro own fires
        simp only [Errand.task, duty, Duty.fired?] at fires
        cases fires
  | act kind before =>
    obtain ⟨⟨chain, descent, scenes⟩, once, -⟩ := h before (by rw [step]; rfl)
    rw [step] at child
    cases child with
    | @firing target _ s _ apart loaded parent duty =>
      have found := (loadScene_ok.mp loaded).2
      simp only [Errand.task, duty, Duty.lineage?, Option.some.injEq] at own
      subst own
      refine ⟨⟨chain ++ [t], .child listed parent descent, ?_⟩, once, ?_⟩
      · rw [← scenes]
        simp [firedScenes, step, Duty.fired?]
      · intro own fires
        simp only [Errand.task, duty, Duty.fired?, Option.some.injEq] at fires
        rw [← fires, keyed.id_eq found]
        exact apart

theorem traced_raises {event : Event} {r : Errand} (handed : ∀ t ∈ m.handed, t ∈ known)
    (traced : ∀ t ∈ known, Traced known t) (keyed : m.engine.scenes.Keyed)
    (raises : m.Raises event r) (id : Ticket) : Traced known (r.task id) := by
  cases raises with
  | root outer root => exact traced_root root id
  | opened opens => exact traced_arrangement _ id
  | sown found sows root => exact traced_root root id
  | next found duty => exact traced_arrangement _ id
  | child found child =>
    have listed := handed _ (List.mem_of_getElem? found)
    exact (traced _ listed).child listed keyed child id

/-- The tasks of a history are told apart by their ids, and each is traced. -/
structure Recorded (past : List (Moment × Event)) (m : Moment) : Prop where
  consistent : Consistent m.engine m.handed
  keyed : m.engine.scenes.Keyed
  issued : ∀ t ∈ m.seen past, t.id < m.engine.issued
  distinct : ∀ t ∈ m.seen past, ∀ u ∈ m.seen past, t.id = u.id → t = u
  handed : ∀ t ∈ m.handed, t ∈ m.seen past
  traced : ∀ t ∈ m.seen past, Traced (m.seen past) t

theorem mem_seen_happen {event : Event} : t ∈ (m.happen event).seen (past ++ [(m, event)]) ↔
    t ∈ m.seen past ∨ t ∈ (m.happen event).engine.server.queue.tasks := by
  simp [Moment.seen, or_assoc]

/-- A queued task was seen before, or it is new and has a new id. -/
theorem Recorded.seen_or_new (h : Recorded past m) {event : Event}
    (queued : t ∈ (m.happen event).engine.server.queue.tasks) : t ∈ m.seen past ∨
      ∃ r i, m.Raises event r ∧ m.engine.issued ≤ i ∧ t = r.task i := by
  rcases (grown_happen h.consistent event).tasks t queued with old | new
  · exact .inl (List.mem_append_right _ old)
  · exact .inr new

theorem Recorded.apart (h : Recorded past m) {event : Event} {u : EngineTask} (ht : t ∈ m.seen past)
    (queued : u ∈ (m.happen event).engine.server.queue.tasks) (id : t.id = u.id) : t = u := by
  rcases h.seen_or_new queued with old | ⟨r, i, -, later, rfl⟩
  · exact h.distinct t ht u old id
  · have before := h.issued t ht
    rw [id] at before
    exact absurd later (Nat.not_le.mpr before)

theorem Recorded.happen (h : Recorded past m) (event : Event) :
    Recorded (past ++ [(m, event)]) (m.happen event) := by
  have consistent := h.consistent.happen event
  have grown := grown_happen h.consistent event
  have more : ∀ t ∈ m.seen past, t ∈ (m.happen event).seen (past ++ [(m, event)]) :=
    fun t ht => mem_seen_happen.mpr (.inl ht)
  refine ⟨consistent, ?_, ?_, ?_, ?_, ?_⟩
  · exact keyed_storing.happen h.keyed fun _ _ => trivial
  · intro t ht
    rcases mem_seen_happen.mp ht with ht | ht
    · exact Nat.lt_of_lt_of_le (h.issued t ht) grown.later
    · exact consistent.issued t (List.mem_append_left _ ht)
  · intro t ht u hu id
    rcases mem_seen_happen.mp ht with ht | ht <;> rcases mem_seen_happen.mp hu with hu | hu
    · exact h.distinct t ht u hu id
    · exact h.apart ht hu id
    · exact (h.apart hu ht id.symm).symm
    · exact consistent.same (List.mem_append_left _ ht) (List.mem_append_left _ hu) id
  · intro t ht
    rcases handed_happen h.consistent event t ht with old | ⟨old, -⟩
    · exact more t (h.handed t old)
    · exact more t (List.mem_append_right _ old)
  · intro t ht
    rcases mem_seen_happen.mp ht with old | ht
    · exact (h.traced t old).mono more
    · rcases h.seen_or_new ht with old | ⟨r, i, raises, -, rfl⟩
      · exact (h.traced t old).mono more
      · exact (traced_raises h.handed h.traced h.keyed raises i).mono more

theorem recorded {settings : Settings} {clock : LocalTime} {scenes : SceneStore}
    {devices : DeviceStore} {network : Network} {journal : Journal Ticket}
    (stored : scenes.Reached) (history : Moment.History (fun _ _ => True)
      (Moment.fresh settings clock scenes devices network journal) past m) : Recorded past m := by
  induction history with
  | begin =>
    refine ⟨consistent_fresh _ _ _ _ _ _, stored.keyed, ?_, ?_, ?_, ?_⟩
    all_goals rintro t ⟨⟩
  | next before event ok ih => exact ih.happen event

/-- Running the action that runs a scene: with the scene in its lineage it fails and names the
whole lineage, otherwise it queues a firing of the scene as a child, if the scene can be read. -/
theorem run_runScene {place : Nat} {target : SceneId} {lineage : List SceneId}
    (found : m.handed[place]? = some t) (duty : t.body = .act (.run target) lineage) :
    (target ∈ lineage ∧ ((perform t).run m.engine).1 = .error (.cycle target lineage) ∧
      (m.runAt place).engine.server.queue = m.engine.server.queue) ∨
    (target ∉ lineage ∧ ∃ failure, m.engine.loadScene target = .error failure ∧
      ((perform t).run m.engine).1 = .error failure ∧
      (m.runAt place).engine.server.queue = m.engine.server.queue) ∨
    target ∉ lineage ∧ ∃ s, m.engine.loadScene target = .ok s ∧
      ((perform t).run m.engine).1 = .ok () ∧
      (m.runAt place).engine.server.queue.tasks.Perm
        ((firing s m.engine.now lineage false (some t.id)).task m.engine.issued ::
          m.engine.server.queue.tasks) := by
  have ran : (m.runAt place).engine = ((perform t).run m.engine).2 := by
    rw [Moment.runAt, found]
  obtain ⟨start, before, result, after⟩ := run_perform_body t m.engine
  obtain ⟨network, journal, entries, rfl⟩ := before
  generalize ((perform t).run m.engine).1 = answer at result ⊢
  rw [ran]
  generalize ((perform t).run m.engine).2 = r at after ⊢
  obtain ⟨network', journal', entries', rfl⟩ := after
  rw [duty] at result ⊢
  simp only [body, act, Work.change, Work.run, runScene_eq] at result ⊢
  by_cases cyclic : target ∈ lineage
  · simp only [if_pos cyclic] at result ⊢
    exact .inl ⟨cyclic, result, trivial⟩
  · have load : loadScene { m.engine with network := network, journal := journal, entries := entries }
        target = m.engine.loadScene target := rfl
    simp only [if_neg cyclic, load] at result ⊢
    cases loaded : m.engine.loadScene target with
    | error failure =>
      rw [loaded] at result
      exact .inr (.inl ⟨cyclic, failure, rfl, result, rfl⟩)
    | ok s =>
      rw [loaded] at result
      exact .inr (.inr ⟨cyclic, s, rfl, result, DueQueue.tasks_push m.engine.server.queue _⟩)

/-- A firing of a scene, queued as the child of an action that runs it. -/
def Pushed (before after : List EngineTask) (parent : Ticket) (target : SceneId)
    (lineage : List SceneId) : Prop :=
  ∃ u, after.Perm (u :: before) ∧ u.body = .fire target lineage false ∧
    u.handle.parent = some parent

theorem not_pushed {ts : List EngineTask} {parent : Ticket} {target : SceneId}
    {lineage : List SceneId} : ¬ Pushed ts ts parent target lineage := by
  rintro ⟨u, perm, -⟩
  have length := perm.length_eq
  rw [List.length_cons] at length
  omega

def Readable (e : Engine) (scene : SceneId) : Prop :=
  e.outages.scenes = none ∧ ∃ s, e.scenes.get? scene false = some s

theorem run_runScene_iff (keyed : m.engine.scenes.Keyed) {place : Nat} {target : SceneId}
    {lineage : List SceneId} (found : m.handed[place]? = some t)
    (duty : t.body = .act (.run target) lineage) :
    let before := m.engine.server.queue.tasks
    let after := (m.runAt place).engine.server.queue.tasks
    (Pushed before after t.id target lineage ↔ target ∉ lineage ∧ m.engine.Readable target) ∧
    (target ∈ lineage → ((perform t).run m.engine).1 = .error (.cycle target lineage)) ∧
    (target ∈ lineage ∨ ¬ m.engine.Readable target → after = before) := by
  intro before after
  rcases run_runScene found duty with ⟨cyclic, result, same⟩ | ⟨apart, failure, failed, -, same⟩ |
    ⟨apart, s, loaded, -, queued⟩
  · have same : after = before := congrArg DueQueue.tasks same
    refine ⟨?_, fun _ => result, fun _ => same⟩
    rw [same]
    exact ⟨fun pushed => absurd pushed not_pushed, fun h => absurd cyclic h.1⟩
  · have same : after = before := congrArg DueQueue.tasks same
    have unreadable : ¬ m.engine.Readable target := by
      rintro ⟨working, s, found⟩
      rw [loadScene_ok.mpr ⟨working, found⟩] at failed
      cases failed
    refine ⟨?_, fun cyclic => absurd cyclic apart, fun _ => same⟩
    rw [same]
    exact ⟨fun pushed => absurd pushed not_pushed, fun h => absurd h.2 unreadable⟩
  · obtain ⟨working, found⟩ := loadScene_ok.mp loaded
    have readable : m.engine.Readable target := ⟨working, s, found⟩
    have body : ((firing s m.engine.now lineage false (some t.id)).task m.engine.issued).body =
        .fire target lineage false := by
      rw [← keyed.id_eq found]
      rfl
    refine ⟨⟨fun _ => ⟨apart, readable⟩, fun _ => ⟨_, queued, body, rfl⟩⟩, ?_, ?_⟩
    · exact fun cyclic => absurd cyclic apart
    · rintro (cyclic | unreadable)
      · exact absurd cyclic apart
      · exact absurd readable unreadable

/-- In every state that an engine reaches, the lineage of a task lists the scenes of the firings
that led to it, each once. So running a scene queues a firing of it exactly if the scene did not
lead to the action and can be read, and fails for a cycle if it did. -/
theorem lineage_is_ancestry {settings : Settings} {clock : LocalTime} {scenes : SceneStore}
    {devices : DeviceStore} {network : Network} {journal : Journal Ticket}
    (stored : scenes.Reached) (history : Moment.History (fun _ _ => True)
      (Moment.fresh settings clock scenes devices network journal) past m) :
    (∀ t ∈ m.engine.server.queue.tasks ++ m.handed, ∀ lineage, t.body.lineage? = some lineage →
      (∃ chain, Descent (m.seen past) t chain ∧
        (∀ other, Descent (m.seen past) t other → other = chain) ∧ firedScenes chain = lineage) ∧
      lineage.Nodup ∧ ∀ scene, t.body.fired? = some scene → scene ∉ lineage) ∧
    ∀ place t target lineage, m.handed[place]? = some t → t.body = .act (.run target) lineage →
      let before := m.engine.server.queue.tasks
      let after := (m.runAt place).engine.server.queue.tasks
      (Pushed before after t.id target lineage ↔ target ∉ lineage ∧ m.engine.Readable target) ∧
      (target ∈ lineage → ((perform t).run m.engine).1 = .error (.cycle target lineage)) ∧
      (target ∈ lineage ∨ ¬ m.engine.Readable target → after = before) := by
  have recorded := recorded stored history
  constructor
  · intro t ht lineage own
    have listed : t ∈ m.seen past := by
      rcases List.mem_append.mp ht with ht | ht
      · exact List.mem_append_right _ ht
      · exact recorded.handed t ht
    obtain ⟨⟨chain, descent, scenes⟩, rest⟩ := recorded.traced t listed lineage own
    have only : ∀ other, Descent (m.seen past) t other → other = chain :=
      fun other h => h.unique recorded.distinct descent
    exact ⟨⟨chain, descent, only, scenes⟩, rest⟩
  · intro place t target lineage found duty
    exact run_runScene_iff recorded.keyed found duty

/-- Two scenes that run each other: the second action closes the circle. -/
theorem lineage_is_ancestry_circle :
    let a : SceneId := ⟨.ofNat 1⟩
    let b : SceneId := ⟨.ofNat 2⟩
    let events := [.move (.save (relay a b)), .move (.save (relay b a)),
      .move (.addScene (relay a b)), .move .tick, .move (.run 0), .move .tick, .move (.run 0),
      .move .tick, .move (.run 0), .move .tick]
    let first := Moment.fresh {} ⟨⟨0, .midnight⟩, 0⟩ {} {} default default
    let m := events.foldl Moment.happen first
    ∃ t, m.handed[0]? = some t ∧ t.body = .act (.run a) [a, b] ∧
      ((perform t).run m.engine).1 = .error (.cycle a [a, b]) ∧
      (m.runAt 0).engine.server.queue.tasks = m.engine.server.queue.tasks := by
  intro a b events first m
  have out : (m.handed[0]?.bind fun t => t.body.runs?) = some (a, [a, b]) := by decide +kernel
  obtain ⟨t, found, runs⟩ := Option.bind_eq_some_iff.mp out
  have duty := Duty.eq_run runs
  obtain ⟨past, history⟩ : ∃ past, Moment.History (fun _ _ => True) first past m :=
    Moment.History.begin.append events fun _ _ _ => trivial
  obtain ⟨-, fails, still⟩ := (lineage_is_ancestry (m := m) .empty history).2 0 t a [a, b] found duty
  have cyclic : a ∈ [a, b] := List.mem_cons_self
  exact ⟨t, found, duty, fails cyclic, still (.inl cyclic)⟩

end Engine

end HomeScenes
