import HomeScenes.Proofs.Dispatch.Server
import HomeScenes.Proofs.Engine.Effects
import HomeScenes.Proofs.Engine.Errands
import HomeScenes.Proofs.Engine.Moves
import Mathlib.Data.List.Perm.Basic

/-!
# What the operations are made of

Apart from the clock, from handing out and from arrangements, the engine touches queue and
index in two ways only: it queues errands, and it drops the timer firings of a scene. What
these two keep, and also the changes of stored scenes that go with them, every operation
keeps.
-/

namespace HomeScenes

/-- Neither time passes nor is a task handed out or run, nor a scene stored. -/
def Move.Outer : Move → Prop
  | .save _ => False
  | .advance _ => False
  | .tick => False
  | .run _ => False
  | _ => True

namespace Engine

/-- Taking tasks out one by one; the count of those that were queued is left aside. -/
theorem removeTasks_eq (e : Engine) (ids : List Ticket) : (e.removeTasks ids).2 =
    ids.foldl (fun e id => { e with server := (e.server.remove id).2 }) e :=
  (List.foldl_hom Prod.snd fun _ _ => rfl).symm

theorem removeTasks_frame (e : Engine) (ids : List Ticket) :
    (e.removeTasks ids).2 = { e with server := (e.removeTasks ids).2.server } := by
  rw [removeTasks_eq]
  induction ids generalizing e with
  | nil => rfl
  | cons id ids ih => exact ih _

theorem dropFirings_frame (e : Engine) (scene : SceneId) : (e.dropFirings scene).2 =
    { e with
      server := (e.dropFirings scene).2.server
      pending := e.pending.erase scene } :=
  removeTasks_frame _ _

theorem forgetPending_frame (e : Engine) (scene : SceneId) (task : Ticket) :
    e.forgetPending scene task =
      { e with pending := (e.forgetPending scene task).pending } := by
  rw [forgetPending]
  split <;> rfl

/-- A property of engines that is kept when the timer firings of a scene are dropped, when a scene
is armed, disarmed or deleted, and whatever happens to devices and the journal. -/
structure Settled (P : Engine → Prop) : Prop where
  drop : ∀ {e : Engine} (scene : SceneId), P e → P (e.dropFirings scene).2
  armed : ∀ {e : Engine} {scene : SceneId} {armed : Bool} {scenes : SceneStore}, P e →
    e.scenes.setArmed scene armed = .ok scenes → P { e with scenes := scenes }
  deleted : ∀ {e : Engine} {scene : SceneId} {now : Instant} {scenes : SceneStore}, P e →
    e.scenes.softDelete scene now = .ok scenes → P { e with scenes := scenes }
  aside : ∀ {e : Engine}, P e → ∀ devices network journal entries,
    P { e with devices := devices, network := network, journal := journal, entries := entries }

/-- Such a property that is kept when a firing is queued that no task has led to. -/
structure Rooted (P : Engine → Prop) : Prop extends Settled P where
  root : ∀ {e : Engine} {r : Errand}, r.Root → P e → P (e.enqueue r)

/-- Such a property that is kept whatever is queued but an arrangement. -/
structure Stable (P : Engine → Prop) : Prop extends Rooted P where
  enqueue : ∀ {e : Engine} {r : Errand}, r.duty.arrangement? = none → P e → P (e.enqueue r)
  root := fun h => enqueue h.no_arrangement

variable {P : Engine → Prop} {e r : Engine}

theorem Rooted.enqueueAll (st : Rooted P) (h : P e) {rs : List Errand}
    (roots : ∀ r ∈ rs, r.Root) : P (e.enqueueAll rs) :=
  enqueueAll_keeps st.root h roots

theorem Stable.enqueueAll (st : Stable P) (h : P e) {rs : List Errand}
    (others : ∀ r ∈ rs, r.duty.arrangement? = none) : P (e.enqueueAll rs) :=
  enqueueAll_keeps st.enqueue h others

theorem Settled.beside (st : Settled P) (h : P e) (near : Beside e r) : P r := by
  obtain ⟨network, journal, entries, rfl⟩ := near
  exact st.aside h e.devices network journal entries

theorem Rooted.addScene (st : Rooted P) (h : P e) (s : Scene) : P (e.addScene s).2 := by
  rw [addScene_eq]
  exact st.enqueueAll h sceneFirings_root

theorem Rooted.addForDay (st : Rooted P) (h : P e) (day : LocalTime) : P (e.addForDay day).2 := by
  cases working : e.outages.scenes with
  | none =>
    rw [addForDay_eq e day working]
    exact st.enqueueAll h dayFirings_root
  | some failure =>
    rw [Engine.addForDay, working]
    exact h

theorem Rooted.deviceChanged (st : Rooted P) (h : P e) (device : DeviceId) (attr : AttributeRef) :
    P (e.deviceChanged device attr).2 := by
  cases working : e.outages.scenes with
  | none =>
    rw [deviceChanged_eq e device attr working]
    exact st.enqueueAll h changeFirings_root
  | some failure =>
    rw [Engine.deviceChanged, working]
    exact h

theorem Settled.setArmed (st : Settled P) (h : P e) (scene : SceneId) (armed : Bool) :
    P (e.setArmed scene armed).2 := by
  rw [Engine.setArmed]
  split
  · exact h
  · cases set : e.scenes.setArmed scene armed with
    | error failure => exact h
    | ok scenes => exact st.armed h set

theorem Rooted.restart (st : Rooted P) (h : P e) (scene : SceneId) : P (e.restart scene).2 := by
  have dropped := st.drop scene h
  simp only [Engine.restart]
  split
  · exact dropped
  · split
    · exact st.addScene dropped _
    · exact dropped

theorem Rooted.arm (st : Rooted P) (h : P e) (scene : SceneId) : P (e.arm scene).2 := by
  have armed := st.setArmed h scene true
  rw [Engine.arm]
  split
  · rename_i failure r failed
    rw [failed] at armed
    exact armed
  · rename_i done r set
    rw [set] at armed
    split
    · exact armed
    · dsimp only
      split
      · exact st.addScene (st.drop scene armed) _
      · exact armed

theorem Settled.disarm (st : Settled P) (h : P e) (scene : SceneId) : P (e.disarm scene).2 :=
  st.setArmed (st.drop scene h) scene false

theorem Settled.deleteScene (st : Settled P) (h : P e) (scene : SceneId) :
    P (e.deleteScene scene).2 := by
  rw [Engine.deleteScene, changeScenes]
  split
  · exact h
  · cases deleted : e.scenes.softDelete scene e.now with
    | error failure => exact h
    | ok scenes => exact st.deleted h deleted

theorem Settled.deleteDevice (st : Settled P) (h : P e) (device : DeviceId) :
    P (e.deleteDevice device).2 := by
  rw [Engine.deleteDevice]
  split
  · exact h
  · split
    · exact h
    · exact st.aside h _ e.network e.journal e.entries

theorem loadScene_ok {scene : SceneId} {s : Scene} : e.loadScene scene = .ok s ↔
    e.outages.scenes = none ∧ e.scenes.get? scene false = some s := by
  rw [loadScene, readScene]
  cases e.outages.scenes with
  | some failure => simp
  | none => cases e.scenes.get? scene false <;> simp

/-- What a task may queue as a child of its own: a firing the actions of its scene, and an action
that runs a scene which did not lead to it a firing of that scene. -/
inductive Child (e : Engine) (handle : Handle Ticket) : Duty → Errand → Prop where
  | action {scene : SceneId} {lineage : List SceneId} {timed : Bool} {s : Scene} {a : Action}
      {r : Errand} (loaded : e.loadScene scene = .ok s) (listed : a ∈ s.actions)
      (parent : r.parent = some handle.id) (duty : r.duty = .act a.kind (lineage ++ [scene])) :
      Child e handle (.fire scene lineage timed) r
  | firing {scene : SceneId} {lineage : List SceneId} {s : Scene} {r : Errand}
      (apart : scene ∉ lineage) (loaded : e.loadScene scene = .ok s)
      (parent : r.parent = some handle.id) (duty : r.duty = .fire s.id lineage false) :
      Child e handle (.act (.run scene) lineage) r

/-- A child is neither a timer firing nor an arrangement. -/
theorem Child.plain {handle : Handle Ticket} {d : Duty} {r : Errand} (h : Child e handle d r) :
    r.duty.timer? = none ∧ r.duty.arrangement? = none := by
  cases h with
  | action loaded listed parent duty =>
    rw [duty]
    exact ⟨rfl, rfl⟩
  | firing apart loaded parent duty =>
    rw [duty]
    exact ⟨rfl, rfl⟩

theorem fanOut_children {scene : SceneId} {lineage : List SceneId} {timed : Bool} {s : Scene}
    (handle : Handle Ticket) (loaded : e.loadScene scene = .ok s) :
    ∀ r ∈ s.actions.filterMap (e.errand? e.now (lineage ++ [scene]) handle.id),
      Child e handle (.fire scene lineage timed) r := by
  intro r hr
  obtain ⟨a, listed, queued⟩ := List.mem_filterMap.mp hr
  obtain ⟨target, -, rfl⟩ := Option.map_eq_some_iff.mp queued
  exact .action loaded listed rfl rfl

/-- Running a scene queues a firing of it, or the scene led to the action or cannot be read. -/
theorem runScene_eq (e : Engine) (handle : Handle Ticket) (scene : SceneId)
    (lineage : List SceneId) : e.runScene handle scene lineage =
      if scene ∈ lineage then (.error (.cycle scene lineage), e)
      else match e.loadScene scene with
        | .error failure => (.error failure, e)
        | .ok s => (.ok (), e.enqueue (firing s e.now lineage false (some handle.id))) := by
  by_cases cyclic : scene ∈ lineage
  · simp [runScene, cyclic]
  · cases loaded : e.loadScene scene with
    | error failure => simp [runScene, cyclic, loaded]
    | ok s => simp [runScene, cyclic, loaded, pushFiring_eq]

/-- Any duty but an arrangement queues children, after its own firing left the index, or it arms
or disarms a scene. -/
theorem effect_cases (e : Engine) (handle : Handle Ticket) (yes : Bool) {d : Duty}
    (other : d.arrangement? = none) :
    (∃ scene lineage timed rs, d = .fire scene lineage timed ∧ (∀ r ∈ rs, Child e handle d r) ∧
      e.effect handle yes d = (e.forgetPending scene handle.id).enqueueAll rs) ∨
    (∃ kind lineage rs, d = .act kind lineage ∧ (∀ r ∈ rs, Child e handle d r) ∧
      e.effect handle yes d = e.enqueueAll rs) ∨
    (∃ scene lineage, d = .act (.enable scene) lineage ∧
      e.effect handle yes d = (e.arm scene).2) ∨
    ∃ scene lineage, d = .act (.disable scene) lineage ∧
      e.effect handle yes d = (e.disarm scene).2 := by
  have nothing : ∀ r ∈ [], Child e handle d r := fun r hr => absurd hr List.not_mem_nil
  cases d with
  | fire scene lineage timed =>
    suffices h : ∃ rs, (∀ r ∈ rs, Child e handle (.fire scene lineage timed) r) ∧
        e.effect handle yes (.fire scene lineage timed) =
          (e.forgetPending scene handle.id).enqueueAll rs by
      obtain ⟨rs, children, same⟩ := h
      exact .inl ⟨scene, lineage, timed, rs, rfl, children, same⟩
    have frame := forgetPending_frame e scene handle.id
    have load : (e.forgetPending scene handle.id).loadScene scene = e.loadScene scene := by
      rw [frame]
      rfl
    simp only [effect, load]
    split
    · exact ⟨[], nothing, rfl⟩
    · rename_i s loaded
      split
      · refine ⟨_, fanOut_children handle loaded, ?_⟩
        rw [fanOut_eq, frame]
        rfl
      · exact ⟨[], nothing, rfl⟩
  | act kind lineage =>
    cases kind with
    | control device commands => exact .inr (.inl ⟨_, lineage, [], rfl, nothing, rfl⟩)
    | run scene =>
      suffices h : ∃ rs, (∀ r ∈ rs, Child e handle (.act (.run scene) lineage) r) ∧
          e.effect handle yes (.act (.run scene) lineage) = e.enqueueAll rs by
        obtain ⟨rs, children, same⟩ := h
        exact .inr (.inl ⟨_, lineage, rs, rfl, children, same⟩)
      simp only [effect, runScene_eq]
      split
      · exact ⟨[], nothing, rfl⟩
      · rename_i apart
        split
        · exact ⟨[], nothing, rfl⟩
        · rename_i s loaded
          refine ⟨[_], fun r hr => ?_, rfl⟩
          rw [List.mem_singleton.mp hr]
          exact .firing apart loaded rfl rfl
    | enable scene => exact .inr (.inr (.inl ⟨scene, lineage, rfl, rfl⟩))
    | disable scene => exact .inr (.inr (.inr ⟨scene, lineage, rfl, rfl⟩))
  | arrange time => cases other

/-- Any duty but an arrangement; a firing has to leave the index first. -/
theorem Stable.effect (st : Stable P) {d : Duty} (handle : Handle Ticket) (yes : Bool)
    (other : d.arrangement? = none)
    (fired : ∀ scene lineage timed, d = .fire scene lineage timed →
      P (e.forgetPending scene handle.id))
    (acted : ∀ kind lineage, d = .act kind lineage → P e) : P (e.effect handle yes d) := by
  rcases effect_cases e handle yes other with ⟨scene, lineage, timed, rs, duty, children, effect⟩ |
    ⟨kind, lineage, rs, duty, children, effect⟩ | ⟨scene, lineage, duty, effect⟩ |
    ⟨scene, lineage, duty, effect⟩
  · rw [effect]
    exact st.enqueueAll (fired scene lineage timed duty) fun r hr => (children r hr).plain.2
  · rw [effect]
    exact st.enqueueAll (acted kind lineage duty) fun r hr => (children r hr).plain.2
  · rw [effect]
    exact st.arm (acted _ lineage duty) scene
  · rw [effect]
    exact st.disarm (acted _ lineage duty) scene

theorem Rooted.apply (st : Rooted P) {m : Moment} (h : P m.engine) {move : Move}
    (outer : move.Outer) : P (m.apply move).engine ∧ (m.apply move).handed = m.handed := by
  cases move with
  | addScene s => exact ⟨st.addScene h s, rfl⟩
  | addById scene =>
    refine ⟨?_, rfl⟩
    simp only [Moment.apply, addSceneById]
    split
    · exact h
    · exact st.addScene h _
  | addForDay day => exact ⟨st.addForDay h day, rfl⟩
  | drop scene => exact ⟨st.drop scene h, rfl⟩
  | restart scene => exact ⟨st.restart h scene, rfl⟩
  | arm scene => exact ⟨st.arm h scene, rfl⟩
  | disarm scene => exact ⟨st.disarm h scene, rfl⟩
  | change device attr => exact ⟨st.deviceChanged h device attr, rfl⟩
  | deleteScene scene => exact ⟨st.deleteScene h scene, rfl⟩
  | deleteDevice device => exact ⟨st.deleteDevice h device, rfl⟩
  | network network => exact ⟨st.aside h m.engine.devices network m.engine.journal m.engine.entries, rfl⟩
  | save s => exact outer.elim
  | advance utc => exact outer.elim
  | tick => exact outer.elim
  | run place => exact outer.elim

/-- What handing out comes to: a task that is due and before which none is due, or nothing. -/
theorem handOut_cases {m : Moment} (hv : m.engine.server.queue.Valid) :
    ∃ server, server.queue.Valid ∧
      ((m.handOut = ⟨{ m.engine with server := server }, m.handed⟩ ∧
          server.queue.tasks.Perm m.engine.server.queue.tasks ∧
          ∀ t ∈ m.engine.server.queue.tasks, m.engine.now < t.due) ∨
        ∃ t, m.handOut = ⟨{ m.engine with server := server }, m.handed ++ [t]⟩ ∧
          m.engine.server.queue.tasks.Perm (t :: server.queue.tasks) ∧ t.due ≤ m.engine.now ∧
          ∀ u ∈ m.engine.server.queue.tasks, t.due ≤ u.due) := by
  have look := Dispatch.Server.look_tick hv m.engine.now
  rw [Moment.handOut]
  generalize m.engine.server.tick m.engine.now = r at look
  obtain ⟨answer, server⟩ := r
  cases look with
  | idle empty =>
    refine ⟨m.engine.server, hv, .inl ⟨rfl, .refl _, fun t ht => ?_⟩⟩
    rw [empty] at ht
    cases ht
  | wait valid same later => exact ⟨server, valid, .inl ⟨rfl, same, later⟩⟩
  | ready valid taken due first => exact ⟨server, valid, .inr ⟨_, rfl, taken, due, first⟩⟩

theorem runAt_none {m : Moment} {place : Nat} (h : m.handed[place]? = none) : m.runAt place = m := by
  rw [Moment.runAt, h]

theorem saveScene_frame (e : Engine) (s : Scene) :
    ∃ scenes, (e.saveScene s).2 = { e with scenes := scenes } := by
  rw [saveScene, changeScenes]
  split
  · exact ⟨e.scenes, rfl⟩
  · split
    · exact ⟨e.scenes, rfl⟩
    · exact ⟨_, rfl⟩

theorem picked_perm {α : Type} {items : List α} {place : Nat} {item : α}
    (found : items[place]? = some item) : items.Perm (item :: items.eraseIdx place) := by
  obtain ⟨inside, rfl⟩ := List.getElem?_eq_some_iff.mp found
  exact (List.getElem_cons_eraseIdx_perm inside).symm

/-- A run of a task that was handed out, told by the effect of its duty. -/
theorem runAt_effect {m : Moment} {place : Nat} {t : EngineTask} (found : m.handed[place]? = some t) :
    m.handed.Perm (t :: m.handed.eraseIdx place) ∧
      (m.runAt place).handed = m.handed.eraseIdx place ∧
      ∃ start yes, Beside m.engine start ∧
        Beside (start.effect t.handle yes t.body) (m.runAt place).engine := by
  refine ⟨picked_perm found, ?_, ?_⟩
  · rw [Moment.runAt, found]
  · rw [Moment.runAt, found]
    exact run_perform t m.engine

structure Lasting (P : Engine → Prop) : Prop where
  queue : ∀ {e : Engine}, P e → ∀ server pending issued,
    P { e with server := server, pending := pending, issued := issued }
  armed : ∀ {e : Engine} {scene : SceneId} {armed : Bool} {scenes : SceneStore}, P e →
    e.scenes.setArmed scene armed = .ok scenes → P { e with scenes := scenes }
  deleted : ∀ {e : Engine} {scene : SceneId} {now : Instant} {scenes : SceneStore}, P e →
    e.scenes.softDelete scene now = .ok scenes → P { e with scenes := scenes }
  aside : ∀ {e : Engine}, P e → ∀ devices network journal entries,
    P { e with devices := devices, network := network, journal := journal, entries := entries }

theorem Lasting.stable (lasting : Lasting P) : Stable P where
  enqueue _ h := lasting.queue h _ _ _
  drop {e} scene h := by
    rw [dropFirings_frame]
    exact lasting.queue h _ _ e.issued
  armed h set := lasting.armed h set
  deleted h gone := lasting.deleted h gone
  aside h := lasting.aside h

theorem Lasting.effect (lasting : Lasting P) (h : P e) (handle : Handle Ticket) (yes : Bool)
    (d : Duty) : P (e.effect handle yes d) := by
  have stable := lasting.stable
  cases own : d.arrangement? with
  | none =>
    refine stable.effect handle yes own (fun scene lineage timed _ => ?_) fun _ _ _ => h
    rw [forgetPending_frame]
    exact lasting.queue h e.server _ e.issued
  | some time =>
    rw [Duty.eq_arrange own]
    exact stable.addForDay (lasting.queue h _ _ _) _

theorem Lasting.runAt (lasting : Lasting P) {m : Moment} (h : P m.engine) (place : Nat) :
    P (m.runAt place).engine := by
  cases found : m.handed[place]? with
  | none =>
    rw [runAt_none found]
    exact h
  | some t =>
    obtain ⟨-, -, start, yes, before, after⟩ := runAt_effect found
    have stable := lasting.stable
    exact stable.beside (lasting.effect (stable.beside h before) t.handle yes t.body) after

theorem Lasting.apply (lasting : Lasting P) {m : Moment} (h : P m.engine) {move : Move}
    (noSave : ∀ s, move ≠ .save s) (still : ∀ utc, move ≠ .advance utc) :
    P (m.apply move).engine := by
  by_cases outer : move.Outer
  · exact (lasting.stable.apply h outer).1
  · cases move with
    | save s => exact absurd rfl (noSave s)
    | advance utc => exact absurd rfl (still utc)
    | tick =>
      rw [Moment.apply, Moment.handOut]
      split <;> exact lasting.queue h _ m.engine.pending m.engine.issued
    | run place => exact lasting.runAt h place
    | _ => exact absurd trivial outer

/-- Only the clock itself moves the clock. -/
theorem clock_lasting (clock : LocalTime) : Lasting fun e => e.clock = clock where
  queue h _ _ _ := h
  armed h _ := h
  deleted h _ := h
  aside h _ _ _ _ := h

end Engine

namespace Moment

variable (settings : Engine.Settings) (clock : LocalTime) (scenes : SceneStore)
  (devices : DeviceStore) (network : Network) (journal : Journal Ticket)

/-- The engine as it was before it queued the firings of the day and the arrangement. -/
theorem started_engine : (started settings clock scenes devices network journal).engine =
    (Engine.ofParts settings clock scenes devices network journal).enqueueAll
      (Engine.dayFirings scenes clock clock ++
        [Engine.arrangement (clock.onSameDay settings.arrangeAt)]) := by
  rw [started, Engine.start_eq _ rfl]
  rfl

@[simp] theorem started_settings :
    (started settings clock scenes devices network journal).engine.settings = settings := by
  rw [started_engine, Engine.enqueueAll_settings]
  rfl

@[simp] theorem started_clock :
    (started settings clock scenes devices network journal).engine.clock = clock := by
  rw [started_engine, Engine.enqueueAll_clock]
  rfl

@[simp] theorem started_scenes :
    (started settings clock scenes devices network journal).engine.scenes = scenes := by
  rw [started_engine, Engine.enqueueAll_scenes]
  rfl

end Moment

end HomeScenes
