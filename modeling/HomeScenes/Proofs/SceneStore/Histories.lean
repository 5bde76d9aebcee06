import HomeScenes.Proofs.SceneStore
import HomeScenes.Proofs.Scene.Drafts

/-!
# Histories of a store

A store is asked to save, delete and arm scenes, in any order. A request that fails leaves the store
as it is; one that is granted changes what is stored under one id, by arming and deleting in one
field. The record of a deleted scene stays as it is until a scene is saved under that id: it can be
read on request, but nothing else shows it, and it can be neither armed, disarmed nor deleted.
-/

namespace HomeScenes.SceneStore

inductive Request where
  | save (scene : Scene)
  | softDelete (id : SceneId) (now : Instant)
  | setArmed (id : SceneId) (armed : Bool)

def ask (s : SceneStore) : Request → Except Failure SceneStore
  | .save scene => s.save scene
  | .softDelete id now => s.softDelete id now
  | .setArmed id armed => s.setArmed id armed

def serve (s : SceneStore) (request : Request) : Except Failure Unit × SceneStore :=
  match s.ask request with
  | .ok after => (.ok (), after)
  | .error failure => (.error failure, s)

def play (s : SceneStore) (requests : List Request) : SceneStore :=
  requests.foldl (fun s request => (s.serve request).2) s

/-- A request is refused with a failure: an invalid scene with the rule that it breaks, and a scene
that is missing or deleted with its id. -/
def Refuses (s : SceneStore) : Request → Failure → Prop
  | .save scene, failure => ∃ cause, scene.validate = .error cause ∧ failure = .invalid cause
  | .softDelete id _, failure => s.get? id false = none ∧ failure = .missingScene id
  | .setArmed id _, failure => s.get? id false = none ∧ failure = .missingScene id

/-- What is stored under an id after a request that was granted. -/
def Request.stored (id : SceneId) (before : Option Scene) : Request → Option Scene
  | save scene => if id = scene.id then some scene else before
  | softDelete own now =>
    if id = own then before.map fun scene => { scene with deletedAt := some now } else before
  | setArmed own armed =>
    if id = own then before.map fun scene => { scene with armed := armed } else before

def Request.Spares (id : SceneId) : Request → Prop
  | save scene => scene.id = id → ¬ scene.Valid
  | softDelete _ _ => True
  | setArmed _ _ => True

/-- No scene is shown under the id, and none can be armed, disarmed or deleted. -/
structure Gone (s : SceneStore) (id : SceneId) : Prop where
  unread : s.get? id false = none
  unlisted : ∀ scene ∈ s.list false, scene.id ≠ id
  unarmed : ∀ weekday, ∀ scene ∈ s.armedFor weekday, scene.id ≠ id
  unwatching : ∀ device attr, ∀ scene ∈ s.watching device attr, scene.id ≠ id
  unarmable : ∀ armed, s.serve (.setArmed id armed) = (.error (.missingScene id), s)
  undeletable : ∀ now, s.serve (.softDelete id now) = (.error (.missingScene id), s)

variable {s r : SceneStore} {id : SceneId} {request : Request}

theorem Reached.ask (h : s.Reached) (granted : s.ask request = .ok r) : r.Reached := by
  cases request with
  | save scene => exact h.save scene granted
  | softDelete own now => exact h.softDelete own now granted
  | setArmed own armed => exact h.setArmed own armed granted

theorem ask_error_iff {failure : Failure} :
    s.ask request = .error failure ↔ s.Refuses request failure := by
  cases request with
  | save scene =>
    rw [ask, save, Refuses]
    cases scene.validate <;> simp [eq_comm]
  | softDelete own now =>
    rw [ask, softDelete, Refuses]
    cases s.get? own false <;> simp [eq_comm]
  | setArmed own armed =>
    rw [ask, setArmed, Refuses]
    cases s.get? own false <;> simp [eq_comm]

theorem find?_ask (granted : s.ask request = .ok r) (id : SceneId) :
    r.scenes.find? id = request.stored id (s.scenes.find? id) := by
  cases request with
  | save scene =>
    obtain ⟨-, rfl⟩ := save_ok_iff.mp granted
    exact Table.find?_set ..
  | softDelete own now =>
    obtain rfl := softDelete_eq granted
    exact Table.find?_modify ..
  | setArmed own armed =>
    obtain ⟨-, rfl⟩ := setArmed_eq granted
    exact Table.find?_modify ..

/-- What is missing or deleted stays as it is unless a scene is saved in its place. -/
theorem find?_ask_of_gone (gone : s.get? id false = none) (spares : request.Spares id)
    (granted : s.ask request = .ok r) : r.scenes.find? id = s.scenes.find? id := by
  rw [find?_ask granted]
  have never : ∀ failure, ¬ s.Refuses request failure := by
    intro failure refused
    rw [ask_error_iff.mpr refused] at granted
    cases granted
  cases request with
  | save scene => exact if_neg fun own => spares own.symm (save_ok_iff.mp granted).1
  | softDelete own now =>
    refine if_neg fun same => never _ ⟨?_, rfl⟩
    rw [← same]
    exact gone
  | setArmed own armed =>
    refine if_neg fun same => never _ ⟨?_, rfl⟩
    rw [← same]
    exact gone

theorem serve_cases (s : SceneStore) (request : Request) :
    (∃ r, s.ask request = .ok r ∧ s.serve request = (.ok (), r)) ∨
      ∃ failure, s.ask request = .error failure ∧ s.serve request = (.error failure, s) := by
  rw [serve]
  cases answer : s.ask request with
  | ok r => exact .inl ⟨r, rfl, rfl⟩
  | error failure => exact .inr ⟨failure, rfl, rfl⟩

theorem serve_error_iff {failure : Failure} :
    (s.serve request).1 = .error failure ↔ s.Refuses request failure := by
  rw [← ask_error_iff, serve]
  cases s.ask request <;> simp

theorem serve_of_refuses {failure : Failure} (refused : s.Refuses request failure) :
    s.serve request = (.error failure, s) := by
  rw [serve, ask_error_iff.mpr refused]

theorem find?_serve (granted : (s.serve request).1 = .ok ()) (id : SceneId) :
    (s.serve request).2.scenes.find? id = request.stored id (s.scenes.find? id) := by
  obtain ⟨r, answer, served⟩ | ⟨failure, -, served⟩ := s.serve_cases request
  · rw [served]
    exact find?_ask answer id
  · rw [served] at granted
    cases granted

theorem Reached.play (h : s.Reached) (requests : List Request) : (s.play requests).Reached := by
  induction requests generalizing s with
  | nil => exact h
  | cons request requests ih =>
    refine ih (s := (s.serve request).2) ?_
    obtain ⟨r, answer, served⟩ | ⟨failure, -, served⟩ := s.serve_cases request
    · rw [served]
      exact h.ask answer
    · rw [served]
      exact h

theorem find?_play_of_gone (gone : s.get? id false = none) {requests : List Request}
    (spare : ∀ request ∈ requests, request.Spares id) :
    (s.play requests).scenes.find? id = s.scenes.find? id := by
  induction requests generalizing s with
  | nil => rfl
  | cons request requests ih =>
    obtain ⟨spares, spare⟩ := List.forall_mem_cons.mp spare
    have same : (s.serve request).2.scenes.find? id = s.scenes.find? id := by
      obtain ⟨r, answer, served⟩ | ⟨failure, -, served⟩ := s.serve_cases request
      · rw [served]
        exact find?_ask_of_gone gone spares answer
      · rw [served]
    have still : (s.serve request).2.get? id false = none := by
      rw [get?, same]
      exact gone
    exact (ih still spare).trans same

theorem gone_of_get?_eq_none (keyed : s.Keyed) (gone : s.get? id false = none) : s.Gone id where
  unread := gone
  unlisted scene listed own := by
    rw [mem_list_iff keyed, own, gone] at listed
    cases listed
  unarmed weekday scene listed own := by
    obtain ⟨found, -⟩ := (mem_live_iff keyed).mp listed
    rw [own, gone] at found
    cases found
  unwatching device attr scene listed own := by
    obtain ⟨found, -⟩ := (mem_live_iff keyed).mp listed
    rw [own, gone] at found
    cases found
  unarmable armed := serve_of_refuses ⟨gone, rfl⟩
  undeletable now := serve_of_refuses ⟨gone, rfl⟩

theorem get?_serve_softDelete (s : SceneStore) (id : SceneId) (now : Instant) :
    (s.serve (.softDelete id now)).2.get? id false = none := by
  obtain ⟨r, answer, served⟩ | ⟨failure, answer, served⟩ := s.serve_cases (.softDelete id now)
  · rw [served, get?_softDelete answer, if_pos rfl]
  · rw [served]
    exact (ask_error_iff.mp answer).1

theorem find?_serve_softDelete {scene : Scene} (live : s.get? id false = some scene)
    (now : Instant) : (s.serve (.softDelete id now)).2.scenes.find? id =
      some { scene with deletedAt := some now } := by
  obtain ⟨r, answer, served⟩ | ⟨failure, answer, served⟩ := s.serve_cases (.softDelete id now)
  · rw [served, find?_ask answer, (get?_live_iff.mp live).1, Request.stored, if_pos rfl]
    rfl
  · obtain ⟨gone, -⟩ := ask_error_iff.mp answer
    rw [live] at gone
    cases gone

/-- Whatever was asked of a store, it holds valid scenes only, each under its own id. A request is
refused for its reasons alone and then changes nothing; otherwise it changes what is stored under
one id, arming only whether the scene is armed, and deleting only when it was deleted. Once a scene
was to be deleted it is gone until a valid one is saved under that id, and its record stays. The
scenes found armed for a weekday or watching an attribute are each found once. -/
theorem histories_keep_valid_scenes (requests : List Request) (played : play {} requests = s) :
    (s.scenes.Distinct ∧ ∀ e ∈ s.scenes.entries, e.2.id = e.1 ∧ e.2.validate = .ok ()) ∧
    (∀ request,
      (∀ failure, (s.serve request).1 = .error failure ↔ s.Refuses request failure) ∧
      (∀ failure, (s.serve request).1 = .error failure → (s.serve request).2 = s) ∧
      ((s.serve request).1 = .ok () → ∀ id,
        (s.serve request).2.scenes.find? id = request.stored id (s.scenes.find? id))) ∧
    (∀ id now later, (∀ request ∈ later, request.Spares id) →
      (s.play (.softDelete id now :: later)).Gone id ∧
      ∀ scene, s.get? id false = some scene →
        (s.play (.softDelete id now :: later)).scenes.find? id =
          some { scene with deletedAt := some now }) ∧
    (∀ weekday, ((s.armedFor weekday).map Scene.id).Nodup ∧
      ∀ scene, scene ∈ s.armedFor weekday ↔
        s.MayFire scene ∧ scene.weekdays.contains weekday = true) ∧
    ∀ device attr, ((s.watching device attr).map Scene.id).Nodup ∧
      ∀ scene, scene ∈ s.watching device attr ↔ s.MayFire scene ∧
        ∃ c ∈ scene.conditions, ∃ comparison value,
          c.kind = .status device attr comparison value := by
  have reached : s.Reached := played ▸ Reached.empty.play requests
  have keyed := reached.keyed
  refine ⟨⟨keyed.distinct, fun e listed => ?_⟩, fun request => ⟨fun _ => serve_error_iff, ?_,
    find?_serve⟩, fun id now later spare => ?_, fun weekday => ⟨live_ids_nodup keyed _, fun scene =>
    mem_live_iff_mayFire keyed⟩, fun device attr => ⟨live_ids_nodup keyed _, fun scene => ?_⟩⟩
  · have found := (Table.find?_eq_some_iff keyed.distinct).mpr listed
    exact ⟨keyed.own e.1 e.2 found, e.2.validate_ok_iff.mpr (reached.valid found)⟩
  · intro failure refused
    rw [serve_of_refuses (serve_error_iff.mp refused)]
  · have same := find?_play_of_gone (s.get?_serve_softDelete id now) spare
    refine ⟨gone_of_get?_eq_none (reached.play _).keyed ?_, fun scene live => ?_⟩
    · have gone := s.get?_serve_softDelete id now
      rw [get?, ← same] at gone
      exact gone
    · exact same.trans (find?_serve_softDelete live now)
  · rw [watching, mem_live_iff_mayFire keyed, Scene.watches_iff]

/-- The waking scene is stored and then deleted, and cannot be armed again. -/
theorem histories_keep_valid_scenes_waking :
    ∃ s : SceneStore, ∃ scene, play {} [.save scene] = s ∧
      s.get? scene.id false = some scene ∧
      (s.serve (.setArmed scene.id false)).1 = .ok () ∧
      (s.serve (.setArmed scene.id false)).2.scenes.find? scene.id =
        some { scene with armed := false } ∧
      (s.serve (.softDelete ⟨.ofNat 8⟩ (.ofMicros 1))).1 = .error (.missingScene ⟨.ofNat 8⟩) ∧
      (s.serve (.softDelete ⟨.ofNat 8⟩ (.ofMicros 1))).2 = s ∧
      (s.play [.softDelete scene.id (.ofMicros 1), .setArmed scene.id true]).Gone scene.id ∧
      (s.play [.softDelete scene.id (.ofMicros 1), .setArmed scene.id true]).scenes.find? scene.id =
        some { scene with deletedAt := some (.ofMicros 1) } := by
  let scene := Scene.waking.scene ⟨.ofNat 7⟩ (.ofMicros 0)
  have valid : scene.Valid := scene.validate_ok_iff.mp Scene.validate_waking
  have played : play {} [.save scene] = ⟨⟨[(scene.id, scene)]⟩⟩ := by
    show (serve {} (.save scene)).2 = _
    rw [serve, ask, save_ok_iff.mpr ⟨valid, rfl⟩]
    rfl
  obtain ⟨-, served, deleted, -⟩ := histories_keep_valid_scenes [.save scene] played
  have missing := (served (.softDelete ⟨.ofNat 8⟩ (.ofMicros 1))).1 (.missingScene ⟨.ofNat 8⟩)
  have refused := missing.mpr ⟨rfl, rfl⟩
  obtain ⟨gone, record⟩ := deleted scene.id (.ofMicros 1) [.setArmed scene.id true]
    fun request listed => List.mem_singleton.mp listed ▸ trivial
  exact ⟨_, scene, played, rfl, rfl, (served (.setArmed scene.id false)).2.2 rfl scene.id, refused,
    (served _).2.1 _ refused, gone, record scene rfl⟩

end HomeScenes.SceneStore
