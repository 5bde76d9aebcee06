import HomeScenes.SceneStore
import HomeScenes.Proofs.Scene
import HomeScenes.Proofs.Table

/-!
# What is stored

A store that was filled by its own operations keeps each scene under its own id, once, and keeps
valid scenes only. Arming and deleting change what is read under one id, and nothing else.
-/

namespace HomeScenes.SceneStore

structure Keyed (s : SceneStore) : Prop where
  distinct : s.scenes.Distinct
  own : ∀ id scene, s.scenes.find? id = some scene → scene.id = id

inductive Reached : SceneStore → Prop where
  | empty : Reached {}
  | save {s r : SceneStore} (before : Reached s) (scene : Scene) (h : s.save scene = .ok r) :
      Reached r
  | softDelete {s r : SceneStore} (before : Reached s) (id : SceneId) (now : Instant)
      (h : s.softDelete id now = .ok r) : Reached r
  | setArmed {s r : SceneStore} (before : Reached s) (id : SceneId) (armed : Bool)
      (h : s.setArmed id armed = .ok r) : Reached r

theorem get?_live_iff {s : SceneStore} {id : SceneId} {scene : Scene} :
    s.get? id false = some scene ↔
      s.scenes.find? id = some scene ∧ scene.isDeleted = false := by
  simp [get?, Option.filter_eq_some_iff]

theorem Keyed.id_eq {s : SceneStore} (h : s.Keyed) {id : SceneId} {scene : Scene}
    (found : s.get? id false = some scene) : scene.id = id :=
  h.own id scene (get?_live_iff.mp found).1

theorem Keyed.modify {s : SceneStore} (h : s.Keyed) (id : SceneId) {f : Scene → Scene}
    (same : ∀ scene, (f scene).id = scene.id) : Keyed ⟨s.scenes.modify id f⟩ where
  distinct := by
    rw [Table.Distinct, Table.keys_modify]
    exact h.distinct
  own other scene found := by
    rw [Table.find?_modify] at found
    split at found
    · obtain ⟨old, hold, rfl⟩ := Option.map_eq_some_iff.mp found
      rw [same]
      exact h.own other old hold
    · exact h.own other scene found

theorem setArmed_eq {s r : SceneStore} {id : SceneId} {armed : Bool}
    (h : s.setArmed id armed = .ok r) : (s.get? id false).isSome ∧
      r = ⟨s.scenes.modify id fun scene => { scene with armed := armed }⟩ := by
  rw [setArmed] at h
  cases found : s.get? id false with
  | none =>
    rw [found] at h
    cases h
  | some scene =>
    rw [found] at h
    cases h
    exact ⟨rfl, rfl⟩

theorem softDelete_eq {s r : SceneStore} {id : SceneId} {now : Instant}
    (h : s.softDelete id now = .ok r) :
    r = ⟨s.scenes.modify id fun scene => { scene with deletedAt := some now }⟩ := by
  rw [softDelete] at h
  cases found : s.get? id false with
  | none =>
    rw [found] at h
    cases h
  | some scene =>
    rw [found] at h
    cases h
    rfl

theorem save_ok_iff {s r : SceneStore} {scene : Scene} :
    s.save scene = .ok r ↔ scene.Valid ∧ r = ⟨s.scenes.set scene.id scene⟩ := by
  rw [← scene.validate_ok_iff, save]
  cases scene.validate with
  | ok => simp [eq_comm]
  | error cause => simp

theorem Keyed.setArmed {s r : SceneStore} (hk : s.Keyed) {id : SceneId} {armed : Bool}
    (h : s.setArmed id armed = .ok r) : r.Keyed := by
  obtain ⟨-, rfl⟩ := setArmed_eq h
  exact hk.modify id fun scene => rfl

theorem Keyed.softDelete {s r : SceneStore} (hk : s.Keyed) {id : SceneId} {now : Instant}
    (h : s.softDelete id now = .ok r) : r.Keyed := by
  obtain rfl := softDelete_eq h
  exact hk.modify id fun scene => rfl

theorem Keyed.save {s r : SceneStore} (hk : s.Keyed) {scene : Scene}
    (h : s.save scene = .ok r) : r.Keyed := by
  obtain ⟨-, rfl⟩ := save_ok_iff.mp h
  refine ⟨hk.distinct.set scene.id scene, fun other found hf => ?_⟩
  rw [Table.find?_set] at hf
  split at hf
  next same =>
    cases hf
    exact same.symm
  next => exact hk.own other found hf

theorem Reached.keyed {s : SceneStore} (h : Reached s) : s.Keyed := by
  induction h with
  | empty => exact ⟨List.nodup_nil, fun id scene found => by cases found⟩
  | save before scene h ih => exact ih.save h
  | softDelete before id now h ih => exact ih.softDelete h
  | setArmed before id armed h ih => exact ih.setArmed h

theorem Reached.save_valid {s : SceneStore} (before : Reached s) {scene : Scene}
    (valid : scene.validate = .ok ()) : Reached ⟨s.scenes.set scene.id scene⟩ :=
  before.save scene (save_ok_iff.mpr ⟨scene.validate_ok_iff.mp valid, rfl⟩)

theorem get?_setArmed {s r : SceneStore} {id : SceneId} {armed : Bool}
    (h : s.setArmed id armed = .ok r) (other : SceneId) :
    r.get? other false = if other = id
      then (s.get? other false).map fun scene => { scene with armed := armed }
      else s.get? other false := by
  obtain ⟨-, rfl⟩ := setArmed_eq h
  rw [get?, Table.find?_modify]
  split
  · rw [get?, Option.filter_map]
    rfl
  · rfl

theorem get?_softDelete {s r : SceneStore} {id : SceneId} {now : Instant}
    (h : s.softDelete id now = .ok r) (other : SceneId) :
    r.get? other false = if other = id then none else s.get? other false := by
  obtain rfl := softDelete_eq h
  rw [get?, Table.find?_modify]
  split
  · rw [Option.filter_map, Option.map_eq_none_iff, Option.filter_eq_none_iff]
    intro scene _
    simp [Scene.isDeleted]
  · rfl

def All (s : SceneStore) (good : SceneId → Scene → Prop) : Prop :=
  ∀ id scene, s.get? id false = some scene → good id scene

theorem All.setArmed {s r : SceneStore} {good : SceneId → Scene → Prop} (h : s.All good)
    {own : SceneId} {armed : Bool} (set : s.setArmed own armed = .ok r)
    (either : ∀ id scene, good id scene → good id { scene with armed := armed }) : r.All good := by
  intro id scene found
  rw [get?_setArmed set] at found
  split at found
  · obtain ⟨old, hold, rfl⟩ := Option.map_eq_some_iff.mp found
    exact either id old (h id old hold)
  · exact h id scene found

theorem All.softDelete {s r : SceneStore} {good : SceneId → Scene → Prop} (h : s.All good)
    {own : SceneId} {now : Instant} (gone : s.softDelete own now = .ok r) : r.All good := by
  intro id scene found
  rw [get?_softDelete gone] at found
  split at found
  · cases found
  · exact h id scene found

theorem All.save {s r : SceneStore} {good : SceneId → Scene → Prop} (h : s.All good) {new : Scene}
    (saved : s.save new = .ok r) (ok : good new.id new) : r.All good := by
  intro id scene found
  obtain ⟨found, live⟩ := get?_live_iff.mp found
  obtain ⟨-, rfl⟩ := save_ok_iff.mp saved
  rw [Table.find?_set] at found
  split at found
  next same =>
    cases found
    exact same ▸ ok
  next => exact h id scene (get?_live_iff.mpr ⟨found, live⟩)

/-- Every stored scene is valid, deleted ones as well. -/
theorem Reached.valid {s : SceneStore} (h : Reached s) {id : SceneId} {scene : Scene}
    (found : s.scenes.find? id = some scene) : scene.Valid := by
  induction h generalizing scene with
  | empty => cases found
  | save before new saved ih =>
    obtain ⟨valid, rfl⟩ := save_ok_iff.mp saved
    rw [Table.find?_set] at found
    split at found
    · cases found
      exact valid
    · exact ih found
  | softDelete before own now gone ih =>
    obtain rfl := softDelete_eq gone
    rw [Table.find?_modify] at found
    split at found
    · obtain ⟨old, hold, rfl⟩ := Option.map_eq_some_iff.mp found
      exact (ih hold).rearranged (.refl _) (.refl _) old.armed old.createdAt (some now)
    · exact ih found
  | setArmed before own armed set ih =>
    obtain ⟨-, rfl⟩ := setArmed_eq set
    rw [Table.find?_modify] at found
    split at found
    · obtain ⟨old, hold, rfl⟩ := Option.map_eq_some_iff.mp found
      exact (ih hold).rearranged (.refl _) (.refl _) armed old.createdAt old.deletedAt
    · exact ih found

theorem mem_values_iff {s : SceneStore} (h : s.Keyed) {scene : Scene} :
    scene ∈ s.scenes.values ↔ s.scenes.find? scene.id = some scene := by
  rw [Table.find?_eq_some_iff h.distinct, Table.values, List.mem_map]
  constructor
  · rintro ⟨⟨id, found⟩, he, rfl⟩
    have := h.own id found ((Table.find?_eq_some_iff h.distinct).mpr he)
    rwa [this]
  · exact fun he => ⟨_, he, rfl⟩

theorem mem_list_iff {s : SceneStore} (h : s.Keyed) {scene : Scene} :
    scene ∈ s.list false ↔ s.get? scene.id false = some scene := by
  rw [list, sorted, List.mem_mergeSort, List.mem_filter, mem_values_iff h, get?_live_iff]
  simp

theorem mem_live_iff {s : SceneStore} (h : s.Keyed) {p : Scene → Bool} {scene : Scene} :
    scene ∈ s.live p ↔ s.get? scene.id false = some scene ∧ scene.automatic = true ∧
      scene.armed = true ∧ p scene = true := by
  rw [live, sorted, List.mem_mergeSort, List.mem_filter, mem_values_iff h, get?_live_iff]
  simp only [Scene.isLive, Bool.and_eq_true, Bool.not_eq_true']
  tauto

structure MayFire (s : SceneStore) (scene : Scene) : Prop where
  stored : s.scenes.find? scene.id = some scene
  automatic : scene.automatic = true
  armed : scene.armed = true
  kept : scene.deletedAt = none

theorem mem_live_iff_mayFire {s : SceneStore} (h : s.Keyed) {p : Scene → Bool} {scene : Scene} :
    scene ∈ s.live p ↔ s.MayFire scene ∧ p scene = true := by
  rw [mem_live_iff h, get?_live_iff, Scene.isDeleted, Option.isSome_eq_false_iff,
    Option.isNone_iff_eq_none]
  constructor
  · rintro ⟨⟨stored, kept⟩, automatic, armed, fits⟩
    exact ⟨⟨stored, automatic, armed, kept⟩, fits⟩
  · rintro ⟨⟨stored, automatic, armed, kept⟩, fits⟩
    exact ⟨⟨stored, kept⟩, automatic, armed, fits⟩

theorem live_ids_nodup {s : SceneStore} (h : s.Keyed) (p : Scene → Bool) :
    ((s.live p).map Scene.id).Nodup := by
  have ids : s.scenes.values.map Scene.id = s.scenes.keys := by
    rw [Table.values, Table.keys, List.map_map]
    refine List.map_congr_left fun e he => ?_
    exact h.own e.1 e.2 ((Table.find?_eq_some_iff h.distinct).mpr he)
  have all : (s.scenes.values.map Scene.id).Nodup := by
    rw [ids]
    exact h.distinct
  rw [live, sorted, ((List.mergeSort_perm _ _).map Scene.id).nodup_iff]
  exact all.sublist (List.filter_sublist.map Scene.id)

end HomeScenes.SceneStore
