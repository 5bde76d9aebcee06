import HomeScenes.Proofs.Engine.Operations
import HomeScenes.Proofs.SceneStore

/-!
# What stays stored

The engine itself arms, disarms and deletes scenes and changes nothing else about them. As
long as no scene is stored from outside, what holds of the timings of all scenes at first
holds of them for good, and the store stays in order.
-/

namespace HomeScenes.Engine

/-- The engine works on a store in order, with given settings, and something holds of the
timings of every scene that is not deleted. -/
structure Stored (given : Settings) (good : SceneId → List TimeOfDay → Prop) (e : Engine) :
    Prop where
  working : e.outages.scenes = none
  settings : e.settings = given
  keyed : e.scenes.Keyed
  timings : ∀ id s, e.scenes.get? id false = some s → good id s.timings

variable {given : Settings} {good : SceneId → List TimeOfDay → Prop} {e : Engine}

theorem Stored.armed (h : Stored given good e) {scene : SceneId} {armed : Bool}
    {scenes : SceneStore} (set : e.scenes.setArmed scene armed = .ok scenes) :
    Stored given good { e with scenes := scenes } where
  working := h.working
  settings := h.settings
  keyed := h.keyed.setArmed set
  timings := SceneStore.All.setArmed h.timings set fun _ _ same => same

theorem Stored.deleted (h : Stored given good e) {scene : SceneId} {now : Instant}
    {scenes : SceneStore} (gone : e.scenes.softDelete scene now = .ok scenes) :
    Stored given good { e with scenes := scenes } where
  working := h.working
  settings := h.settings
  keyed := h.keyed.softDelete gone
  timings := SceneStore.All.softDelete h.timings gone

theorem stored_lasting (given : Settings) (good : SceneId → List TimeOfDay → Prop) :
    Lasting (Stored given good) where
  queue h _ _ _ := ⟨h.working, h.settings, h.keyed, h.timings⟩
  armed h set := h.armed set
  deleted h gone := h.deleted gone
  aside h _ _ _ _ := ⟨h.working, h.settings, h.keyed, h.timings⟩

theorem Stored.apply {m : Moment} (h : Stored given good m.engine) {move : Move}
    (noSave : ∀ s, move ≠ .save s) : Stored given good (m.apply move).engine := by
  by_cases still : ∀ utc, move ≠ .advance utc
  · exact (stored_lasting given good).apply h noSave still
  · push Not at still
    obtain ⟨utc, rfl⟩ := still
    exact ⟨h.working, h.settings, h.keyed, h.timings⟩

theorem stored_started {settings : Settings} (clock : LocalTime) {scenes : SceneStore}
    (devices : DeviceStore) (network : Network) (journal : Journal Ticket) (keyed : scenes.Keyed)
    (timings : ∀ id s, scenes.get? id false = some s → good id s.timings) :
    Stored settings good (Moment.started settings clock scenes devices network journal).engine := by
  rw [Moment.started_engine, enqueueAll_frame]
  exact ⟨rfl, rfl, keyed, timings⟩

theorem loadScene_eq (working : e.outages.scenes = none) (id : SceneId) : e.loadScene id =
    match e.scenes.get? id false with
    | some s => .ok s
    | none => .error (.missingScene id) := by
  rw [loadScene, readScene, working]
  cases e.scenes.get? id false <;> rfl

theorem loadScene_dropFirings (e : Engine) (dropped id : SceneId) :
    (e.dropFirings dropped).2.loadScene id = e.loadScene id := by
  rw [dropFirings_frame]
  rfl

theorem setArmed_missing (working : e.outages.scenes = none) {scene : SceneId}
    (missing : e.scenes.get? scene false = none) (armed : Bool) :
    e.setArmed scene armed = (.error (.missingScene scene), e) := by
  simp only [Engine.setArmed, working, SceneStore.setArmed, missing]

theorem setArmed_stored (working : e.outages.scenes = none) {scene : SceneId} {s : Scene}
    (stored : e.scenes.get? scene false = some s) (armed : Bool) :
    ∃ scenes, e.scenes.setArmed scene armed = .ok scenes ∧
      e.setArmed scene armed = (.ok (), { e with scenes := scenes }) := by
  refine ⟨⟨e.scenes.scenes.modify scene fun scene => { scene with armed := armed }⟩, ?_, ?_⟩
  · simp only [SceneStore.setArmed, stored]
  · simp only [Engine.setArmed, working, SceneStore.setArmed, stored]

theorem deleteScene_stored (working : e.outages.scenes = none) {scene : SceneId} {s : Scene}
    (stored : e.scenes.get? scene false = some s) :
    ∃ scenes, e.scenes.softDelete scene e.now = .ok scenes ∧
      e.deleteScene scene = (.ok (), { e with scenes := scenes }) := by
  refine ⟨⟨e.scenes.scenes.modify scene fun scene =>
    { scene with deletedAt := some e.now }⟩, ?_, ?_⟩
  · simp only [SceneStore.softDelete, stored]
  · simp only [Engine.deleteScene, changeScenes, working, SceneStore.softDelete, stored]

theorem restart_missing (working : e.outages.scenes = none) {scene : SceneId}
    (missing : e.scenes.get? scene false = none) :
    e.restart scene = (.error (.missingScene scene), (e.dropFirings scene).2) := by
  simp only [restart, loadScene_dropFirings, loadScene_eq working, missing]

/-- The firings of a scene are dropped, and queued again if it is automatic. -/
theorem restart_stored (working : e.outages.scenes = none) {scene : SceneId} {s : Scene}
    (stored : e.scenes.get? scene false = some s) : e.restart scene =
      (.ok (), if s.automatic then ((e.dropFirings scene).2.addScene s).2
        else (e.dropFirings scene).2) := by
  simp only [restart, loadScene_dropFirings, loadScene_eq working, stored]

theorem restart_cases (working : e.outages.scenes = none) (scene : SceneId) :
    (∃ s, e.scenes.get? scene false = some s ∧ s.automatic = true ∧
      (e.restart scene).2 = ((e.dropFirings scene).2.addScene s).2) ∨
    ((∀ s, e.scenes.get? scene false = some s → s.automatic = false) ∧
      (e.restart scene).2 = (e.dropFirings scene).2) := by
  cases found : e.scenes.get? scene false with
  | none =>
    rw [restart_missing working found]
    refine .inr ⟨fun s hs => ?_, rfl⟩
    cases hs
  | some s =>
    rw [restart_stored working found]
    by_cases automatic : s.automatic = true
    · exact .inl ⟨s, rfl, automatic, if_pos automatic⟩
    · refine .inr ⟨fun s' hs => ?_, if_neg automatic⟩
      cases hs
      exact Bool.eq_false_iff.mpr automatic

theorem arm_missing (working : e.outages.scenes = none) {scene : SceneId}
    (missing : e.scenes.get? scene false = none) :
    e.arm scene = (.error (.missingScene scene), e) := by
  rw [arm, setArmed_missing working missing]

/-- A scene that is stored is armed; if it is automatic, its firings are queued anew. -/
theorem arm_stored (working : e.outages.scenes = none) {scene : SceneId} {s : Scene}
    (stored : e.scenes.get? scene false = some s) :
    ∃ scenes, e.scenes.setArmed scene true = .ok scenes ∧
      e.arm scene = (.ok (), if s.automatic then
          (({ e with scenes := scenes }.dropFirings scene).2.addScene { s with armed := true }).2
        else { e with scenes := scenes }) := by
  obtain ⟨scenes, set, done⟩ := setArmed_stored working stored true
  have armed : scenes.get? scene false = some { s with armed := true } := by
    rw [SceneStore.get?_setArmed set, if_pos rfl, stored]
    rfl
  refine ⟨scenes, set, ?_⟩
  rw [arm, done]
  simp only [loadScene_eq (e := { e with scenes := scenes }) working, armed]

theorem arm_cases (working : e.outages.scenes = none) (scene : SceneId) :
    (e.scenes.get? scene false = none ∧ (e.arm scene).2 = e) ∨
    ∃ s scenes, e.scenes.get? scene false = some s ∧ e.scenes.setArmed scene true = .ok scenes ∧
      (e.arm scene).2 =
        if s.automatic then
          (({ e with scenes := scenes }.dropFirings scene).2.addScene { s with armed := true }).2
        else { e with scenes := scenes } := by
  cases found : e.scenes.get? scene false with
  | none => exact .inl ⟨rfl, by rw [arm_missing working found]⟩
  | some s =>
    obtain ⟨scenes, set, done⟩ := arm_stored working found
    exact .inr ⟨s, scenes, rfl, set, by rw [done]⟩

theorem disarm_missing (working : e.outages.scenes = none) {scene : SceneId}
    (missing : e.scenes.get? scene false = none) :
    e.disarm scene = (.error (.missingScene scene), (e.dropFirings scene).2) := by
  refine setArmed_missing ?_ ?_ false <;> rw [dropFirings_frame]
  · exact working
  · exact missing

/-- The firings of a scene are dropped, and if it is stored it is disarmed. -/
theorem disarm_stored (working : e.outages.scenes = none) {scene : SceneId} {s : Scene}
    (stored : e.scenes.get? scene false = some s) :
    ∃ scenes, e.scenes.setArmed scene false = .ok scenes ∧
      e.disarm scene = (.ok (), { (e.dropFirings scene).2 with scenes := scenes }) := by
  have same : (e.dropFirings scene).2.scenes = e.scenes := by rw [dropFirings_frame]
  have still : (e.dropFirings scene).2.outages.scenes = none := by
    rw [dropFirings_frame]
    exact working
  obtain ⟨scenes, set, done⟩ := setArmed_stored still (same ▸ stored) false
  exact ⟨scenes, same ▸ set, done⟩

theorem disarm_cases (working : e.outages.scenes = none) (scene : SceneId) :
    (e.scenes.get? scene false = none ∧ (e.disarm scene).2 = (e.dropFirings scene).2) ∨
    ∃ scenes, e.scenes.setArmed scene false = .ok scenes ∧
      (e.disarm scene).2 = { (e.dropFirings scene).2 with scenes := scenes } := by
  cases found : e.scenes.get? scene false with
  | none => exact .inl ⟨rfl, by rw [disarm_missing working found]⟩
  | some s =>
    obtain ⟨scenes, set, done⟩ := disarm_stored working found
    exact .inr ⟨scenes, set, by rw [done]⟩

def oclock (hour : Nat) : TimeOfDay :=
  (TimeOfDay.ofParts? hour 0 0 0).getD .midnight

def daily (time : TimeOfDay) : Scene where
  id := ⟨.ofNat 1⟩
  name := "Daily"
  automatic := true
  armed := true
  logic := .any
  window := .allDay
  recurrence := .daily
  weekdays := .everyDay
  conditions := [⟨.ofNat 2, .timing time⟩]
  actions := [⟨.ofNat 3, .ofNat 0, .run ⟨.ofNat 4⟩⟩]
  createdAt := ⟨0, .midnight⟩
  deletedAt := none

def dailyStore (time : TimeOfDay) : SceneStore :=
  ⟨⟨[((daily time).id, daily time)]⟩⟩

theorem dailyStore_reached (time : TimeOfDay) : (dailyStore time).Reached := by
  have name : Text.trim "Daily".toList = ['D', 'a', 'i', 'l', 'y'] := by rfl
  have named : (daily time).checkName = .ok () := by
    simp only [Scene.checkName, daily, name]
    rfl
  have valid : (daily time).validate = .ok () := by
    rw [Scene.validate, named]
    rfl
  exact SceneStore.Reached.empty.save_valid valid

theorem dailyStore_live (time : TimeOfDay) :
    (dailyStore time).get? (daily time).id false = some (daily time) := by
  simp [SceneStore.get?, Table.find?, dailyStore, Scene.isDeleted, daily]

theorem dailyStore_only {time : TimeOfDay} {id : SceneId} {s : Scene}
    (found : (dailyStore time).get? id false = some s) : s.timings = [time] := by
  have entry := Table.find?_entry (SceneStore.get?_live_iff.mp found).1
  obtain ⟨-, rfl⟩ := Prod.mk.inj (List.mem_singleton.mp entry)
  rfl

theorem dailyStore_all {P : TimeOfDay → Prop} {time : TimeOfDay} (h : P time) :
    ∀ id s, (dailyStore time).get? id false = some s → ∀ t ∈ s.timings, P t := by
  intro id s found t ht
  rw [dailyStore_only found, List.mem_singleton] at ht
  exact ht ▸ h

def relay (own next : SceneId) : Scene where
  id := own
  name := "Relay"
  automatic := false
  armed := false
  logic := .any
  window := .allDay
  recurrence := .daily
  weekdays := .everyDay
  conditions := []
  actions := [⟨.ofNat 3, .ofNat 0, .run next⟩]
  createdAt := ⟨0, .midnight⟩
  deletedAt := none

end HomeScenes.Engine
