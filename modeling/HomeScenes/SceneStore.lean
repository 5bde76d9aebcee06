import HomeScenes.Scene
import HomeScenes.Table

/-!
# Stored scenes

Scenes by id. Only valid scenes are taken in; deleted ones stay and can be read on
request, but no other query shows them. Lists come by name, equal names by id.
-/

namespace HomeScenes

structure SceneStore where
  scenes : Table SceneId Scene := .empty
deriving Inhabited

namespace SceneStore

/-- Order of two scenes in lists. -/
def listedBefore (a b : Scene) : Bool :=
  if a.name = b.name then a.id.uuid.toNat ≤ b.id.uuid.toNat else a.name < b.name

def sorted (scenes : List Scene) : List Scene :=
  scenes.mergeSort listedBefore

def get? (s : SceneStore) (id : SceneId) (withDeleted : Bool) : Option Scene :=
  (s.scenes.find? id).filter fun scene => withDeleted || !scene.isDeleted

/-- Take in a scene, in place of any earlier version. -/
def save (s : SceneStore) (scene : Scene) : Except Failure SceneStore :=
  match scene.validate with
  | .ok _ => .ok ⟨s.scenes.set scene.id scene⟩
  | .error e => .error (.invalid e)

def softDelete (s : SceneStore) (id : SceneId) (now : Instant) : Except Failure SceneStore :=
  match s.get? id false with
  | some _ => .ok ⟨s.scenes.modify id fun scene => { scene with deletedAt := some now }⟩
  | none => .error (.missingScene id)

def setArmed (s : SceneStore) (id : SceneId) (armed : Bool) : Except Failure SceneStore :=
  match s.get? id false with
  | some _ => .ok ⟨s.scenes.modify id fun scene => { scene with armed := armed }⟩
  | none => .error (.missingScene id)

def list (s : SceneStore) (withDeleted : Bool) : List Scene :=
  sorted (s.scenes.values.filter fun scene => withDeleted || !scene.isDeleted)

/-- Scenes that may fire by themselves and meet a condition. -/
def live (s : SceneStore) (p : Scene → Bool) : List Scene :=
  sorted (s.scenes.values.filter fun scene => scene.isLive && p scene)

def armedFor (s : SceneStore) (weekday : Nat) : List Scene :=
  s.live fun scene => scene.repeatsOn weekday

def watching (s : SceneStore) (device : DeviceId) (attr : AttributeRef) : List Scene :=
  s.live fun scene => scene.watches device attr

end SceneStore

end HomeScenes
