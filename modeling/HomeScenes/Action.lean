import HomeScenes.Attribute
import HomeScenes.Uuid

/-!
# Actions

The steps that a scene performs when it runs, each some seconds after the firing.
-/

namespace HomeScenes

inductive Action.Kind where
  | control (device : DeviceId) (commands : List Command)
  | run (scene : SceneId)
  /-- Arm an automatic scene. -/
  | enable (scene : SceneId)
  /-- Disarm an automatic scene. -/
  | disable (scene : SceneId)
deriving Inhabited

structure Action where
  id : Uuid
  delay : UInt32
  kind : Action.Kind
deriving Inhabited

namespace Action

def Kind.text : Kind → String
  | .control device commands =>
    "control_device(" ++ toString device ++ ", " ++ toString commands.length ++ " commands)"
  | .run scene => "run_scene(" ++ toString scene ++ ")"
  | .enable scene => "enable_scene(" ++ toString scene ++ ")"
  | .disable scene => "disable_scene(" ++ toString scene ++ ")"

instance : ToString Kind := ⟨Kind.text⟩

/-- The scene that an action runs, arms or disarms. -/
def targetScene? (a : Action) : Option SceneId :=
  match a.kind with
  | .control .. => none
  | .run scene => some scene
  | .enable scene => some scene
  | .disable scene => some scene

def delayNanos (a : Action) : Int :=
  a.delay.toNat * 1000000000

end Action

end HomeScenes
