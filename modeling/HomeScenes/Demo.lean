import HomeScenes.DeviceStore
import HomeScenes.SceneStore
import HomeScenes.Virtual.Transport

/-!
# The demonstration home

Three virtual devices and three scenes: one that is run by hand, one that a timer
fires a minute from now, and one that reacts to the temperature.
-/

namespace HomeScenes.Demo

/-- Identifiers that the home is set up with. -/
structure Ids where
  light : DeviceId
  switch : DeviceId
  sensor : DeviceId
  welcome : SceneId
  evening : SceneId
  coolDown : SceneId
  /-- Of conditions and actions, by number. -/
  part : Nat → Uuid

open Virtual in
def transport (ids : Ids) : Transport :=
  let empty : Transport := {}
  ((empty.add ⟨ids.light, "Living room light", .newLight⟩).add
    ⟨ids.switch, "Fan", .newSwitch⟩).add ⟨ids.sensor, "Living room sensor", .newSensor⟩

/-- The full minute after the one that the local clock shows. -/
def nextMinute (now : LocalTime) : TimeOfDay :=
  (now.shift (60 * nanosPerSecond)).time.startOfMinute

def turnOn : Command :=
  ⟨⟨Virtual.service, "power"⟩, .bool true⟩

def brighten : Command :=
  ⟨⟨Virtual.service, "brightness"⟩, .int 60⟩

def welcome (ids : Ids) : Scene.Draft :=
  { id := some ids.welcome
    name := some "Welcome home"
    actions :=
      [⟨ids.part 0, 0, .control ids.light [turnOn, brighten]⟩,
       ⟨ids.part 1, 2, .control ids.switch [turnOn]⟩] }

def evening (ids : Ids) (now : LocalTime) : Scene.Draft :=
  { id := some ids.evening
    name := some "Evening"
    automatic := true
    conditions := [⟨ids.part 2, .timing (nextMinute now)⟩]
    actions := [⟨ids.part 3, 0, .run ids.welcome⟩] }

/-- The temperature, 25 degrees, above which the fan is turned on. -/
def warm : AttributeValue :=
  .float (Double.ofInt 25)

def coolDown (ids : Ids) : Scene.Draft :=
  { id := some ids.coolDown
    name := some "Cool down"
    automatic := true
    logic := .any
    conditions :=
      [⟨ids.part 4, .status ids.sensor ⟨Virtual.service, "temperature"⟩ .greater warm⟩]
    actions := [⟨ids.part 5, 0, .control ids.switch [turnOn]⟩] }

def saveDrafts (now : Instant) (store : SceneStore) (drafts : List (SceneId × Scene.Draft)) :
    Except Failure SceneStore :=
  drafts.foldlM
    (fun store (d : SceneId × Scene.Draft) =>
      match d.2.build d.1 now with
      | .ok scene => store.save scene
      | .error cause => .error (.invalid cause))
    store

/-- Put the records of all virtual devices and the scenes into the stores. -/
def seed (ids : Ids) (now : LocalTime) (transport : Virtual.Transport) (scenes : SceneStore)
    (devices : DeviceStore) : Except Failure (SceneStore × DeviceStore) := do
  let records ← transport.describeAll
  let devices ← records.foldlM DeviceStore.save devices
  let scenes ← saveDrafts now.utc scenes
    [(ids.welcome, welcome ids), (ids.evening, evening ids now), (ids.coolDown, coolDown ids)]
  return (scenes, devices)

end HomeScenes.Demo
