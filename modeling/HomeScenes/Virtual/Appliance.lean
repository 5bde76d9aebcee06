import HomeScenes.Device
import HomeScenes.Virtual.Fault

/-!
# Virtual appliances

A light with power and brightness, a switch with power, and a sensor that reports a
temperature and its unit and takes no commands. All attributes belong to service 1.
-/

namespace HomeScenes.Virtual

/-- Service that all attributes of virtual devices belong to. -/
def service : UInt32 := 1

/-- Name of the plugin that provides the virtual devices. -/
def plugin : String := "virtual"

/-- What an appliance is and the state it is in. Brightness goes from 0 to 100. -/
inductive State where
  | light (power : Bool) (brightness : Fin 101)
  | switch (power : Bool)
  | sensor (temperature : Double)
deriving DecidableEq, Inhabited

structure Appliance where
  id : DeviceId
  name : String
  state : State
deriving Inhabited

namespace State

def newLight : State := .light false 100

def newSwitch : State := .switch false

/-- A new sensor reports 21.5 degrees. -/
def newSensor : State := .sensor (Double.ofRatio false 43 2)

def kind : State → String
  | light .. => "light"
  | switch _ => "switch"
  | sensor _ => "sensor"

def model : State → String
  | light .. => "VLight-1"
  | switch _ => "VSwitch-1"
  | sensor _ => "VSensor-1"

/-- Name of an attribute of the service of virtual devices. -/
def localName? (attr : AttributeRef) : Option String :=
  if attr.service = service then some attr.name else none

def invalid {α : Type} (c : Command) : Except Fault α :=
  .error (.invalidValue c.target c.value.display)

/-- The brightness that a value stands for: a whole number from 0 to 100. -/
def brightness? : AttributeValue → Option (Fin 101)
  | .int i =>
    if i.toInt < 0 then none
    else if h : i.toInt.toNat < 101 then some ⟨_, h⟩
    else none
  | _ => none

/-- Carry out a command: the new state, and the value that is stored now. -/
def apply (s : State) (c : Command) : Except Fault (AttributeValue × State) :=
  match s, localName? c.target with
  | light _ brightness, some "power" =>
    match c.value with
    | .bool on => .ok (.bool on, light on brightness)
    | _ => invalid c
  | light power _, some "brightness" =>
    match brightness? c.value with
    | some level => .ok (c.value, light power level)
    | none => invalid c
  | switch _, some "power" =>
    match c.value with
    | .bool on => .ok (.bool on, switch on)
    | _ => invalid c
  | sensor _, some "temperature" => .error (.readOnly c.target)
  | sensor _, some "unit" => .error (.readOnly c.target)
  | _, _ => .error (.unsupported c.target)

def read (s : State) (attr : AttributeRef) : Option AttributeValue :=
  match s, localName? attr with
  | light power _, some "power" => some (.bool power)
  | light _ brightness, some "brightness" => some (.int (Int64.ofNat brightness.val))
  | switch power, some "power" => some (.bool power)
  | sensor temperature, some "temperature" => some (.float temperature)
  | sensor _, some "unit" => some (.text "°C")
  | _, _ => none

end State

/-- The record to register for an appliance. -/
def Appliance.describe (a : Appliance) : Except Failure Device :=
  let draft : Device.Draft :=
    { id := some a.id
      name := some a.name
      manufacturer := some "scenehub"
      model := some a.state.model
      plugin := some plugin
      identity := some (a.state.kind ++ "-" ++ toString a.id) }
  (draft.build a.id).mapError Failure.invalid

end HomeScenes.Virtual
