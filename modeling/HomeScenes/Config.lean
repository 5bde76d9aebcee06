import HomeScenes.Calendar.TimeOfDay
import HomeScenes.Engine.State
import HomeScenes.Text.Blank
import HomeScenes.Text.Integer
import HomeScenes.Text.Quoted
import HomeScenes.Toml.Reader

/-!
# Settings of the hub

Each setting has a default, which a file may replace, which in turn a variable of the
environment may replace. Variables that do not have the form of a number or flag where
one is wanted count as not set. The outcome is checked as a whole.
-/

namespace HomeScenes

structure Config where
  /-- Local time at which the firings of the next day are queued, as it was written. -/
  arrangeAt : String
  /-- Minutes by which local time is ahead of universal time. -/
  offsetMinutes : Int32
  /-- Longest wait for a device. -/
  timeoutSeconds : UInt64
  /-- What is logged. -/
  filter : String
  /-- Number of task records kept. -/
  capacity : UInt64
  /-- Whether the demonstration home is set up. -/
  demo : Bool
deriving DecidableEq, Inhabited

namespace Config

def default : Config where
  arrangeAt := "23:55"
  offsetMinutes := 0
  timeoutSeconds := 10
  filter := "scenehubd=info,scenehub_app=info,scenehub_adapter_virtual=info"
  capacity := 10000
  demo := true

inductive Error where
  | unreadable
  | malformed
  | arrangeAt (text : String)
  | offset (minutes : Int32)
  | timeout
  | capacity
deriving DecidableEq, Inhabited

namespace Error

/-- What is wrong with a setting, for the errors that name one. -/
def detail? : Error → Option String
  | unreadable => none
  | malformed => none
  | arrangeAt text => some ("arrange_at " ++ Text.quoted text ++ " is not a time of day")
  | offset minutes =>
    some ("utc_offset_minutes " ++ toString minutes.toInt ++ " is out of range")
  | timeout => some "device_timeout_secs must be non-zero"
  | capacity => some "history capacity must be non-zero"

def message (e : Error) : String :=
  match e.detail? with
  | some detail => "invalid configuration: " ++ detail
  | none =>
    if e = unreadable then "failed to read config file" else "failed to parse config file"

end Error

/-- What was found in place of the file. -/
inductive Source where
  | absent
  | unreadable
  | text (s : String)
deriving DecidableEq, Inhabited

section File

open Toml (Item)

/-- The items of a section by the names of its fields. Of an array they are taken in order; a moment
has none of them. -/
def fieldsOf? (names : List String) : Item → Option (List (Option Item))
  | .table _ members => some (names.map (Toml.Members.find? members))
  | .array items => some (names.mapIdx fun i _ => items[i]?)
  | .tables rows => some (names.mapIdx fun i _ => (rows[i]?).map (Item.table .header))
  | .moment => some (names.map fun _ => none)
  | _ => none

def textOf? : Item → Option String
  | .text s => some s
  | _ => none

def boolOf? : Item → Option Bool
  | .bool b => some b
  | _ => none

def int32Of? : Item → Option Int32
  | .int i => if -2147483648 ≤ i ∧ i < 2147483648 then some (Int32.ofInt i) else none
  | _ => none

def uint64Of? : Item → Option UInt64
  | .int i => if 0 ≤ i ∧ i < 18446744073709551616 then some (UInt64.ofNat i.toNat) else none
  | _ => none

/-- An item in the form that is wanted, or a value in place of one that is not there. -/
def itemOr? {α : Type} (form : Item → Option α) (fallback : α) : Option Item → Option α
  | none => some fallback
  | some item => form item

def withScheduler? (c : Config) (item : Item) : Option Config := do
  match ← fieldsOf? ["arrange_at", "utc_offset_minutes", "device_timeout_secs"] item with
  | [arrangeAt, offset, timeout] =>
    return { c with
      arrangeAt := ← itemOr? textOf? c.arrangeAt arrangeAt
      offsetMinutes := ← itemOr? int32Of? c.offsetMinutes offset
      timeoutSeconds := ← itemOr? uint64Of? c.timeoutSeconds timeout }
  | _ => none

def withLogging? (c : Config) (item : Item) : Option Config := do
  match ← fieldsOf? ["filter"] item with
  | [filter] => return { c with filter := ← itemOr? textOf? c.filter filter }
  | _ => none

def withHistory? (c : Config) (item : Item) : Option Config := do
  match ← fieldsOf? ["capacity"] item with
  | [capacity] => return { c with capacity := ← itemOr? uint64Of? c.capacity capacity }
  | _ => none

def withDemo? (c : Config) (item : Item) : Option Config := do
  match ← fieldsOf? ["enabled"] item with
  | [enabled] => return { c with demo := ← itemOr? boolOf? c.demo enabled }
  | _ => none

/-- Settings with what a document gives for them. What it gives besides is passed over. -/
def ofItem? (item : Item) : Option Config := do
  match ← fieldsOf? ["scheduler", "logging", "history", "demo"] item with
  | [scheduler, logging, history, demo] =>
    let c := Config.default
    let c ← itemOr? c.withScheduler? c scheduler
    let c ← itemOr? c.withLogging? c logging
    let c ← itemOr? c.withHistory? c history
    itemOr? c.withDemo? c demo
  | _ => none

def ofSource : Source → Except Error Config
  | .absent => .ok Config.default
  | .unreadable => .error .unreadable
  | .text s =>
    match (Toml.ofText? s).bind ofItem? with
    | some c => .ok c
    | none => .error .malformed

end File

/-- The value of a flag in the environment, with blanks around it and in any case. -/
def flagOfText? (s : String) : Option Bool :=
  let word := String.ofList ((Text.trim s.toList).map Char.toLower)
  if ["1", "true", "yes", "on"].contains word then some true
  else if ["0", "false", "no", "off"].contains word then some false
  else none

/-- Settings with what the environment gives for them. Of the two variables for the log, the
common one wins over the one of the hub. -/
def override (c : Config) (lookup : String → Option String) : Config where
  arrangeAt := (lookup "SCENEHUB_ARRANGE_AT").getD c.arrangeAt
  offsetMinutes :=
    ((lookup "SCENEHUB_UTC_OFFSET_MINUTES").bind Text.int32OfText?).getD c.offsetMinutes
  timeoutSeconds :=
    ((lookup "SCENEHUB_DEVICE_TIMEOUT_SECS").bind Text.uint64OfText?).getD c.timeoutSeconds
  filter := ((lookup "RUST_LOG").orElse fun _ => lookup "SCENEHUB_LOG").getD c.filter
  capacity := ((lookup "SCENEHUB_HISTORY_CAPACITY").bind Text.uint64OfText?).getD c.capacity
  demo := ((lookup "SCENEHUB_DEMO").bind flagOfText?).getD c.demo

/-- The time of day that the text for the arrangement stands for. -/
def arrangeTime (c : Config) : Except Error TimeOfDay :=
  let text := String.ofList (Text.trim c.arrangeAt.toList)
  match TimeOfDay.ofPlainText? text with
  | some t => .ok t
  | none => .error (.arrangeAt text)

/-- The product of two words, if 32 bits hold it. -/
def product? (a b : Int32) : Option Int32 :=
  if (a * b).toInt = a.toInt * b.toInt then some (a * b) else none

/-- Seconds by which local time is ahead of universal time: less than a day either way. -/
def offsetSeconds (c : Config) : Except Error Int :=
  match (product? c.offsetMinutes 60).filter fun s => s.toInt.natAbs < secondsPerDay with
  | some seconds => .ok seconds.toInt
  | none => .error (.offset c.offsetMinutes)

/-- Settings of the engine. -/
def engineSettings (c : Config) : Except Error Engine.Settings :=
  c.arrangeTime.map fun t => ⟨t, c.timeoutSeconds.toNat * 1000⟩

/-- The first setting that cannot be used. -/
def validate (c : Config) : Except Error Unit := do
  let _ ← c.arrangeTime
  let _ ← c.offsetSeconds
  if c.timeoutSeconds = 0 then throw .timeout
  if c.capacity = 0 then throw .capacity

/-- Usable settings from a file and an environment. -/
def load (file : Source) (lookup : String → Option String) : Except Error Config := do
  let c := (← ofSource file).override lookup
  c.validate
  return c

end Config

end HomeScenes
