import HomeScenes.Json

/-!
# Device attributes

Typed values, the place of an attribute on a device, commands that set one, and the
comparisons that conditions are made of. Numbers of both kinds are compared as
floating-point numbers.
-/

namespace HomeScenes

inductive AttributeValue where
  | bool (b : Bool)
  | int (i : Int64)
  | float (d : Double)
  | text (s : String)
  | json (v : Json)
deriving Inhabited

namespace AttributeValue

/-- The number a value stands for, if it is one; an integer is rounded to 53 bits. -/
def number? : AttributeValue → Option Double
  | int i => some (Double.ofInt i.toInt)
  | float d => some d
  | _ => none

/-- Numeric order, where both sides are numbers that can be ordered. -/
def order? (a b : AttributeValue) : Option Ordering :=
  match a.number?, b.number? with
  | some x, some y => x.order? y
  | _, _ => none

/-- Equality of kind and content. -/
def same : AttributeValue → AttributeValue → Bool
  | bool a, bool b => a == b
  | int a, int b => a == b
  | float a, float b => a.same b
  | text a, text b => a == b
  | json a, json b => a.same b
  | _, _ => false

def display : AttributeValue → String
  | bool b => if b then "true" else "false"
  | int i => toString i.toInt
  | float d => d.plainText
  | text s => s
  | json v => v.compact

instance : ToString AttributeValue := ⟨display⟩

end AttributeValue

/-- One attribute of a device: the service it belongs to and its name there. -/
structure AttributeRef where
  service : UInt32
  name : String
deriving DecidableEq, Inhabited

def AttributeRef.text (a : AttributeRef) : String :=
  toString a.service.toNat ++ "." ++ a.name

instance : ToString AttributeRef := ⟨AttributeRef.text⟩

/-- Request to set an attribute to a value. -/
structure Command where
  target : AttributeRef
  value : AttributeValue
deriving Inhabited

inductive Comparison where
  | greater
  | less
  | equal
deriving DecidableEq, Inhabited

namespace Comparison

def symbol : Comparison → String
  | greater => ">"
  | less => "<"
  | equal => "="

instance : ToString Comparison := ⟨symbol⟩

def ofSymbol? (s : String) : Option Comparison :=
  [greater, less, equal].find? fun c => c.symbol = s

/-- Whether a live value compares as wanted to the expected one. Greater and less need two numbers;
equality is numeric between numbers that can be ordered and of kind and content otherwise. -/
def holds (c : Comparison) (actual expected : AttributeValue) : Bool :=
  match c, actual.order? expected with
  | greater, some o => o == .gt
  | greater, none => false
  | less, some o => o == .lt
  | less, none => false
  | equal, some o => o == .eq
  | equal, none => actual.same expected

end Comparison

end HomeScenes
