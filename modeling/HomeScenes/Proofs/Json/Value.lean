import Mathlib.Data.List.Basic
import Mathlib.Order.Lattice
import HomeScenes.Json.Node
import HomeScenes.Proofs.Double

/-!
# What a JSON value is made of

The tree that a value is written as, the numbers in it and how deep it nests. A value is
proper when it is one that the reader of free values can give: integers of 64 bits with
or without a sign, finite floating-point numbers, members in the order of their keys.
-/

namespace HomeScenes

namespace Json

/-- A claim about all values follows from the claim for each kind of value, for containers from
the claim for what they hold. -/
@[elab_as_elim]
theorem inductionOn {P : Json → Prop} (v : Json) (null : P .null) (bool : ∀ b, P (.bool b))
    (int : ∀ i, P (.int i)) (float : ∀ d, P (.float d)) (text : ∀ s, P (.text s))
    (array : ∀ items, (∀ v ∈ items, P v) → P (.array items))
    (object : ∀ members, (∀ m ∈ members, P m.2) → P (.object members)) : P v :=
  go v
where
  go : ∀ v, P v
    | .null => null
    | .bool b => bool b
    | .int i => int i
    | .float d => float d
    | .text s => text s
    | .array items => array items (goItems items)
    | .object members => object members (goMembers members)
  goItems : ∀ items : List Json, ∀ v ∈ items, P v
    | v :: _, _, .head _ => go v
    | _ :: vs, w, .tail _ h => goItems vs w h
  goMembers : ∀ members : List (String × Json), ∀ m ∈ members, P m.2
    | (_, v) :: _, _, .head _ => go v
    | _ :: ms, m, .tail _ h => goMembers ms m h

mutual

/-- The tree that the text of a value is read as. -/
def raw : Json → Raw
  | null => .null
  | bool b => .bool b
  | int i => .number (some (.int i))
  | float d => .number (some (.float d))
  | text s => .text (some s)
  | array items => .array (rawItems items)
  | object members => .object (rawMembers members)

def rawItems : List Json → List Raw
  | [] => []
  | v :: vs => raw v :: rawItems vs

def rawMembers : List (String × Json) → List (Option String × Raw)
  | [] => []
  | (k, v) :: ms => (some k, raw v) :: rawMembers ms

end

@[simp] theorem rawItems_eq (items : List Json) : rawItems items = items.map raw := by
  induction items with
  | nil => rfl
  | cons v vs ih => rw [rawItems, ih, List.map_cons]

@[simp] theorem rawMembers_eq (members : List (String × Json)) :
    rawMembers members = members.map fun m => (some m.1, m.2.raw) := by
  induction members with
  | nil => rfl
  | cons m ms ih => rw [rawMembers, ih, List.map_cons]

mutual

def numbers : Json → List Numeral
  | int i => [.int i]
  | float d => [.float d]
  | null | bool _ | text _ => []
  | array items => numbersOfItems items
  | object members => numbersOfMembers members

def numbersOfItems : List Json → List Numeral
  | [] => []
  | v :: vs => numbers v ++ numbersOfItems vs

def numbersOfMembers : List (String × Json) → List Numeral
  | [] => []
  | (_, v) :: ms => numbers v ++ numbersOfMembers ms

end

@[simp] theorem numbersOfItems_eq (items : List Json) :
    numbersOfItems items = items.flatMap numbers := by
  induction items with
  | nil => rfl
  | cons v vs ih => rw [numbersOfItems, ih, List.flatMap_cons]

@[simp] theorem numbersOfMembers_eq (members : List (String × Json)) :
    numbersOfMembers members = members.flatMap fun m => m.2.numbers := by
  induction members with
  | nil => rfl
  | cons m ms ih => rw [numbersOfMembers, ih, List.flatMap_cons]

namespace Numeral

def Proper : Numeral → Prop
  | int i => -9223372036854775808 ≤ i ∧ i < wordLimit
  | float d => d.IsFinite

def chars : Numeral → List Char
  | int i => intChars i
  | float d => d.jsonText?.getD ['n', 'u', 'l', 'l']

def ReadsBack (n : Numeral) : Prop :=
  ofChars? n.chars = some (some n)

end Numeral

mutual

/-- How many containers are open at once where a value nests deepest. -/
def depth : Json → Nat
  | null | bool _ | int _ | float _ | text _ => 0
  | array items => depthOfItems items + 1
  | object members => depthOfMembers members + 1

def depthOfItems : List Json → Nat
  | [] => 0
  | v :: vs => max (depth v) (depthOfItems vs)

def depthOfMembers : List (String × Json) → Nat
  | [] => 0
  | (_, v) :: ms => max (depth v) (depthOfMembers ms)

end

theorem depthOfItems_le {items : List Json} {k : Nat} :
    depthOfItems items ≤ k ↔ ∀ v ∈ items, v.depth ≤ k := by
  induction items with
  | nil => simp [depthOfItems]
  | cons v vs ih => simp [depthOfItems, ih]

theorem depthOfMembers_le {members : List (String × Json)} {k : Nat} :
    depthOfMembers members ≤ k ↔ ∀ m ∈ members, m.2.depth ≤ k := by
  induction members with
  | nil => simp [depthOfMembers]
  | cons m ms ih => simp [depthOfMembers, ih]

mutual

/-- In every object the members stand in the order of their keys, each key once. -/
def Sorted : Json → Prop
  | null | bool _ | int _ | float _ | text _ => True
  | array items => SortedItems items
  | object members => (members.map Prod.fst).Pairwise (· < ·) ∧ SortedMembers members

def SortedItems : List Json → Prop
  | [] => True
  | v :: vs => Sorted v ∧ SortedItems vs

def SortedMembers : List (String × Json) → Prop
  | [] => True
  | (_, v) :: ms => Sorted v ∧ SortedMembers ms

end

@[simp] theorem sortedItems_iff {items : List Json} :
    SortedItems items ↔ ∀ v ∈ items, v.Sorted := by
  induction items with
  | nil => simp [SortedItems]
  | cons v vs ih => simp [SortedItems, ih]

@[simp] theorem sortedMembers_iff {members : List (String × Json)} :
    SortedMembers members ↔ ∀ m ∈ members, m.2.Sorted := by
  induction members with
  | nil => simp [SortedMembers]
  | cons m ms ih => simp [SortedMembers, ih]

/-- A free value as the reader gives it. -/
structure Proper (v : Json) : Prop where
  numbers : ∀ n ∈ v.numbers, n.Proper
  sorted : v.Sorted

end Json

end HomeScenes
