import HomeScenes.Json
import HomeScenes.Json.Reader

/-!
# Taking JSON trees apart

A node is a place in a tree, with the number of containers around it. Records are
read by the names of their fields: unknown fields are passed over without a look at
their values, a repeated field is refused. A record may also stand as the array of
all its fields. Tagged records and free values are checked as a whole before they are
taken apart; such nodes are called settled.
-/

namespace HomeScenes.Json

/-- Containers that may be open at once. -/
def deepest : Nat := 127

structure Node where
  raw : Raw
  depth : Nat
  settled : Bool

namespace Raw

mutual

/-- Whether every text and number in a tree has a value and no container is too deep. -/
def wellFormed (depth : Nat) : Raw → Bool
  | null => true
  | bool _ => true
  | number n => n.isSome
  | text s => s.isSome
  | array items => depth < deepest && wellFormedItems (depth + 1) items
  | object members => depth < deepest && wellFormedMembers (depth + 1) members

def wellFormedItems (depth : Nat) : List Raw → Bool
  | [] => true
  | r :: rs => wellFormed depth r && wellFormedItems depth rs

def wellFormedMembers (depth : Nat) : List (Option String × Raw) → Bool
  | [] => true
  | (k, r) :: ms => k.isSome && wellFormed depth r && wellFormedMembers depth ms

end

mutual

/-- The free value of a tree: members sorted by key, the last of repeated keys kept. -/
def toJson? : Raw → Option Json
  | null => some .null
  | bool b => some (.bool b)
  | number (some (.int i)) => some (.int i)
  | number (some (.float d)) => some (.float d)
  | number none => none
  | text (some s) => some (.text s)
  | text none => none
  | array items => (itemsToJson? items).map .array
  | object members => (membersToJson? members []).map .object

def itemsToJson? : List Raw → Option (List Json)
  | [] => some []
  | r :: rs =>
    match toJson? r, itemsToJson? rs with
    | some v, some vs => some (v :: vs)
    | _, _ => none

/-- Members are added in order to those before them. -/
def membersToJson? :
    List (Option String × Raw) → List (String × Json) → Option (List (String × Json))
  | [], sorted => some sorted
  | (none, _) :: _, _ => none
  | (some k, r) :: ms, sorted =>
    match toJson? r with
    | some v => membersToJson? ms (insertMember k v sorted)
    | none => none

end

/-- The free value of a tree that is well-formed as a whole. -/
def free? (r : Raw) : Option Json :=
  if r.wellFormed 0 then r.toJson? else none

end Raw

/-- A free value read from text. -/
def ofText? (s : String) : Option Json :=
  (Raw.ofChars? s.toList).bind Raw.free?

namespace Node

def ofText? (s : String) : Option Node :=
  (Raw.ofChars? s.toList).map fun r => ⟨r, 0, false⟩

/-- Check a node as a whole. -/
def settle? (n : Node) : Option Node :=
  if n.settled then some n
  else if n.raw.wellFormed n.depth then some { n with settled := true }
  else none

def isNull (n : Node) : Bool :=
  match n.raw with
  | .null => true
  | _ => false

def text? (n : Node) : Option String :=
  match n.raw with
  | .text s => s
  | _ => none

def bool? (n : Node) : Option Bool :=
  match n.raw with
  | .bool b => some b
  | _ => none

/-- A natural number below a limit. -/
def natBelow? (limit : Nat) (n : Node) : Option Nat :=
  match n.raw with
  | .number (some (.int i)) => if 0 ≤ i ∧ i < limit then some i.toNat else none
  | _ => none

def inside (n : Node) (r : Raw) : Node :=
  ⟨r, n.depth + 1, n.settled⟩

def items? (n : Node) : Option (List Node) :=
  match n.raw with
  | .array items => if n.depth < deepest then some (items.map n.inside) else none
  | _ => none

def keyed? (n : Node) : Option String × Raw → Option (String × Node)
  | (some k, r) => some (k, n.inside r)
  | (none, _) => none

def members? (n : Node) : Option (List (String × Node)) :=
  match n.raw with
  | .object members => if n.depth < deepest then members.mapM n.keyed? else none
  | _ => none

/-- The values under a name. -/
def named (name : String) (ms : List (String × Node)) : List Node :=
  (ms.filter fun m => m.1 = name).map Prod.snd

/-- The value under a name, if there is one; a repeated name is refused. -/
def single? (name : String) (ms : List (String × Node)) : Option (Option Node) :=
  match named name ms with
  | [] => some none
  | [v] => some (some v)
  | _ => none

/-- The fields of a record in the order of their names, absent ones as `none`. -/
def fields? (names : List String) (n : Node) : Option (List (Option Node)) :=
  match n.raw with
  | .array _ =>
    match n.items? with
    | some vs => if vs.length = names.length then some (vs.map some) else none
    | none => none
  | _ => n.members?.bind fun ms => names.mapM fun name => single? name ms

/-- The fields of a record that stands as an object only, and the other members as a settled
object of their own. -/
def splitFields? (names : List String) (n : Node) : Option (List (Option Node) × Node) := do
  let ms ← n.members?
  let fields ← names.mapM fun name => single? name ms
  let others := ms.filter fun m => !names.contains m.1
  let rest : Node := ⟨.object (others.map fun m => (some m.1, m.2.raw)), n.depth, n.settled⟩
  let rest ← rest.settle?
  return (fields, rest)

/-- The tag of a tagged record and the rest of it. In a settled node the number of a tag may stand
for its name. -/
def tagged? (tags : List String) (n : Node) : Option (String × Node) :=
  let tagOf? (t : Node) : Option String :=
    match t.raw with
    | .text (some s) => if tags.contains s then some s else none
    | .number (some (.int i)) => if n.settled ∧ 0 ≤ i then tags[i.toNat]? else none
    | _ => none
  match n.raw with
  | .array (t :: rest) => do
    if deepest ≤ n.depth then none
    let tag ← tagOf? (n.inside t)
    let rest ← settle? ⟨.array rest, n.depth, n.settled⟩
    return (tag, rest)
  | _ => do
    let (fields, rest) ← n.splitFields? ["type"]
    match fields with
    | [some t] =>
      let tag ← tagOf? t
      return (tag, rest)
    | _ => none

/-- A tagged record without fields: members are passed over, items are refused. -/
def noFields? (n : Node) : Option Unit :=
  match n.raw with
  | .array [] => some ()
  | .object _ => some ()
  | _ => none

/-- Whether a node stands for nothing. -/
def isUnit (n : Node) : Bool :=
  match n.raw with
  | .null => true
  | .object [] => n.settled
  | _ => false

/-- One of several names: the name itself, or an object whose only key it is and whose value
stands for nothing. -/
def choice? (n : Node) : Option String :=
  match n.raw with
  | .object _ =>
    match n.members? with
    | some [(k, v)] => if v.isUnit then some k else none
    | _ => none
  | _ => n.text?

/-- A value that may be null. -/
def optional? {α : Type} (read : Node → Option α) (n : Node) : Option (Option α) :=
  if n.isNull then some none else (read n).map some

/-- A field that must be there. -/
def required? {α : Type} (read : Node → Option α) (field : Option Node) : Option α :=
  field.bind read

/-- A field that may be absent or null. -/
def absentOr? {α : Type} (read : Node → Option α) (field : Option Node) : Option (Option α) :=
  match field with
  | none => some none
  | some n => n.optional? read

end Node

end HomeScenes.Json
