import HomeScenes.Text.Digits

/-!
# 128-bit identifiers

Scenes, devices, conditions, actions and logged tasks are told apart by a 128-bit
number, written as 32 hexadecimal digits in groups of 8, 4, 4, 4 and 12.
-/

namespace HomeScenes

structure Uuid where
  value : BitVec 128
deriving DecidableEq, Hashable, Inhabited

namespace Uuid

def ofNat (n : Nat) : Uuid :=
  ⟨BitVec.ofNat 128 n⟩

def toNat (u : Uuid) : Nat :=
  u.value.toNat

/-- Lengths of the groups between hyphens. -/
def groups : List Nat :=
  [8, 4, 4, 4, 12]

def hexDigits (u : Uuid) : List Char :=
  let ds := Nat.toDigits 16 u.toNat
  List.replicate (32 - ds.length) '0' ++ ds

/-- Cut a row of characters into groups of the given lengths, with hyphens between them. -/
def hyphenate : List Nat → List Char → List Char
  | [], cs => cs
  | [_], cs => cs
  | n :: ns, cs => cs.take n ++ '-' :: hyphenate ns (cs.drop n)

def text (u : Uuid) : String :=
  String.ofList (hyphenate groups u.hexDigits)

def hexValue? (c : Char) : Option Nat :=
  if '0' ≤ c && c ≤ '9' then some (c.toNat - '0'.toNat)
  else if 'a' ≤ c && c ≤ 'f' then some (c.toNat - 'a'.toNat + 10)
  else if 'A' ≤ c && c ≤ 'F' then some (c.toNat - 'A'.toNat + 10)
  else none

/-- The number written by exactly 32 hexadecimal digits, in either case. -/
def ofHexDigits? (cs : List Char) : Option Uuid :=
  if cs.length = 32 then
    (cs.foldlM (fun n c => (hexValue? c).map (16 * n + ·)) 0).map ofNat
  else none

/-- Undo `hyphenate`: the characters without the hyphens, which must stand between the groups. -/
def unhyphenate? : List Nat → List Char → Option (List Char)
  | [], cs => some cs
  | [_], cs => some cs
  | n :: ns, cs =>
    match cs.drop n with
    | '-' :: rest => (unhyphenate? ns rest).map (cs.take n ++ ·)
    | _ => none

def ofHyphenated? (cs : List Char) : Option Uuid :=
  if cs.length = 36 then (unhyphenate? groups cs).bind ofHexDigits? else none

/-- The scheme in front of an identifier written as a resource name. -/
def urnScheme : List Char :=
  ['u', 'r', 'n', ':', 'u', 'u', 'i', 'd', ':']

/-- Four spellings are read: plain digits, hyphenated groups, hyphenated groups in braces and
hyphenated groups after the resource-name scheme. -/
def ofChars? (cs : List Char) : Option Uuid :=
  match cs.length with
  | 32 => ofHexDigits? cs
  | 36 => ofHyphenated? cs
  | 38 =>
    if cs.head? = some '\x7b' ∧ cs.getLast? = some '\x7d' then
      ofHyphenated? (cs.tail.dropLast)
    else none
  | 45 => if cs.take 9 = urnScheme then ofHyphenated? (cs.drop 9) else none
  | _ => none

def ofText? (s : String) : Option Uuid :=
  ofChars? s.toList

end Uuid

instance : ToString Uuid := ⟨Uuid.text⟩

/-- Identifiers are ordered as numbers, which is also the order of their texts. -/
instance : Ord Uuid := ⟨fun a b => compare a.toNat b.toNat⟩

structure SceneId where
  uuid : Uuid
deriving DecidableEq, Hashable, Inhabited

instance : ToString SceneId := ⟨fun id => id.uuid.text⟩

structure DeviceId where
  uuid : Uuid
deriving DecidableEq, Hashable, Inhabited

instance : ToString DeviceId := ⟨fun id => id.uuid.text⟩

end HomeScenes
