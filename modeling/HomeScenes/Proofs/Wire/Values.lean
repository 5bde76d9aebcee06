import HomeScenes.Proofs.Calendar.Text
import HomeScenes.Proofs.Json.Text
import HomeScenes.Proofs.Json.Tree
import HomeScenes.Proofs.Uuid
import HomeScenes.Proofs.Weekdays
import HomeScenes.Wire.Scene
import HomeScenes.Wire.TaskRecord

/-!
# Small forms read back

Identifiers, times, choices, weekdays and attribute values are read back from their JSON
form. An attribute value has no tag, so it has to be canonical: a floating-point number is
finite, and what is free stands for null, an array or an object, since free values of the
other kinds are read as values of their own kind.
-/

namespace HomeScenes

open Json (GivesBack Node)

namespace Json

/-- A value that text can carry with some containers around it: it does not nest too deep and its
numbers are read back. -/
structure Carried (v : Json) (around : Nat) : Prop where
  fits : v.Fits around
  numbers : ∀ n ∈ v.numbers, n.ReadsBack

variable {around : Nat}

theorem carried_null (h : around ≤ deepest) : Json.null.Carried around :=
  ⟨fits_scalar h rfl, by simp [Json.numbers]⟩

theorem carried_bool (h : around ≤ deepest) (b : Bool) : (Json.bool b).Carried around :=
  ⟨fits_scalar h rfl, by simp [Json.numbers]⟩

theorem carried_text (h : around ≤ deepest) (s : String) : (Json.text s).Carried around :=
  ⟨fits_scalar h rfl, by simp [Json.numbers]⟩

theorem carried_word (h : around ≤ deepest) (k : UInt32) :
    (Json.int k.toNat).Carried around := by
  have small := k.toNat_lt
  refine ⟨fits_scalar h rfl, fun n hn => ?_⟩
  rw [Json.numbers, List.mem_singleton] at hn
  subst hn
  refine Numeral.readsBack_int ⟨by omega, ?_⟩
  simp only [Numeral.wordLimit]
  omega

theorem carried_array {items : List Json} (room : around < deepest)
    (h : ∀ v ∈ items, v.Carried (around + 1)) : (array items).Carried around := by
  refine ⟨.array room fun v hv => (h v hv).fits, fun n hn => ?_⟩
  rw [Json.numbers, numbersOfItems_eq, List.mem_flatMap] at hn
  obtain ⟨v, hv, hn⟩ := hn
  exact (h v hv).numbers n hn

theorem carried_object {members : List (String × Json)} (room : around < deepest)
    (h : ∀ m ∈ members, m.2.Carried (around + 1)) : (object members).Carried around := by
  refine ⟨.object room fun m hm => (h m hm).fits, fun n hn => ?_⟩
  rw [Json.numbers, numbersOfMembers_eq, List.mem_flatMap] at hn
  obtain ⟨m, hm, hn⟩ := hn
  exact (h m hm).numbers n hn

theorem carried_option {α : Type} {form : α → Json} {o : Option α} (room : around ≤ deepest)
    (h : ∀ a ∈ o, (form a).Carried around) : (Json.ofOption form o).Carried around := by
  cases o with
  | none => exact carried_null room
  | some a => exact h a rfl

theorem givesBack_option {α : Type} {read : Node → Option α} {form : α → Json} {o : Option α}
    (h : ∀ a ∈ o, GivesBack read (form a) a) (filled : ∀ a, form a ≠ .null) :
    GivesBack (Node.optional? read) (Json.ofOption form o) o := by
  cases o with
  | none => exact givesBack_none read
  | some a => exact (h a rfl).some (filled a)

/-- A number of 32 bits is read from its text. -/
theorem word_node (k : UInt32) (depth : Nat) (settled : Bool) :
    (((Json.int k.toNat).node depth settled).natBelow? 4294967296).map UInt32.ofNat = some k := by
  have small : k.toNat < 4294967296 := by have := k.toNat_lt; omega
  have range : (0 : Int) ≤ k.toNat ∧ (k.toNat : Int) < (4294967296 : Nat) := by omega
  simp only [Node.natBelow?, node, raw, if_pos range, Int.toNat_natCast, Option.map_some,
    UInt32.ofNat_toNat]

end Json

theorem Uuid.givesBack (u : Uuid) : GivesBack Uuid.ofNode? u.toJson u :=
  (Json.givesBack_text u.text).bind (Uuid.ofText?_text u)

theorem SceneId.givesBack (id : SceneId) : GivesBack SceneId.ofNode? id.toJson id :=
  (Uuid.givesBack id.uuid).map SceneId.mk

theorem DeviceId.givesBack (id : DeviceId) : GivesBack DeviceId.ofNode? id.toJson id :=
  (Uuid.givesBack id.uuid).map DeviceId.mk

theorem TimeOfDay.givesBack {t : TimeOfDay} (h : t.Showable) :
    GivesBack TimeOfDay.ofNode? t.toJson t :=
  (Json.givesBack_text t.text).bind (TimeOfDay.ofText?_text h)

theorem Instant.givesBack {t : Instant} (h : t.Showable) : GivesBack Instant.ofNode? t.toJson t :=
  (Json.givesBack_text t.text).bind (Instant.ofText?_text h)

theorem Comparison.givesBack (c : Comparison) : GivesBack Comparison.ofNode? c.toJson c :=
  (Json.givesBack_choice c.symbol).bind (by cases c <;> decide)

theorem Recurrence.givesBack (r : Recurrence) : GivesBack Recurrence.ofNode? r.toJson r :=
  (Json.givesBack_choice r.text).bind (by cases r <;> decide)

theorem Logic.givesBack (l : Logic) : GivesBack Logic.ofNode? l.toJson l :=
  (Json.givesBack_choice l.text).bind (by cases l <;> decide)

theorem Outcome.givesBack (o : Outcome) : GivesBack Outcome.ofNode? o.toJson o :=
  (Json.givesBack_choice o.text).bind (by cases o <;> decide)

theorem Json.givesBack_textOption (o : Option String) :
    GivesBack (Node.optional? Node.text?) (Json.ofOption Json.text o) o :=
  givesBack_option (fun s _ => givesBack_text s) nofun

theorem Uuid.givesBack_option (o : Option Uuid) :
    GivesBack (Node.optional? Uuid.ofNode?) (Json.ofOption Uuid.toJson o) o :=
  Json.givesBack_option (fun u _ => u.givesBack) nofun

theorem Outcome.givesBack_option (o : Option Outcome) :
    GivesBack (Node.optional? Outcome.ofNode?) (Json.ofOption Outcome.toJson o) o :=
  Json.givesBack_option (fun o _ => o.givesBack) nofun

theorem Instant.givesBack_option {o : Option Instant} (h : ∀ t ∈ o, t.Showable) :
    GivesBack (Node.optional? Instant.ofNode?) (Json.ofOption Instant.toJson o) o :=
  Json.givesBack_option (fun t ht => Instant.givesBack (h t ht)) nofun

namespace Weekdays

theorem givesBack (w : Weekdays) : GivesBack Weekdays.ofNode? w.toJson w :=
  (Json.givesBack_text w.text).bind (by rw [text, String.toList_ofList, ofChars?_chars])

end Weekdays

/-- A free value that no attribute value of another kind is written as. -/
def Json.IsFree : Json → Prop
  | .null | .array _ | .object _ => True
  | _ => False

namespace AttributeValue

/-- A value that decoding can give, with some containers around it. -/
def Canonical (around : Nat) : AttributeValue → Prop
  | .float d => d.IsFinite
  | .json v => v.IsFree ∧ v.Proper ∧ v.Fits around
  | _ => True

def FloatsReadBack (v : AttributeValue) : Prop :=
  ∀ d, .float d ∈ v.toJson.numbers → (Json.Numeral.float d).ReadsBack

variable {v : AttributeValue} {around : Nat}

theorem Canonical.proper (h : v.Canonical around) : v.toJson.Proper := by
  cases v with
  | bool b => exact ⟨by simp [toJson, Json.numbers], trivial⟩
  | int i =>
    refine ⟨fun n hn => ?_, trivial⟩
    rw [toJson, Json.numbers, List.mem_singleton] at hn
    subst hn
    have low := i.le_toInt
    have high := i.toInt_lt
    simp only [Json.Numeral.Proper, Json.Numeral.wordLimit]
    omega
  | float d =>
    refine ⟨fun n hn => ?_, trivial⟩
    rw [toJson, Json.numbers, List.mem_singleton] at hn
    subst hn
    exact h
  | text s => exact ⟨by simp [toJson, Json.numbers], trivial⟩
  | json v => exact h.2.1

theorem Canonical.fits (h : v.Canonical around) (room : around ≤ Json.deepest) :
    v.toJson.Fits around := by
  cases v with
  | bool | int | float | text => exact Json.fits_scalar room rfl
  | json v => exact h.2.2

theorem Canonical.carried (h : v.Canonical around) (floats : v.FloatsReadBack)
    (room : around ≤ Json.deepest) : v.toJson.Carried around := by
  refine ⟨h.fits room, fun n hn => ?_⟩
  cases n with
  | int i => exact Json.Numeral.readsBack_int (h.proper.numbers _ hn)
  | float d => exact floats d hn

/-- The kind of a canonical value is found again from its form. -/
theorem Canonical.ofJson_toJson (h : v.Canonical around) : ofJson v.toJson = v := by
  cases v with
  | bool | float | text => rfl
  | int i =>
    have range : -9223372036854775808 ≤ i.toInt ∧ i.toInt < 9223372036854775808 :=
      ⟨i.le_toInt, i.toInt_lt⟩
    simp only [toJson, ofJson, if_pos range, Int64.ofInt_toInt]
  | json v =>
    cases v with
    | null | array | object => rfl
    | bool | int | float | text => exact h.1.elim

theorem Canonical.givesBack (h : v.Canonical around) :
    GivesBack AttributeValue.ofNode? v.toJson v := by
  intro depth settled fits
  rw [ofNode?, Json.settle?_node fits, Option.bind_some]
  simp only [Json.node, Json.toJson?_raw h.proper.sorted, Option.map_some, h.ofJson_toJson]

end AttributeValue

end HomeScenes
