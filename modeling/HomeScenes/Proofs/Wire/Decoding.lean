import HomeScenes.Proofs.Json.Decoding
import HomeScenes.Proofs.Wire.Records

/-!
# Parts of records that were decoded

Whatever a record is decoded from, an object or the array of its fields, each of its
attribute values is canonical at the depth it has in the text of the record, its times of
day are shown by their own texts, and so are the times of its instants.
-/

namespace HomeScenes

open Json (Node)
open Json.Node (items?_below fields?_below splitFields?_sound tagged?_sound mem_mapM)

def Parts.decoded : Parts where
  value := AttributeValue.Canonical
  time := TimeOfDay.Showable
  instant t := t.time.Showable

variable {n : Node} {field : Option Node}

theorem TimeOfDay.showable_of_required {t : TimeOfDay}
    (h : Node.required? TimeOfDay.ofNode? field = some t) : t.Showable := by
  obtain ⟨m, -, h⟩ := Option.bind_eq_some_iff.1 h
  obtain ⟨s, -, read⟩ := Option.bind_eq_some_iff.1 h
  exact TimeOfDay.ofText?_showable read

theorem Instant.showable_of_node {t : Instant} (h : Instant.ofNode? n = some t) :
    t.time.Showable := by
  obtain ⟨s, -, read⟩ := Option.bind_eq_some_iff.1 h
  exact Instant.ofText?_showable read

theorem Instant.showable_of_required {t : Instant}
    (h : Node.required? Instant.ofNode? field = some t) : t.time.Showable := by
  obtain ⟨m, -, read⟩ := Option.bind_eq_some_iff.1 h
  exact showable_of_node read

theorem Instant.showable_of_absentOr {o : Option Instant}
    (h : Node.absentOr? Instant.ofNode? field = some o) : ∀ t ∈ o, t.time.Showable := by
  unfold Node.absentOr? at h
  split at h
  · cases h
    simp
  · unfold Node.optional? at h
    split at h
    · cases h
      simp
    · obtain ⟨t, read, rfl⟩ := Option.map_eq_some_iff.1 h
      rintro t' same
      obtain rfl : t = t' := Option.some.inj same
      exact showable_of_node read

namespace AttributeValue

theorem ofJson_canonical {v : Json} {around : Nat} (proper : v.Proper) (fits : v.Fits around) :
    (ofJson v).Canonical around := by
  cases v with
  | bool | text => trivial
  | float d => exact proper.numbers _ List.mem_cons_self
  | null | array | object => exact ⟨trivial, proper, fits⟩
  | int i =>
    have range : (Json.Numeral.int i).Proper := proper.numbers _ List.mem_cons_self
    simp only [ofJson]
    split
    · trivial
    · obtain ⟨low, high⟩ := range
      simp only [Json.Numeral.wordLimit] at high
      exact Double.ofInt_isFinite (by omega)

/-- Every attribute value that is decoded is canonical where it stands. -/
theorem canonical_of_node (hn : n.Sound) {v : AttributeValue} (h : ofNode? n = some v) :
    v.Canonical n.depth := by
  obtain ⟨j, free, rfl⟩ := Option.map_eq_some_iff.1 h
  obtain ⟨m, settled, free⟩ := Option.bind_eq_some_iff.1 free
  obtain ⟨sound, depth, -, wellFormed⟩ := Node.settle?_spec hn settled
  obtain ⟨proper, fits⟩ := Json.Raw.toJson?_spec free sound.proper
  exact depth ▸ ofJson_canonical proper (fits m.depth sound.room wellFormed)

theorem canonical_of_required (below : ∀ m ∈ field, n.Below m) {v : AttributeValue}
    (h : Node.required? ofNode? field = some v) : v.Canonical (n.depth + 1) := by
  obtain ⟨m, hm, read⟩ := Option.bind_eq_some_iff.1 h
  have under := below m hm
  exact under.depth ▸ canonical_of_node under.sound read

end AttributeValue

/-- What holds of everything decoded from one level below a node holds of the items decoded from
a field of a record at that node. -/
theorem each_of_items {α : Type} {read : Node → Option α} {P : Nat → α → Prop}
    (each : ∀ {m : Node}, m.Sound → ∀ {a}, read m = some a → P m.depth a)
    (below : ∀ m ∈ field, n.Below m) {as : List α}
    (h : Node.required? (fun m => m.items?.bind fun items => items.mapM read) field = some as) :
    ∀ a ∈ as, P (n.depth + 2) a := by
  obtain ⟨m, hm, h⟩ := Option.bind_eq_some_iff.1 h
  obtain ⟨items, found, h⟩ := Option.bind_eq_some_iff.1 h
  intro a ha
  obtain ⟨item, hitem, read⟩ := mem_mapM h a ha
  have under := below m hm
  have inner := items?_below under.sound found item hitem
  have depth : item.depth = n.depth + 2 := by rw [inner.depth, under.depth]
  exact depth ▸ each inner.sound read

theorem Command.each_of_node (hn : n.Sound) {c : Command} (h : Command.ofNode? n = some c) :
    c.Each .decoded n.depth := by
  obtain ⟨⟨fields, rest⟩, parts, h⟩ := Option.bind_eq_some_iff.1 h
  dsimp only at h
  split at h
  · rename_i value
    obtain ⟨v, found, h⟩ := Option.bind_eq_some_iff.1 h
    obtain ⟨target, -, h⟩ := Option.bind_eq_some_iff.1 h
    cases h
    have below := (splitFields?_sound hn parts).1 value List.mem_cons_self
    exact AttributeValue.canonical_of_required below found
  · cases h

theorem Window.each_of_node {w : Window} (h : Window.ofNode? n = some w) : w.Each .decoded := by
  obtain ⟨⟨tag, rest⟩, -, h⟩ := Option.bind_eq_some_iff.1 h
  dsimp only at h
  split at h
  · obtain ⟨_, -, h⟩ := Option.bind_eq_some_iff.1 h
    cases h
    trivial
  · obtain ⟨fields, -, h⟩ := Option.bind_eq_some_iff.1 h
    split at h
    · obtain ⟨start, hstart, h⟩ := Option.bind_eq_some_iff.1 h
      obtain ⟨stop, hstop, h⟩ := Option.bind_eq_some_iff.1 h
      cases h
      exact ⟨TimeOfDay.showable_of_required hstart, TimeOfDay.showable_of_required hstop⟩
    · cases h

namespace Condition

theorem each_of_kind (hn : n.Sound) {id : Uuid} {kind : Kind} (h : Kind.ofNode? n = some kind) :
    Each .decoded n.depth ⟨id, kind⟩ := by
  obtain ⟨⟨tag, rest⟩, parts, h⟩ := Option.bind_eq_some_iff.1 h
  obtain ⟨sound, depth⟩ := tagged?_sound hn parts
  dsimp only at h
  split at h
  · obtain ⟨fields, -, h⟩ := Option.bind_eq_some_iff.1 h
    split at h
    · obtain ⟨t, found, rfl⟩ := Option.map_eq_some_iff.1 h
      exact TimeOfDay.showable_of_required found
    · cases h
  · obtain ⟨fields, found, h⟩ := Option.bind_eq_some_iff.1 h
    have below := fields?_below sound found
    split at h
    · rename_i device attr comparison value
      obtain ⟨_, -, h⟩ := Option.bind_eq_some_iff.1 h
      obtain ⟨_, -, h⟩ := Option.bind_eq_some_iff.1 h
      obtain ⟨_, -, h⟩ := Option.bind_eq_some_iff.1 h
      obtain ⟨v, found, h⟩ := Option.bind_eq_some_iff.1 h
      cases h
      exact depth ▸ AttributeValue.canonical_of_required (below value (by simp)) found
    · cases h

theorem each_of_node (hn : n.Sound) {c : Condition} (h : ofNode? n = some c) :
    c.Each .decoded n.depth := by
  obtain ⟨⟨fields, rest⟩, parts, h⟩ := Option.bind_eq_some_iff.1 h
  obtain ⟨-, sound, depth⟩ := splitFields?_sound hn parts
  dsimp only at h
  split at h
  · obtain ⟨id, -, h⟩ := Option.bind_eq_some_iff.1 h
    obtain ⟨kind, found, h⟩ := Option.bind_eq_some_iff.1 h
    cases h
    exact depth ▸ each_of_kind sound found
  · cases h

end Condition

namespace Action

theorem each_of_kind (hn : n.Sound) {id : Uuid} {delay : UInt32} {kind : Kind}
    (h : Kind.ofNode? n = some kind) : Each .decoded n.depth ⟨id, delay, kind⟩ := by
  obtain ⟨⟨tag, rest⟩, parts, h⟩ := Option.bind_eq_some_iff.1 h
  obtain ⟨sound, depth⟩ := tagged?_sound hn parts
  dsimp only at h
  split at h
  · obtain ⟨fields, found, h⟩ := Option.bind_eq_some_iff.1 h
    have below := fields?_below sound found
    split at h
    · rename_i device commands
      obtain ⟨_, -, h⟩ := Option.bind_eq_some_iff.1 h
      obtain ⟨cs, found, h⟩ := Option.bind_eq_some_iff.1 h
      cases h
      exact depth ▸ each_of_items Command.each_of_node (below commands (by simp)) found
    · cases h
  all_goals
    obtain ⟨scene, -, rfl⟩ := Option.map_eq_some_iff.1 h
    trivial

theorem each_of_node (hn : n.Sound) {a : Action} (h : ofNode? n = some a) :
    a.Each .decoded n.depth := by
  obtain ⟨⟨fields, rest⟩, parts, h⟩ := Option.bind_eq_some_iff.1 h
  obtain ⟨-, sound, depth⟩ := splitFields?_sound hn parts
  dsimp only at h
  split at h
  · obtain ⟨id, -, h⟩ := Option.bind_eq_some_iff.1 h
    -- The delay is the default or a number; the kind does not depend on it.
    split at h
    all_goals
      obtain ⟨delay, -, h⟩ := Option.bind_eq_some_iff.1 h
      obtain ⟨kind, found, h⟩ := Option.bind_eq_some_iff.1 h
      cases h
      exact depth ▸ each_of_kind sound found
  · cases h

end Action

theorem Scene.each_of_node (hn : n.Sound) (top : n.depth = 0) {s : Scene}
    (h : Scene.ofNode? n = some s) : s.Each .decoded := by
  obtain ⟨fields, found, h⟩ := Option.bind_eq_some_iff.1 h
  have below := fields?_below hn found
  split at h
  · rename_i id name automatic armed logic window recurrence weekdays conditions actions
      createdAt deletedAt
    obtain ⟨_, -, h⟩ := Option.bind_eq_some_iff.1 h
    obtain ⟨_, -, h⟩ := Option.bind_eq_some_iff.1 h
    obtain ⟨_, -, h⟩ := Option.bind_eq_some_iff.1 h
    obtain ⟨_, -, h⟩ := Option.bind_eq_some_iff.1 h
    obtain ⟨_, -, h⟩ := Option.bind_eq_some_iff.1 h
    obtain ⟨w, hw, h⟩ := Option.bind_eq_some_iff.1 h
    obtain ⟨_, -, h⟩ := Option.bind_eq_some_iff.1 h
    obtain ⟨_, -, h⟩ := Option.bind_eq_some_iff.1 h
    obtain ⟨cs, hcs, h⟩ := Option.bind_eq_some_iff.1 h
    obtain ⟨as, has, h⟩ := Option.bind_eq_some_iff.1 h
    obtain ⟨t, ht, h⟩ := Option.bind_eq_some_iff.1 h
    obtain ⟨o, ho, h⟩ := Option.bind_eq_some_iff.1 h
    cases h
    have conditions := each_of_items Condition.each_of_node (below conditions (by simp)) hcs
    have actions := each_of_items Action.each_of_node (below actions (by simp)) has
    rw [top] at conditions actions
    obtain ⟨_, -, window⟩ := Option.bind_eq_some_iff.1 hw
    exact ⟨Window.each_of_node window, conditions, actions, Instant.showable_of_required ht,
      Instant.showable_of_absentOr ho⟩
  · cases h

theorem Device.each_of_node {d : Device} (h : Device.ofNode? n = some d) : d.Each .decoded := by
  obtain ⟨fields, -, h⟩ := Option.bind_eq_some_iff.1 h
  split at h
  · obtain ⟨_, -, h⟩ := Option.bind_eq_some_iff.1 h
    obtain ⟨_, -, h⟩ := Option.bind_eq_some_iff.1 h
    obtain ⟨_, -, h⟩ := Option.bind_eq_some_iff.1 h
    obtain ⟨_, -, h⟩ := Option.bind_eq_some_iff.1 h
    obtain ⟨_, -, h⟩ := Option.bind_eq_some_iff.1 h
    obtain ⟨_, -, h⟩ := Option.bind_eq_some_iff.1 h
    obtain ⟨o, ho, h⟩ := Option.bind_eq_some_iff.1 h
    cases h
    exact Instant.showable_of_absentOr ho
  · cases h

theorem DeviceEvent.each_of_node (hn : n.Sound) (top : n.depth = 0) {e : DeviceEvent}
    (h : DeviceEvent.ofNode? n = some e) : e.Each .decoded := by
  obtain ⟨fields, found, h⟩ := Option.bind_eq_some_iff.1 h
  have below := fields?_below hn found
  split at h
  · rename_i device attr value timestamp
    obtain ⟨_, -, h⟩ := Option.bind_eq_some_iff.1 h
    obtain ⟨_, -, h⟩ := Option.bind_eq_some_iff.1 h
    obtain ⟨v, hv, h⟩ := Option.bind_eq_some_iff.1 h
    obtain ⟨t, ht, h⟩ := Option.bind_eq_some_iff.1 h
    cases h
    have canonical := AttributeValue.canonical_of_required (below value (by simp)) hv
    rw [top] at canonical
    exact ⟨canonical, Instant.showable_of_required ht⟩
  · cases h

theorem TaskRecord.each_of_node {r : TaskRecord Uuid} (h : TaskRecord.ofNode? n = some r) :
    TaskRecord.Each .decoded r := by
  obtain ⟨fields, -, h⟩ := Option.bind_eq_some_iff.1 h
  split at h
  · obtain ⟨_, -, h⟩ := Option.bind_eq_some_iff.1 h
    obtain ⟨_, -, h⟩ := Option.bind_eq_some_iff.1 h
    obtain ⟨_, -, h⟩ := Option.bind_eq_some_iff.1 h
    obtain ⟨_, -, h⟩ := Option.bind_eq_some_iff.1 h
    obtain ⟨_, -, h⟩ := Option.bind_eq_some_iff.1 h
    obtain ⟨_, -, h⟩ := Option.bind_eq_some_iff.1 h
    obtain ⟨t, ht, h⟩ := Option.bind_eq_some_iff.1 h
    obtain ⟨o, ho, h⟩ := Option.bind_eq_some_iff.1 h
    cases h
    exact ⟨Instant.showable_of_required ht, Instant.showable_of_absentOr ho⟩
  · cases h

end HomeScenes
