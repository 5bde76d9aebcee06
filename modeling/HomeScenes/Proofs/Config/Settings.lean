import HomeScenes.Config
import HomeScenes.Proofs.Text.Numerals
import HomeScenes.Proofs.Text.Trimmed

/-!
# The settings and their variables

The settings one by one: the variables that each is looked for in, and how their texts write a
value of it. A variable counts if its text writes a value of the setting; the settings it does not
belong to are left as they are.
-/

namespace HomeScenes.Config

inductive Setting where
  | arrangeAt
  | offsetMinutes
  | timeoutSeconds
  | filter
  | capacity
  | demo
deriving DecidableEq

namespace Setting

abbrev Value : Setting → Type
  | arrangeAt => String
  | offsetMinutes => Int32
  | timeoutSeconds => UInt64
  | filter => String
  | capacity => UInt64
  | demo => Bool

/-- The variables of the setting. The first that is set counts. -/
def names : Setting → List String
  | arrangeAt => ["SCENEHUB_ARRANGE_AT"]
  | offsetMinutes => ["SCENEHUB_UTC_OFFSET_MINUTES"]
  | timeoutSeconds => ["SCENEHUB_DEVICE_TIMEOUT_SECS"]
  | filter => ["RUST_LOG", "SCENEHUB_LOG"]
  | capacity => ["SCENEHUB_HISTORY_CAPACITY"]
  | demo => ["SCENEHUB_DEMO"]

def flagWords : Bool → List String
  | true => ["1", "true", "yes", "on"]
  | false => ["0", "false", "no", "off"]

/-- The text of a variable writes a value: texts stand for themselves, numbers are digits with an
optional sign, and flags are words in any case with any blanks around them. -/
def Reads : (s : Setting) → String → s.Value → Prop
  | arrangeAt, text, v => v = text
  | offsetMinutes, text, v => Text.Signed text.toList v.toInt
  | timeoutSeconds, text, v => Text.Unsigned text.toList v.toNat
  | filter, text, v => v = text
  | capacity, text, v => Text.Unsigned text.toList v.toNat
  | demo, text, v => ∃ word, Text.Trimmed text.toList word ∧
      String.ofList (word.map Char.toLower) ∈ flagWords v

/-- No variable belongs to two settings. -/
theorem names_disjoint {s own : Setting} {name : String} (h : name ∈ s.names)
    (also : name ∈ own.names) : s = own := by
  cases s <;> cases own <;> simp_all [names]

end Setting

def get (c : Config) : (s : Setting) → s.Value
  | .arrangeAt => c.arrangeAt
  | .offsetMinutes => c.offsetMinutes
  | .timeoutSeconds => c.timeoutSeconds
  | .filter => c.filter
  | .capacity => c.capacity
  | .demo => c.demo

theorem ext_get {c d : Config} (h : ∀ s, c.get s = d.get s) : c = d := by
  obtain ⟨arrangeAt, offsetMinutes, timeoutSeconds, filter, capacity, demo⟩ := c
  have arrangeAt := h .arrangeAt
  have offsetMinutes := h .offsetMinutes
  have timeoutSeconds := h .timeoutSeconds
  have filter := h .filter
  have capacity := h .capacity
  have demo := h .demo
  simp only [get] at arrangeAt offsetMinutes timeoutSeconds filter capacity demo
  subst arrangeAt offsetMinutes timeoutSeconds filter capacity demo
  rfl

theorem flagOfText?_eq_some_iff {text : String} {b : Bool} :
    flagOfText? text = some b ↔ Setting.Reads .demo text b := by
  constructor
  · intro read
    refine ⟨Text.trim text.toList, Text.trimmed_trim _, ?_⟩
    dsimp only [flagOfText?] at read
    split at read
    next on =>
      cases read
      exact List.contains_iff_mem.mp on
    next =>
      split at read
      next off =>
        cases read
        exact List.contains_iff_mem.mp off
      next => cases read
  · rintro ⟨word, trimmed, listed⟩
    obtain rfl := trimmed.eq_trim
    dsimp only [flagOfText?]
    cases b with
    | true => exact if_pos (List.contains_iff_mem.mpr listed)
    | false =>
      have other : ∀ w ∈ Setting.flagWords false, w ∉ Setting.flagWords true := by decide
      refine (if_neg fun on => ?_).trans (if_pos (List.contains_iff_mem.mpr listed))
      exact other _ listed (List.contains_iff_mem.mp on)

namespace Setting

def ofText? : (s : Setting) → String → Option s.Value
  | arrangeAt => some
  | offsetMinutes => Text.int32OfText?
  | timeoutSeconds => Text.uint64OfText?
  | filter => some
  | capacity => Text.uint64OfText?
  | demo => flagOfText?

theorem ofText?_eq_some_iff {s : Setting} {text : String} {v : s.Value} :
    s.ofText? text = some v ↔ s.Reads text v := by
  cases s with
  | arrangeAt => exact Option.some_inj.trans eq_comm
  | offsetMinutes => exact Text.int32OfText?_eq_some_iff
  | timeoutSeconds => exact Text.uint64OfText?_eq_some_iff
  | filter => exact Option.some_inj.trans eq_comm
  | capacity => exact Text.uint64OfText?_eq_some_iff
  | demo => exact flagOfText?_eq_some_iff

end Setting

theorem get_override (c : Config) (lookup : String → Option String) (s : Setting) :
    (c.override lookup).get s =
      ((s.names.findSome? lookup).bind s.ofText?).getD (c.get s) := by
  cases s with
  | filter =>
    simp only [get, override, Setting.names, Setting.ofText?, List.findSome?_cons]
    cases lookup "RUST_LOG" <;> cases lookup "SCENEHUB_LOG" <;> rfl
  | arrangeAt =>
    simp only [get, override, Setting.names, Setting.ofText?, List.findSome?_singleton]
    cases lookup "SCENEHUB_ARRANGE_AT" <;> rfl
  | _ => simp only [get, override, Setting.names, Setting.ofText?, List.findSome?_singleton]

end HomeScenes.Config
