import HomeScenes.Proofs.Config.Settings

/-!
# Settings in the file

How the file writes the settings. A file is well-formed if each of its sections can have fields and
each setting that is there is written as a value of that setting. Such a file gives the settings
that it has and leaves the others at their defaults; any other file is refused.
-/

namespace HomeScenes.Config

open Toml (Item Members)

variable {doc : Members} {c : Config}

/-- Tables have fields, and arrays have them in the order of the settings. A moment is taken for a
table without any. -/
def isSection : Item → Bool
  | .table _ _ => true
  | .array _ => true
  | .tables _ => true
  | .moment => true
  | _ => false

def fieldAt? (place : Nat) (field : String) : Item → Option Item
  | .table _ members => Members.find? members field
  | .array items => items[place]?
  | .tables rows => (rows[place]?).map (Item.table .header)
  | _ => none

namespace Setting

def table : Setting → String
  | arrangeAt => "scheduler"
  | offsetMinutes => "scheduler"
  | timeoutSeconds => "scheduler"
  | filter => "logging"
  | capacity => "history"
  | demo => "demo"

def field : Setting → String
  | arrangeAt => "arrange_at"
  | offsetMinutes => "utc_offset_minutes"
  | timeoutSeconds => "device_timeout_secs"
  | filter => "filter"
  | capacity => "capacity"
  | demo => "enabled"

def place : Setting → Nat
  | arrangeAt => 0
  | offsetMinutes => 1
  | timeoutSeconds => 2
  | filter => 0
  | capacity => 0
  | demo => 0

def item : (s : Setting) → s.Value → Item
  | arrangeAt, v => .text v
  | offsetMinutes, v => .int v.toInt
  | timeoutSeconds, v => .int v.toNat
  | filter, v => .text v
  | capacity, v => .int v.toNat
  | demo, v => .bool v

/-- What the file has for the setting. -/
def written? (s : Setting) (doc : Members) : Option Item :=
  (Members.find? doc s.table).bind (fieldAt? s.place s.field)

def form : (s : Setting) → Item → Option s.Value
  | arrangeAt => textOf?
  | offsetMinutes => int32Of?
  | timeoutSeconds => uint64Of?
  | filter => textOf?
  | capacity => uint64Of?
  | demo => boolOf?

end Setting

/-- Sections can have fields, and what stands for a setting writes a value of it. -/
structure WellFormed (doc : Members) : Prop where
  sections : ∀ (s : Setting) (sec : Item), Members.find? doc s.table = some sec →
    isSection sec = true
  values : ∀ (s : Setting) (item : Item), s.written? doc = some item → ∃ v, item = s.item v

theorem textOf?_eq_some_iff {item : Item} {v : String} :
    textOf? item = some v ↔ item = .text v := by
  cases item <;> simp [textOf?]

theorem boolOf?_eq_some_iff {item : Item} {v : Bool} :
    boolOf? item = some v ↔ item = .bool v := by
  cases item <;> simp [boolOf?]

theorem int32Of?_eq_some_iff {item : Item} {v : Int32} :
    int32Of? item = some v ↔ item = .int v.toInt := by
  cases item with
  | int i => simp only [int32Of?, Option.ite_none_right_eq_some, Option.some.injEq,
      int32_range_iff, Item.int.injEq]
  | _ => simp [int32Of?]

theorem uint64Of?_eq_some_iff {item : Item} {v : UInt64} :
    uint64Of? item = some v ↔ item = .int v.toNat := by
  cases item with
  | int i =>
    simp only [uint64Of?, Option.ite_none_right_eq_some, Option.some.injEq, Item.int.injEq]
    constructor
    · rintro ⟨⟨low, high⟩, word⟩
      have natural : i.toNat = v.toNat := uint64_range_iff.mp ⟨by omega, word⟩
      omega
    · rintro rfl
      exact ⟨⟨by omega, by have := v.toNat_lt; omega⟩, UInt64.ofNat_toNat⟩
  | _ => simp [uint64Of?]

theorem Setting.form_eq_some_iff {s : Setting} {item : Item} {v : s.Value} :
    s.form item = some v ↔ item = s.item v := by
  cases s with
  | arrangeAt => exact textOf?_eq_some_iff
  | offsetMinutes => exact int32Of?_eq_some_iff
  | timeoutSeconds => exact uint64Of?_eq_some_iff
  | filter => exact textOf?_eq_some_iff
  | capacity => exact uint64Of?_eq_some_iff
  | demo => exact boolOf?_eq_some_iff

theorem fieldsOf?_eq (names : List String) (item : Item) :
    fieldsOf? names item =
      if isSection item then some (names.mapIdx fun i name => fieldAt? i name item) else none := by
  have named (field : String → Option Item) :
      names.map field = names.mapIdx fun _ name => field name :=
    List.ext_getElem (by simp) (by simp)
  cases item with
  | table _ members => exact congrArg some (named _)
  | moment => exact congrArg some (named _)
  | _ => rfl

/-- A section that is not there is read as one without fields. -/
theorem itemOr?_fieldsOf? {names : List String} {read : List (Option Item) → Option Config}
    (absent : read (names.mapIdx fun _ _ => none) = some c) (sec? : Option Item) :
    itemOr? (fun sec => fieldsOf? names sec >>= read) c sec? =
      if sec?.all isSection then read (names.mapIdx fun i name => sec?.bind (fieldAt? i name))
      else none := by
  cases sec? with
  | none => exact absent.symm
  | some sec =>
    simp only [itemOr?, fieldsOf?_eq]
    cases able : isSection sec <;> simp [able]

theorem withScheduler?_eq (c : Config) (sec? : Option Item) :
    itemOr? c.withScheduler? c sec? =
      if sec?.all isSection then do
        let arrangeAt ← itemOr? textOf? c.arrangeAt (sec?.bind (fieldAt? 0 "arrange_at"))
        let offset ← itemOr? int32Of? c.offsetMinutes (sec?.bind (fieldAt? 1 "utc_offset_minutes"))
        let timeout ←
          itemOr? uint64Of? c.timeoutSeconds (sec?.bind (fieldAt? 2 "device_timeout_secs"))
        return { c with arrangeAt := arrangeAt, offsetMinutes := offset, timeoutSeconds := timeout }
      else none :=
  itemOr?_fieldsOf? rfl sec?

theorem withLogging?_eq (c : Config) (sec? : Option Item) :
    itemOr? c.withLogging? c sec? =
      if sec?.all isSection then do
        let filter ← itemOr? textOf? c.filter (sec?.bind (fieldAt? 0 "filter"))
        return { c with filter := filter }
      else none :=
  itemOr?_fieldsOf? rfl sec?

theorem withHistory?_eq (c : Config) (sec? : Option Item) :
    itemOr? c.withHistory? c sec? =
      if sec?.all isSection then do
        let capacity ← itemOr? uint64Of? c.capacity (sec?.bind (fieldAt? 0 "capacity"))
        return { c with capacity := capacity }
      else none :=
  itemOr?_fieldsOf? rfl sec?

theorem withDemo?_eq (c : Config) (sec? : Option Item) :
    itemOr? c.withDemo? c sec? =
      if sec?.all isSection then do
        let enabled ← itemOr? boolOf? c.demo (sec?.bind (fieldAt? 0 "enabled"))
        return { c with demo := enabled }
      else none :=
  itemOr?_fieldsOf? rfl sec?

namespace Setting

variable {s : Setting} {v w : s.Value}

/-- The value that the file writes for the setting, or else the default. -/
inductive Given (s : Setting) (doc : Members) : s.Value → Prop where
  | file {v : s.Value} : s.written? doc = some (s.item v) → Given s doc v
  | default {v : s.Value} : s.written? doc = none → v = Config.default.get s → Given s doc v

theorem given_iff : s.Given doc v ↔
    itemOr? s.form (Config.default.get s) (s.written? doc) = some v := by
  constructor
  · rintro (stands | ⟨missing, rfl⟩)
    · rw [stands]
      exact form_eq_some_iff.mpr rfl
    · rw [missing]
      rfl
  · cases stands : s.written? doc with
    | none =>
      rintro ⟨⟩
      exact .default stands rfl
    | some item =>
      intro read
      obtain rfl := form_eq_some_iff.mp read
      exact .file stands

theorem Given.unique (h : s.Given doc v) (other : s.Given doc w) : v = w :=
  Option.some.inj ((given_iff.mp h).symm.trans (given_iff.mp other))

theorem exists_given (h : WellFormed doc) (s : Setting) : ∃ v, s.Given doc v := by
  cases stands : s.written? doc with
  | none => exact ⟨_, .default stands rfl⟩
  | some item =>
    obtain ⟨v, rfl⟩ := h.values s item stands
    exact ⟨v, .file stands⟩

end Setting

theorem ofItem?_eq_some_iff_given {origin : Toml.Origin} : ofItem? (.table origin doc) = some c ↔
    (∀ (s : Setting) (sec : Item), Members.find? doc s.table = some sec → isSection sec = true) ∧
      ∀ s : Setting, s.Given doc (c.get s) := by
  simp only [ofItem?, fieldsOf?, List.map_cons, List.map_nil, Option.bind_eq_bind, Option.bind_some,
    withScheduler?_eq, withLogging?_eq, withHistory?_eq, withDemo?_eq, Option.bind_eq_some_iff,
    Option.ite_none_right_eq_some, Option.all_eq_true, Option.pure_def, Option.some.injEq,
    Setting.given_iff]
  constructor
  · rintro ⟨_, ⟨scheduler, arrangeAt, readArrangeAt, offset, readOffset, timeout, readTimeout, rfl⟩,
      _, ⟨logging, filter, readFilter, rfl⟩, _, ⟨history, capacity, readCapacity, rfl⟩,
      demo, enabled, readEnabled, rfl⟩
    constructor
    · intro s
      cases s <;> assumption
    · intro s
      cases s <;> assumption
  · rintro ⟨sections, values⟩
    exact ⟨_, ⟨sections .arrangeAt, _, values .arrangeAt, _, values .offsetMinutes, _,
      values .timeoutSeconds, rfl⟩, _, ⟨sections .filter, _, values .filter, rfl⟩,
      _, ⟨sections .capacity, _, values .capacity, rfl⟩, sections .demo, _, values .demo, rfl⟩

/-- A well-formed file, and no other, is read: each setting has what the file gives for it. -/
theorem ofItem?_eq_some_iff {origin : Toml.Origin} : ofItem? (.table origin doc) = some c ↔
    WellFormed doc ∧ ∀ s : Setting, s.Given doc (c.get s) := by
  rw [ofItem?_eq_some_iff_given]
  constructor
  · rintro ⟨sections, values⟩
    refine ⟨⟨sections, ?_⟩, values⟩
    intro s item stands
    rcases values s with own | ⟨missing, -⟩
    · exact ⟨_, Option.some.inj (stands.symm.trans own)⟩
    · cases stands.symm.trans missing
  · rintro ⟨whole, values⟩
    exact ⟨whole.sections, values⟩

end HomeScenes.Config
