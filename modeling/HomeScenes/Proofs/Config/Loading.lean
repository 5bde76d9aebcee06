import HomeScenes.Proofs.Calendar.PlainText
import HomeScenes.Proofs.Config.File

/-!
# Loading the settings

A setting has the value of its variable, or else that of the file, or else its default. The
settings are loaded if, and only if, the file is absent or well-formed and what comes of the three
layers can be used, so a variable can spoil a good file and mend a bad one. Loaded settings give the
engine all it wants, and a change of one variable reaches one setting at most.
-/

namespace HomeScenes.Config

open Toml (Members)

variable {file : Source} {doc : Members} {lookup lookup' : String → Option String} {c f : Config}
  {t : TimeOfDay}

/-- The document that the file holds. An absent file says as much as an empty one. -/
inductive Found : Source → Members → Prop where
  | absent : Found .absent []
  | text {s : String} {doc : Members} :
    Toml.ofText? s = some (.table .header doc) → Found (.text s) doc

/-- The value of the setting's variable if it has one, or else what the file gives. -/
inductive Setting.Layered (s : Setting) (doc : Members) (lookup : String → Option String) :
    s.Value → Prop where
  | fromVariable {text : String} {v : s.Value} :
    s.names.findSome? lookup = some text → s.Reads text v → Layered s doc lookup v
  | fromFile {v : s.Value} :
    (∀ text, s.names.findSome? lookup = some text → ∀ w, ¬ s.Reads text w) →
    s.Given doc v → Layered s doc lookup v

theorem ofSource_eq_ok_iff : ofSource file = .ok f ↔
    ∃ doc, Found file doc ∧ WellFormed doc ∧ ∀ s : Setting, s.Given doc (f.get s) := by
  cases file with
  | absent =>
    have empty : ofItem? (.table .header []) = some Config.default := rfl
    constructor
    · rintro ⟨⟩
      exact ⟨[], .absent, ofItem?_eq_some_iff.mp empty⟩
    · rintro ⟨_, ⟨⟩, whole⟩
      have read : ofItem? (.table .header []) = some f := ofItem?_eq_some_iff.mpr whole
      exact congrArg Except.ok (Option.some.inj (empty.symm.trans read))
  | unreadable =>
    constructor
    · rintro ⟨⟩
    · rintro ⟨_, ⟨⟩, -⟩
  | text s =>
    simp only [ofSource]
    constructor
    · intro read
      split at read
      next c' parsed =>
        obtain rfl := Except.ok.inj read
        obtain ⟨item, document, parsed⟩ := Option.bind_eq_some_iff.mp parsed
        obtain ⟨doc, -, rfl⟩ := Option.map_eq_some_iff.mp document
        exact ⟨doc, .text document, ofItem?_eq_some_iff.mp parsed⟩
      next => cases read
    · rintro ⟨doc, found, whole⟩
      obtain ⟨⟩ | document := found
      rw [document, Option.bind_some, ofItem?_eq_some_iff.mpr whole]

theorem Setting.layered_iff {s : Setting} {v : s.Value} (given : s.Given doc (f.get s)) :
    s.Layered doc lookup v ↔ (f.override lookup).get s = v := by
  rw [get_override]
  constructor
  · rintro (⟨found, reads⟩ | ⟨unread, own⟩)
    · rw [found, Option.bind_some, ofText?_eq_some_iff.mpr reads]
      rfl
    · have missing : (s.names.findSome? lookup).bind s.ofText? = none := by
        rw [Option.bind_eq_none_iff]
        intro text found
        exact Option.eq_none_iff_forall_ne_some.mpr fun w reads =>
          unread text found w (ofText?_eq_some_iff.mp reads)
      rw [missing]
      exact given.unique own
  · cases reading : (s.names.findSome? lookup).bind s.ofText? with
    | some w =>
      rintro rfl
      obtain ⟨text, found, reads⟩ := Option.bind_eq_some_iff.mp reading
      exact .fromVariable found (ofText?_eq_some_iff.mp reads)
    | none =>
      rintro rfl
      refine .fromFile ?_ given
      intro text found w reads
      have missing := Option.bind_eq_none_iff.mp reading text found
      rw [ofText?_eq_some_iff.mpr reads] at missing
      cases missing

def ArrangesAt (c : Config) (t : TimeOfDay) : Prop :=
  ∃ core, Text.Trimmed c.arrangeAt.toList core ∧ TimeOfDay.PlainlyWritten core t

structure Usable (c : Config) : Prop where
  arrangement : ∃ t, c.ArrangesAt t
  /-- Less than a day. -/
  offset : c.offsetMinutes.toInt.natAbs < 1440
  timeout : c.timeoutSeconds ≠ 0
  capacity : c.capacity ≠ 0

theorem arrangeTime_eq_ok_iff : c.arrangeTime = .ok t ↔ c.ArrangesAt t := by
  have written : c.ArrangesAt t ↔
      TimeOfDay.ofPlainText? (String.ofList (Text.trim c.arrangeAt.toList)) = some t := by
    rw [TimeOfDay.ofPlainText?_eq_some_iff, String.toList_ofList]
    constructor
    · rintro ⟨core, trimmed, written⟩
      rwa [trimmed.eq_trim] at written
    · exact fun written => ⟨_, Text.trimmed_trim _, written⟩
  rw [written]
  dsimp only [arrangeTime]
  split
  next u read => rw [read, Except.ok.injEq, Option.some.injEq]
  next unread => simp [unread]

theorem product?_eq_some_iff {a b p : Int32} : product? a b = some p ↔
    p.toInt = a.toInt * b.toInt := by
  simp only [product?, Option.ite_none_right_eq_some, Option.some.injEq]
  constructor
  · rintro ⟨fits, rfl⟩
    exact fits
  · intro fits
    have same : a * b = p := by
      rw [← Int32.toInt_inj, Int32.toInt_mul, ← fits, Int32.toInt_bmod]
    exact ⟨by rw [same, fits], same⟩

/-- The product is found for every offset of less than a day, and none of a day or more comes out
shorter. -/
theorem offsetSeconds_eq (c : Config) : c.offsetSeconds =
    if c.offsetMinutes.toInt.natAbs < 1440 then .ok (60 * c.offsetMinutes.toInt)
    else .error (.offset c.offsetMinutes) := by
  have product (p : Int32) : product? c.offsetMinutes 60 = some p ↔
      p.toInt = 60 * c.offsetMinutes.toInt := by
    rw [product?_eq_some_iff, Int.mul_comm]
    rfl
  unfold offsetSeconds
  split
  next seconds found =>
    obtain ⟨found, short⟩ := Option.filter_eq_some_iff.mp found
    have value := (product seconds).mp found
    have short : seconds.toInt.natAbs < 86400 := of_decide_eq_true short
    rw [if_pos (by omega), value]
  next refused =>
    have long : ¬ c.offsetMinutes.toInt.natAbs < 1440 := by
      intro short
      have value : (60 * c.offsetMinutes).toInt = 60 * c.offsetMinutes.toInt := by
        rw [Int32.toInt_mul]
        exact Int.bmod_eq_of_le (by change _ ≤ 60 * _; omega) (by change 60 * _ < _; omega)
      refine Option.filter_eq_none_iff.mp refused _ ((product _).mpr value) ?_
      exact decide_eq_true (show (60 * c.offsetMinutes).toInt.natAbs < 86400 by omega)
    rw [if_neg long]

theorem bind_eq_ok_iff {ε α β : Type} {x : Except ε α} {next : α → Except ε β} {b : β} :
    x >>= next = .ok b ↔ ∃ a, x = .ok a ∧ next a = .ok b := by
  cases x with
  | error e =>
    constructor
    · rintro ⟨⟩
    · rintro ⟨_, ⟨⟩, -⟩
  | ok a =>
    constructor
    · exact fun done => ⟨a, rfl, done⟩
    · rintro ⟨_, ⟨⟩, done⟩
      exact done

theorem validate_eq_ok_iff : c.validate = .ok () ↔ c.Usable := by
  unfold validate
  rw [offsetSeconds_eq]
  constructor
  · intro valid
    obtain ⟨t, arranges, valid⟩ := bind_eq_ok_iff.mp valid
    obtain ⟨_, offset, valid⟩ := bind_eq_ok_iff.mp valid
    split at offset
    next short =>
      have timeout : c.timeoutSeconds ≠ 0 := by
        intro zero
        rw [if_pos zero] at valid
        cases valid
      have capacity : c.capacity ≠ 0 := by
        intro zero
        rw [if_neg timeout, if_pos zero] at valid
        cases valid
      exact ⟨⟨t, arrangeTime_eq_ok_iff.mp arranges⟩, short, timeout, capacity⟩
    next => cases offset
  · rintro ⟨⟨t, arranges⟩, offset, timeout, capacity⟩
    rw [arrangeTime_eq_ok_iff.mpr arranges, if_pos offset, if_neg timeout, if_neg capacity]
    rfl

theorem load_eq_ok_iff : load file lookup = .ok c ↔
    ∃ f, ofSource file = .ok f ∧ f.override lookup = c ∧ c.Usable := by
  constructor
  · intro loaded
    obtain ⟨f, found, loaded⟩ := bind_eq_ok_iff.mp loaded
    obtain ⟨_, valid, ⟨⟩⟩ := bind_eq_ok_iff.mp loaded
    exact ⟨f, found, rfl, validate_eq_ok_iff.mp valid⟩
  · rintro ⟨f, found, rfl, usable⟩
    exact bind_eq_ok_iff.mpr ⟨f, found, bind_eq_ok_iff.mpr ⟨(), validate_eq_ok_iff.mpr usable, rfl⟩⟩

/-- A well-formed file gives every setting a value. -/
theorem exists_given (whole : WellFormed doc) :
    ∃ f : Config, ∀ s : Setting, s.Given doc (f.get s) := by
  choose value given using Setting.exists_given whole
  refine ⟨⟨value .arrangeAt, value .offsetMinutes, value .timeoutSeconds, value .filter,
    value .capacity, value .demo⟩, ?_⟩
  intro s
  cases s <;> exact given _

theorem existsUnique_layered (whole : WellFormed doc) (lookup : String → Option String) :
    ∃! c : Config, ∀ s : Setting, s.Layered doc lookup (c.get s) := by
  obtain ⟨f, given⟩ := exists_given whole
  refine ⟨f.override lookup, fun s => (Setting.layered_iff (given s)).mpr rfl, ?_⟩
  intro c layered
  exact ext_get fun s => ((Setting.layered_iff (given s)).mp (layered s)).symm

theorem load_eq_ok_iff_layered : load file lookup = .ok c ↔ ∃ doc, Found file doc ∧
    WellFormed doc ∧ (∀ s : Setting, s.Layered doc lookup (c.get s)) ∧ c.Usable := by
  rw [load_eq_ok_iff]
  constructor
  · rintro ⟨f, found, rfl, usable⟩
    obtain ⟨doc, found, whole, given⟩ := ofSource_eq_ok_iff.mp found
    exact ⟨doc, found, whole, fun s => (Setting.layered_iff (given s)).mpr rfl, usable⟩
  · rintro ⟨doc, found, whole, layered, usable⟩
    obtain ⟨f, given⟩ := exists_given whole
    refine ⟨f, ofSource_eq_ok_iff.mpr ⟨doc, found, whole, given⟩, ?_, usable⟩
    exact ext_get fun s => (Setting.layered_iff (given s)).mp (layered s)

theorem findSome?_of_unchanged {names : List String}
    (unchanged : ∀ name ∈ names, lookup' name = lookup name) :
    names.findSome? lookup' = names.findSome? lookup := by
  induction names with
  | nil => rfl
  | cons name names ih =>
    rw [List.findSome?_cons, List.findSome?_cons, unchanged name List.mem_cons_self,
      ih fun other listed => unchanged other (List.mem_cons_of_mem name listed)]

/-- A variable that does not belong to a setting does not reach it. -/
theorem get_eq_of_unchanged {name : String} {c' : Config} {s : Setting}
    (unchanged : ∀ other, other ≠ name → lookup' other = lookup other)
    (loaded : load file lookup = .ok c) (reloaded : load file lookup' = .ok c')
    (foreign : name ∉ s.names) : c'.get s = c.get s := by
  obtain ⟨f, found, rfl, -⟩ := load_eq_ok_iff.mp loaded
  obtain ⟨f', found', rfl, -⟩ := load_eq_ok_iff.mp reloaded
  obtain rfl := Except.ok.inj (found.symm.trans found')
  have same : s.names.findSome? lookup' = s.names.findSome? lookup := by
    apply findSome?_of_unchanged
    intro other listed
    apply unchanged
    rintro rfl
    exact foreign listed
  rw [get_override, get_override, same]

/-- What is loaded is what the layers make of a file that is absent or well-formed, and it is loaded
just when it can be used. Then its time, offset and engine settings are there; no offset overflows;
and one variable that is changed changes no setting but its own. -/
theorem loaded_settings_are_layered_and_usable (file : Source)
    (lookup : String → Option String) :
    (∀ doc, WellFormed doc → ∃! c : Config, ∀ s : Setting, s.Layered doc lookup (c.get s)) ∧
    (∀ c : Config, load file lookup = .ok c ↔ ∃ doc, Found file doc ∧ WellFormed doc ∧
      (∀ s : Setting, s.Layered doc lookup (c.get s)) ∧ c.Usable) ∧
    (∀ c : Config, load file lookup = .ok c → ∃ t, c.ArrangesAt t ∧ c.arrangeTime = .ok t ∧
      c.offsetSeconds = .ok (60 * c.offsetMinutes.toInt) ∧
      c.engineSettings = .ok ⟨t, 1000 * c.timeoutSeconds.toNat⟩) ∧
    (∀ c : Config, c.offsetSeconds = if c.offsetMinutes.toInt.natAbs < 1440 then
      .ok (60 * c.offsetMinutes.toInt) else .error (.offset c.offsetMinutes)) ∧
    ∀ (lookup' : String → Option String) (name : String) (c c' : Config),
      (∀ other, other ≠ name → lookup' other = lookup other) →
      load file lookup = .ok c → load file lookup' = .ok c' →
      ∀ s : Setting, c'.get s ≠ c.get s →
        name ∈ s.names ∧ ∀ own : Setting, name ∈ own.names → own = s := by
  refine ⟨fun doc whole => existsUnique_layered whole lookup, fun c => load_eq_ok_iff_layered, ?_,
    offsetSeconds_eq, ?_⟩
  · intro c loaded
    obtain ⟨-, -, -, usable⟩ := load_eq_ok_iff.mp loaded
    obtain ⟨t, arranges⟩ := usable.arrangement
    have time := arrangeTime_eq_ok_iff.mpr arranges
    refine ⟨t, arranges, time, ?_, ?_⟩
    · rw [offsetSeconds_eq, if_pos usable.offset]
    · rw [engineSettings, time, Nat.mul_comm]
      rfl
  · intro lookup' name c c' unchanged loaded reloaded s changed
    have belongs : name ∈ s.names := by
      by_contra foreign
      exact changed (get_eq_of_unchanged unchanged loaded reloaded foreign)
    exact ⟨belongs, fun own also => Setting.names_disjoint also belongs⟩

/-- A variable mends a file that keeps no records, and one for the log changes the log only. -/
theorem loaded_settings_are_layered_and_usable_mended :
    ∃ c c' : Config,
      load (.text "[history]\ncapacity = 0\n") (fun _ => none) = .error .capacity ∧
      load (.text "[history]\ncapacity = 0\n")
        (List.lookup · [("SCENEHUB_HISTORY_CAPACITY", "64")]) = .ok c ∧
      (∃ t, c.ArrangesAt t ∧ c.arrangeTime = .ok t ∧
        c.offsetSeconds = .ok (60 * c.offsetMinutes.toInt) ∧
        c.engineSettings = .ok ⟨t, 1000 * c.timeoutSeconds.toNat⟩) ∧
      load (.text "[history]\ncapacity = 0\n")
        (List.lookup · [("RUST_LOG", "trace"), ("SCENEHUB_HISTORY_CAPACITY", "64")]) = .ok c' ∧
      c'.get .filter ≠ c.get .filter ∧
      (∀ own : Setting, "RUST_LOG" ∈ own.names → own = .filter) ∧
      ∃ doc, Found (.text "[history]\ncapacity = 0\n") doc ∧ ∃! d : Config, ∀ s : Setting,
        s.Layered doc (List.lookup · [("SCENEHUB_HISTORY_CAPACITY", "64")]) (d.get s) := by
  have loaded : load (.text "[history]\ncapacity = 0\n")
      (List.lookup · [("SCENEHUB_HISTORY_CAPACITY", "64")]) =
        .ok { Config.default with capacity := 64 } := by
    decide +kernel
  have reloaded : load (.text "[history]\ncapacity = 0\n")
      (List.lookup · [("RUST_LOG", "trace"), ("SCENEHUB_HISTORY_CAPACITY", "64")]) =
        .ok { Config.default with capacity := 64, filter := "trace" } := by
    decide +kernel
  obtain ⟨layers, outcome, usable, -, changes⟩ := loaded_settings_are_layered_and_usable
    (.text "[history]\ncapacity = 0\n") (List.lookup · [("SCENEHUB_HISTORY_CAPACITY", "64")])
  have changed : "trace" ≠ Config.default.filter := by decide
  have unchanged (other : String) (different : other ≠ "RUST_LOG") :
      List.lookup other [("RUST_LOG", "trace"), ("SCENEHUB_HISTORY_CAPACITY", "64")] =
        List.lookup other [("SCENEHUB_HISTORY_CAPACITY", "64")] := by
    rw [List.lookup_cons, beq_false_of_ne different]
  obtain ⟨doc, found, whole, -, -⟩ := (outcome _).mp loaded
  exact ⟨_, _, by decide +kernel, loaded, usable _ loaded, reloaded, changed,
    (changes _ "RUST_LOG" _ _ unchanged loaded reloaded .filter changed).2, doc, found,
    layers doc whole⟩

end HomeScenes.Config
