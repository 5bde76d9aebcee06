import HomeScenes.Proofs.Wire.Decoding

/-!
# The wire format reads back

Decoding the text of a record gives the record again. It is asked of the record that its
attribute values are canonical where they stand in the text, that its instants lie in the
years of four digits and that leap seconds end their minutes, which are the ones that a
text can show. Of the number format it is assumed that the floating-point numbers at hand
are read back; of integers, texts, identifiers and times that is proved. What decoding
gives is of this kind again, so that a second round never changes it.
-/

namespace HomeScenes

open Json (Node GivesBack)

def Json.decode? {α : Type} (read : Node → Option α) (s : String) : Option α :=
  (Node.ofText? s).bind read

theorem Json.decode?_compact {α : Type} {read : Node → Option α} {v : Json} {a : α}
    (gives : GivesBack read v a) (carried : v.Carried 0) : decode? read v.compact = some a := by
  rw [decode?, nodeOfText?_compact carried.numbers, Option.bind_some]
  exact gives 0 false carried.fits

theorem Json.sound_of_decode? {α : Type} {read : Node → Option α} {s : String} {a : α}
    (h : decode? read s = some a) : ∃ n : Node, n.Sound ∧ n.depth = 0 ∧ read n = some a := by
  obtain ⟨n, parsed, read⟩ := Option.bind_eq_some_iff.1 h
  exact ⟨n, (Node.sound_ofText? parsed).1, (Node.sound_ofText? parsed).2, read⟩

/-- What decoding does not give of itself: that floating-point numbers are read back and that an
instant lies in the years that are written with four digits. -/
def Parts.assumed : Parts where
  value _ v := v.FloatsReadBack
  time _ := True
  instant t := 0 ≤ t.year ∧ t.year ≤ 9999

/-- Decoding gives back everything with a property from its own text. -/
def RoundTrips {α : Type} (read : Node → Option α) (form : α → Json) (P : α → Prop) : Prop :=
  ∀ a, P a → Json.decode? read (form a).compact = some a

/-- Everything that is decoded has one property, and is decoded again from its own text if it also
has another one. -/
def Settles {α : Type} (read : Node → Option α) (form : α → Json) (P Q : α → Prop) : Prop :=
  ∀ s a, Json.decode? read s = some a → P a ∧ (Q a → Json.decode? read (form a).compact = some a)

/-- The property that records need to be read back comes from decoding, but for one part. -/
theorem RoundTrips.settles {α : Type} {read : Node → Option α} {form : α → Json}
    {P Q R : α → Prop} (back : RoundTrips read form R) (both : ∀ a, P a → Q a → R a)
    (decoded : ∀ n : Node, n.Sound → n.depth = 0 → ∀ a, read n = some a → P a) :
    Settles read form P Q := by
  intro s a h
  obtain ⟨n, sound, top, read⟩ := Json.sound_of_decode? h
  have hp := decoded n sound top a read
  exact ⟨hp, fun hq => back a (both a hp hq)⟩

theorem Instant.showable_of_parts {t : Instant} (decoded : Parts.decoded.instant t)
    (assumed : Parts.assumed.instant t) : t.Showable :=
  ⟨assumed.1, assumed.2, decoded⟩

theorem Command.each_writable {c : Command} {around : Nat} (decoded : c.Each .decoded around)
    (assumed : c.Each .assumed around) : c.Each .writable around :=
  ⟨decoded, assumed⟩

theorem Window.each_writable {w : Window} (decoded : w.Each .decoded) : w.Each .writable := by
  cases w with
  | allDay => trivial
  | between start stop => exact decoded

theorem Condition.each_writable {c : Condition} {around : Nat} (decoded : c.Each .decoded around)
    (assumed : c.Each .assumed around) : c.Each .writable around := by
  obtain ⟨id, kind⟩ := c
  cases kind with
  | timing t => exact decoded
  | status device attr comparison value => exact ⟨decoded, assumed⟩

theorem Action.each_writable {a : Action} {around : Nat} (decoded : a.Each .decoded around)
    (assumed : a.Each .assumed around) : a.Each .writable around := by
  obtain ⟨id, delay, kind⟩ := a
  cases kind with
  | control device commands =>
    exact fun c hc => Command.each_writable (decoded c hc) (assumed c hc)
  | run | enable | disable => trivial

theorem Scene.each_writable {s : Scene} (decoded : s.Each .decoded) (assumed : s.Each .assumed) :
    s.Each .writable := by
  obtain ⟨window, conditions, actions, createdAt, deletedAt⟩ := decoded
  obtain ⟨-, conditions', actions', createdAt', deletedAt'⟩ := assumed
  exact ⟨Window.each_writable window,
    fun c hc => Condition.each_writable (conditions c hc) (conditions' c hc),
    fun a ha => Action.each_writable (actions a ha) (actions' a ha),
    Instant.showable_of_parts createdAt createdAt',
    fun t ht => Instant.showable_of_parts (deletedAt t ht) (deletedAt' t ht)⟩

theorem Scene.roundTrips : RoundTrips Scene.ofNode? Scene.toJson (Scene.Each .writable) :=
  fun _ h => Json.decode?_compact (Scene.givesBack h) (Scene.carried h)

theorem Action.roundTrips : RoundTrips Action.ofNode? Action.toJson (Action.Each .writable 0) :=
  fun _ h => Json.decode?_compact (Action.givesBack h) (Action.carried h (by decide))

theorem Condition.roundTrips :
    RoundTrips Condition.ofNode? Condition.toJson (Condition.Each .writable 0) :=
  fun _ h => Json.decode?_compact (Condition.givesBack h) (Condition.carried h (by decide))

theorem Device.roundTrips : RoundTrips Device.ofNode? Device.toJson (Device.Each .writable) :=
  fun d h => Json.decode?_compact (Device.givesBack h) d.carried

theorem DeviceEvent.roundTrips :
    RoundTrips DeviceEvent.ofNode? DeviceEvent.toJson (DeviceEvent.Each .writable) :=
  fun _ h => Json.decode?_compact (DeviceEvent.givesBack h) (DeviceEvent.carried h)

theorem TaskRecord.roundTrips :
    RoundTrips TaskRecord.ofNode? TaskRecord.toJson (TaskRecord.Each .writable) :=
  fun r h => Json.decode?_compact (TaskRecord.givesBack h) (TaskRecord.carried r)

theorem Command.roundTrips :
    RoundTrips Command.ofNode? Command.toJson (Command.Each .writable 0) :=
  fun _ h => Json.decode?_compact (Command.givesBack h) (Command.carried h (by decide))

theorem AttributeValue.roundTrips : RoundTrips AttributeValue.ofNode? AttributeValue.toJson
    fun v => v.Canonical 0 ∧ v.FloatsReadBack :=
  fun _ h => Json.decode?_compact h.1.givesBack (h.1.carried h.2 (Nat.zero_le _))

/-- Every record and every attribute value is read back from its own text, and what is decoded from
any text has canonical attribute values and does not change in a second round. -/
theorem wire_format_round_trips :
    (RoundTrips Scene.ofNode? Scene.toJson (Scene.Each .writable) ∧
      RoundTrips Action.ofNode? Action.toJson (Action.Each .writable 0) ∧
      RoundTrips Condition.ofNode? Condition.toJson (Condition.Each .writable 0) ∧
      RoundTrips Device.ofNode? Device.toJson (Device.Each .writable) ∧
      RoundTrips DeviceEvent.ofNode? DeviceEvent.toJson (DeviceEvent.Each .writable) ∧
      RoundTrips TaskRecord.ofNode? TaskRecord.toJson (TaskRecord.Each .writable) ∧
      RoundTrips Command.ofNode? Command.toJson (Command.Each .writable 0) ∧
      RoundTrips AttributeValue.ofNode? AttributeValue.toJson
        fun v => v.Canonical 0 ∧ v.FloatsReadBack) ∧
    (Settles Scene.ofNode? Scene.toJson (Scene.Each .decoded) (Scene.Each .assumed) ∧
      Settles Action.ofNode? Action.toJson (Action.Each .decoded 0) (Action.Each .assumed 0) ∧
      Settles Condition.ofNode? Condition.toJson (Condition.Each .decoded 0)
        (Condition.Each .assumed 0) ∧
      Settles Device.ofNode? Device.toJson (Device.Each .decoded) (Device.Each .assumed) ∧
      Settles DeviceEvent.ofNode? DeviceEvent.toJson (DeviceEvent.Each .decoded)
        (DeviceEvent.Each .assumed) ∧
      Settles TaskRecord.ofNode? TaskRecord.toJson (TaskRecord.Each .decoded)
        (TaskRecord.Each .assumed) ∧
      Settles Command.ofNode? Command.toJson (Command.Each .decoded 0) (Command.Each .assumed 0) ∧
      Settles AttributeValue.ofNode? AttributeValue.toJson (AttributeValue.Canonical 0)
        AttributeValue.FloatsReadBack) := by
  refine ⟨⟨Scene.roundTrips, Action.roundTrips, Condition.roundTrips, Device.roundTrips,
    DeviceEvent.roundTrips, TaskRecord.roundTrips, Command.roundTrips,
    AttributeValue.roundTrips⟩, ?_, ?_, ?_, ?_, ?_, ?_, ?_, ?_⟩
  · exact Scene.roundTrips.settles (fun _ => Scene.each_writable)
      fun n sound top _ read => Scene.each_of_node sound top read
  · exact Action.roundTrips.settles (fun _ => Action.each_writable)
      fun n sound top _ read => top ▸ Action.each_of_node sound read
  · exact Condition.roundTrips.settles (fun _ => Condition.each_writable)
      fun n sound top _ read => top ▸ Condition.each_of_node sound read
  · exact Device.roundTrips.settles
      (fun _ decoded assumed t ht => Instant.showable_of_parts (decoded t ht) (assumed t ht))
      fun n _ _ _ read => Device.each_of_node read
  · exact DeviceEvent.roundTrips.settles
      (fun _ decoded assumed => ⟨⟨decoded.1, assumed.1⟩,
        Instant.showable_of_parts decoded.2 assumed.2⟩)
      fun n sound top _ read => DeviceEvent.each_of_node sound top read
  · exact TaskRecord.roundTrips.settles
      (fun _ decoded assumed => ⟨Instant.showable_of_parts decoded.1 assumed.1,
        fun t ht => Instant.showable_of_parts (decoded.2 t ht) (assumed.2 t ht)⟩)
      fun n _ _ _ read => TaskRecord.each_of_node read
  · exact Command.roundTrips.settles (fun _ => Command.each_writable)
      fun n sound top _ read => top ▸ Command.each_of_node sound read
  · exact AttributeValue.roundTrips.settles (fun _ => And.intro)
      fun n sound top _ read => top ▸ AttributeValue.canonical_of_node sound read

def evening : Scene where
  id := ⟨.ofNat 1⟩
  name := "Evening"
  automatic := true
  armed := true
  logic := .any
  window := .between (Instant.ofMicros 64800000000).time (Instant.ofMicros 82800000000).time
  recurrence := .custom
  weekdays := (Weekdays.ofChars? ['1', '7']).getD .everyDay
  conditions :=
    [⟨.ofNat 2, .timing (Instant.ofMicros 72000000000).time⟩,
      ⟨.ofNat 3, .status ⟨.ofNat 4⟩ ⟨1, "temperature"⟩ .less (.float (.ofRatio false 41 2))⟩]
  actions :=
    [⟨.ofNat 5, 30, .control ⟨.ofNat 4⟩
      [⟨⟨2, "steps"⟩, .json (.array [.null, .object [("level", .int 7)]])⟩]⟩]
  createdAt := .ofMicros 0
  deletedAt := none

/-- The evening scene is read back, and what is read from its text has canonical values. -/
theorem wire_format_round_trips_evening :
    evening.Each .writable ∧
      Json.decode? Scene.ofNode? evening.toJson.compact = some evening ∧
      evening.Each .decoded := by
  have number : (Json.Numeral.float (.ofRatio false 41 2)).ReadsBack := by
    show Json.Numeral.ofChars? _ = some (some _)
    decide +kernel
  have finite : (Double.ofRatio false 41 2).IsFinite :=
    (Double.ofRatio_cases false 41 2).resolve_right (by decide +kernel)
  have cold : Parts.writable.value 3 (.float (.ofRatio false 41 2)) := by
    refine ⟨finite, fun d hd => ?_⟩
    rw [AttributeValue.toJson, Json.numbers, List.mem_singleton] at hd
    rw [Json.Numeral.float.inj hd]
    exact number
  have steps : Parts.writable.value 5
      (.json (.array [.null, .object [("level", .int 7)]])) := by
    refine ⟨⟨trivial, ⟨?_, ?_⟩, ?_⟩, ?_⟩
    · simp [Json.numbers, Json.Numeral.Proper, Json.Numeral.wordLimit]
    · simp [Json.Sorted]
    · simp [Json.Fits, Json.depth, Json.depthOfItems, Json.depthOfMembers, Json.deepest]
    · simp [AttributeValue.FloatsReadBack, AttributeValue.toJson, Json.numbers]
  have writable : evening.Each .writable := by
    refine ⟨⟨.inl (by decide), .inl (by decide)⟩, ?_, ?_, ⟨by decide, by decide, .inl (by decide)⟩,
      by simp [evening]⟩
    · simp only [evening, List.forall_mem_cons]
      exact ⟨.inl (by decide), cold, by simp⟩
    · simp only [evening, List.forall_mem_cons]
      refine ⟨?_, by simp⟩
      intro c hc
      rw [List.mem_singleton.1 hc]
      exact steps
  have back := wire_format_round_trips.1.1 evening writable
  exact ⟨writable, back, (wire_format_round_trips.2.1 _ evening back).1⟩

end HomeScenes
