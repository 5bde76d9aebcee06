import HomeScenes.Virtual.Transport
import HomeScenes.Proofs.Table

/-!
# Requests to virtual devices

A request carries out its commands one after another, up to the first that is rejected, and the
history keeps those that were carried out. Its events come at the end: one for each command if
all of them were accepted, and none at all otherwise. So the commands that were carried out before
another one was rejected change the device without an event.
-/

namespace HomeScenes.Virtual

namespace State

/-- The commands that appliances accept, with the value stored and the state after it. -/
inductive Takes : State → Command → AttributeValue → State → Prop where
  | lightPower {old on : Bool} {level : Fin 101} {c : Command}
      (own : localName? c.target = some "power") (value : c.value = .bool on) :
      Takes (light old level) c (.bool on) (light on level)
  | brightness {power : Bool} {old level : Fin 101} {c : Command}
      (own : localName? c.target = some "brightness") (whole : brightness? c.value = some level) :
      Takes (light power old) c c.value (light power level)
  | switchPower {old on : Bool} {c : Command}
      (own : localName? c.target = some "power") (value : c.value = .bool on) :
      Takes (switch old) c (.bool on) (switch on)

variable {s r : State} {c : Command} {value : AttributeValue}

theorem apply_ok_iff : s.apply c = .ok (value, r) ↔ Takes s c value r := by
  constructor
  · intro h
    unfold apply at h
    split at h
    · rename_i own
      split at h <;> cases h
      rename_i set
      exact .lightPower own set
    · rename_i own
      split at h <;> cases h
      rename_i whole
      exact .brightness own whole
    · rename_i own
      split at h <;> cases h
      rename_i set
      exact .switchPower own set
    all_goals cases h
  · intro h
    cases h with
    | lightPower own set => simp [apply, own, set]
    | brightness own whole => simp [apply, own, whole]
    | switchPower own set => simp [apply, own, set]

theorem ofNat_brightness {value : AttributeValue} {level : Fin 101}
    (h : brightness? value = some level) : value = .int (Int64.ofNat level.val) := by
  unfold brightness? at h
  split at h
  · rename_i i
    split at h
    · cases h
    · split at h <;> cases h
      have whole : ((i.toInt.toNat : Nat) : Int) = i.toInt := Int.toNat_of_nonneg (by omega)
      rw [← Int64.ofInt_eq_ofNat, whole, Int64.ofInt_toInt]
  · cases h

/-- The value that a command stores is the one that is read afterwards. -/
theorem Takes.read (h : Takes s c value r) : r.read c.target = some value := by
  cases h with
  | lightPower own set => simp [State.read, own]
  | brightness own whole =>
    rw [ofNat_brightness whole]
    simp [State.read, own]
  | switchPower own set => simp [State.read, own]

theorem Takes.kind (h : Takes s c value r) : r.kind = s.kind := by
  cases h <;> rfl

/-- Whether a command is accepted depends on the kind of the appliance and not on its state. -/
theorem Takes.likewise (h : Takes s c value r) {other : State} (same : other.kind = s.kind) :
    ∃ value' r', Takes other c value' r' := by
  cases h with
  | lightPower own set =>
    cases other with
    | light => exact ⟨_, _, .lightPower own set⟩
    | _ => simp [State.kind] at same
  | brightness own whole =>
    cases other with
    | light => exact ⟨_, _, .brightness own whole⟩
    | _ => simp [State.kind] at same
  | switchPower own set =>
    cases other with
    | switch => exact ⟨_, _, .switchPower own set⟩
    | _ => simp [State.kind] at same

/-- Commands carried out one after another, each with the value that was stored and is read after
it. -/
inductive Carries : State → List (Command × AttributeValue) → State → Prop where
  | none (s : State) : Carries s [] s
  | next {s r final : State} {c : Command} {value : AttributeValue}
      {done : List (Command × AttributeValue)} (accepted : s.apply c = .ok (value, r))
      (stored : r.read c.target = some value) (others : Carries r done final) :
      Carries s ((c, value) :: done) final

end State

namespace Transport

variable {t : Transport}

inductive Reached : Transport → Prop where
  | empty : Reached {}
  | add {t : Transport} (before : Reached t) (a : Appliance) : Reached (t.add a)
  | online {t : Transport} (before : Reached t) (device : DeviceId) (online : Bool) :
      Reached (t.setOnline device online)
  | request {t : Transport} (before : Reached t) (device : DeviceId) (commands : List Command)
      (now : Instant) : Reached (t.setAttributes device commands now).2.2
  | report {t : Transport} (before : Reached t) (device : DeviceId) (celsius : Double)
      (now : Instant) : Reached (t.report device celsius now).2.2

def Keyed (t : Transport) : Prop :=
  ∀ id a, t.appliances.find? id = some a → a.id = id

/-- The appliances after one of them was put in its place. -/
theorem Keyed.put (keyed : t.Keyed) (a : Appliance) (history : List (DeviceId × Command)) :
    Keyed { t with appliances := t.appliances.set a.id a, history := history } := by
  intro id b found
  rw [Table.find?_set] at found
  split at found
  · rename_i same
    cases found
    exact same.symm
  · exact keyed id b found

/-- The commands of a request up to the first that is rejected. -/
structure Batch (t : Transport) (a : Appliance) (commands : List Command)
    (done : List (Command × AttributeValue)) (rest : List Command) : Prop where
  split : commands = done.map Prod.fst ++ rest
  history : (t.applyAll a commands).2.history = t.history ++ done.map fun d => (a.id, d.1)
  carried : ∃ final, a.state.Carries done final ∧
    ∀ c cs, rest = c :: cs → ∃ fault, final.apply c = .error fault
  answer : (rest = [] ∧ (t.applyAll a commands).1 = .ok (done.map fun d => (d.1.target, d.2))) ∨
    (rest ≠ [] ∧ ∃ fault, (t.applyAll a commands).1 = .error fault)

theorem exists_batch (t : Transport) (a : Appliance) (commands : List Command) :
    ∃ done rest, t.Batch a commands done rest := by
  induction commands generalizing t a with
  | nil =>
    refine ⟨[], [], rfl, (List.append_nil _).symm, ⟨a.state, .none _, ?_⟩, .inl ⟨rfl, rfl⟩⟩
    rintro c cs ⟨⟩
  | cons c cs ih =>
    cases applied : a.state.apply c with
    | error fault =>
      have same : t.applyAll a (c :: cs) = (.error fault, t) := by
        rw [applyAll, applyOne, applied]
      refine ⟨[], c :: cs, rfl, ?_, ⟨a.state, .none _, ?_⟩, .inr ⟨List.cons_ne_nil _ _, fault, ?_⟩⟩
      · rw [same]
        exact (List.append_nil _).symm
      · rintro d ds ⟨⟩
        exact ⟨fault, applied⟩
      · rw [same]
    | ok taken =>
      obtain ⟨value, r⟩ := taken
      obtain ⟨done, rest, batch⟩ := ih
        { t with
          appliances := t.appliances.set a.id { a with state := r }
          history := t.history ++ [(a.id, c)] } { a with state := r }
      obtain ⟨final, carries, rejected⟩ := batch.carried
      refine ⟨(c, value) :: done, rest, ?_, ?_, ⟨final, ?_, rejected⟩, ?_⟩
      · rw [batch.split]
        rfl
      · simp only [applyAll, applyOne, applied, batch.history]
        exact List.append_assoc _ _ _
      · exact .next applied (State.apply_ok_iff.mp applied).read carries
      · rcases batch.answer with ⟨none, same⟩ | ⟨some, fault, same⟩
        · refine .inl ⟨none, ?_⟩
          simp only [applyAll, applyOne, applied, same]
          rfl
        · refine .inr ⟨some, fault, ?_⟩
          simp only [applyAll, applyOne, applied, same]
          rfl

theorem Keyed.applyAll (keyed : t.Keyed) (a : Appliance) (commands : List Command) :
    (t.applyAll a commands).2.Keyed := by
  induction commands generalizing t a with
  | nil => exact keyed
  | cons c cs ih =>
    rw [Transport.applyAll, applyOne]
    cases a.state.apply c with
    | error fault => exact keyed
    | ok taken => exact ih (keyed.put { a with state := taken.2 } _) { a with state := taken.2 }

theorem setAttributes_of_lookup {device : DeviceId} {a : Appliance}
    (found : t.lookup device = .ok a) (commands : List Command) (now : Instant) :
    t.setAttributes device commands now =
      match (t.applyAll a commands).1 with
      | .error fault => (.error fault.toFailure, [], (t.applyAll a commands).2)
      | .ok stored =>
        (.ok (), stored.map fun s => ⟨device, s.1, s.2, now⟩, (t.applyAll a commands).2) := by
  simp only [setAttributes, found]
  obtain ⟨_ | _, _⟩ := t.applyAll a commands <;> rfl

theorem setAttributes_of_fault {device : DeviceId} {fault : Fault}
    (found : t.lookup device = .error fault) (commands : List Command) (now : Instant) :
    t.setAttributes device commands now = (.error fault.toFailure, [], t) := by
  rw [setAttributes, found]

/-- What a request leaves behind is what its commands leave behind. -/
theorem after_setAttributes {device : DeviceId} {a : Appliance}
    (found : t.lookup device = .ok a) (commands : List Command) (now : Instant) :
    (t.setAttributes device commands now).2.2 = (t.applyAll a commands).2 := by
  rw [setAttributes_of_lookup found]
  split <;> rfl

theorem Keyed.setAttributes (keyed : t.Keyed) (device : DeviceId) (commands : List Command)
    (now : Instant) : (t.setAttributes device commands now).2.2.Keyed := by
  cases found : t.lookup device with
  | error fault =>
    rw [setAttributes_of_fault found]
    exact keyed
  | ok a =>
    rw [after_setAttributes found]
    exact keyed.applyAll a commands

theorem Reached.keyed (h : Reached t) : t.Keyed := by
  induction h with
  | empty =>
    intro id a found
    cases found
  | add before a ih => exact ih.put a _
  | online before device online ih => exact ih
  | request before device commands now ih => exact ih.setAttributes device commands now
  | @report t before device celsius now ih =>
    rw [Transport.report]
    split
    · rename_i id name old found
      obtain rfl := ih device _ found
      exact ih.put ⟨id, name, .sensor celsius⟩ t.history
    · exact ih

def publication (device : DeviceId) (now : Instant) (done : List (Command × AttributeValue)) :
    List DeviceEvent :=
  done.map fun d => ⟨device, d.1.target, d.2, now⟩

theorem lookup_id (keyed : t.Keyed) {device : DeviceId} {a : Appliance}
    (found : t.lookup device = .ok a) : a.id = device := by
  rw [lookup] at found
  split at found
  · cases found
  · split at found <;> cases found
    rename_i own
    exact keyed device a own

/-- In every state that a transport reaches, a request to a device carries out its commands up to
the first that is rejected, or none if the device does not answer, and appends them to the history.
It publishes one event for each of them, in order, exactly if none was rejected or none carried
out; otherwise it publishes nothing. -/
theorem published_unless_cut_short (reached : t.Reached) (device : DeviceId)
    (commands : List Command) (now : Instant) :
    let r := t.setAttributes device commands now
    ∃ done rest, commands = done.map Prod.fst ++ rest ∧
      r.2.2.history = t.history ++ done.map (fun d => (device, d.1)) ∧
      (∀ fault, t.lookup device = .error fault → done = []) ∧
      (∀ a, t.lookup device = .ok a → ∃ final, a.state.Carries done final ∧
        ∀ c cs, rest = c :: cs → ∃ fault, final.apply c = .error fault) ∧
      (r.2.1 = publication device now done ↔ done = [] ∨ rest = []) ∧
      (r.2.1 = publication device now done ∨ r.2.1 = []) := by
  intro r
  cases found : t.lookup device with
  | error fault =>
    have same : r = (.error fault.toFailure, [], t) := setAttributes_of_fault found commands now
    refine ⟨[], commands, rfl, ?_, fun _ _ => rfl, ?_, ?_, .inr ?_⟩
    · rw [same]
      exact (List.append_nil _).symm
    · rintro a ⟨⟩
    · rw [same]
      exact ⟨fun _ => .inl rfl, fun _ => rfl⟩
    · rw [same]
  | ok a =>
    obtain ⟨done, rest, batch⟩ := t.exists_batch a commands
    have same : r = _ := setAttributes_of_lookup found commands now
    refine ⟨done, rest, batch.split, ?_, ?_, ?_, ?_⟩
    · rw [after_setAttributes found, batch.history, lookup_id reached.keyed found]
    · rintro fault ⟨⟩
    · rintro b ⟨⟩
      exact batch.carried
    · rcases batch.answer with ⟨none, all⟩ | ⟨some, fault, cut⟩
      · have events : r.2.1 = publication device now done := by
          rw [same, all]
          exact List.map_map
        exact ⟨⟨fun _ => .inr none, fun _ => events⟩, .inl events⟩
      · have events : r.2.1 = [] := by
          rw [same, cut]
        rw [events]
        refine ⟨⟨fun nothing => .inl (List.map_eq_nil_iff.mp nothing.symm), ?_⟩, .inr rfl⟩
        rintro (rfl | none)
        · rfl
        · exact absurd none some

def lamp : Appliance := ⟨⟨.ofNat 1⟩, "Lamp", .newLight⟩

/-- A lamp that is switched on publishes that it is on. -/
theorem published_by_lamp :
    let t := Transport.add {} lamp
    let on : Command := ⟨⟨1, "power"⟩, .bool true⟩
    let r := t.setAttributes lamp.id [on] default
    t.Reached ∧ ∃ done, r.2.2.history = done.map (fun d => (lamp.id, d.1)) ∧ done ≠ [] ∧
      r.2.1 = publication lamp.id default done := by
  intro t on r
  have reached : t.Reached := .add .empty lamp
  obtain ⟨done, rest, split, history, -, -, events, -⟩ :=
    published_unless_cut_short reached lamp.id [on] default
  have one : [(lamp.id, on)] = done.map fun d => (lamp.id, d.1) := history
  have single : 1 = done.length := by simpa using congrArg List.length one
  have none : rest = [] := by
    have both := congrArg List.length split
    rw [List.length_append, List.length_map, ← single] at both
    exact List.eq_nil_of_length_eq_zero (by simpa using both)
  refine ⟨reached, done, history, ?_, events.mpr (.inr none)⟩
  rintro rfl
  exact absurd single (by decide)

/-- A lamp that is switched on and then told its colour, which it does not know: it is on, and
no event says so. -/
theorem switched_on_unpublished :
    let t := Transport.add {} lamp
    let on : Command := ⟨⟨1, "power"⟩, .bool true⟩
    let r := t.setAttributes lamp.id [on, ⟨⟨1, "color"⟩, .text "red"⟩] default
    r.2.2.history = [(lamp.id, on)] ∧ r.2.1 = [] ∧
      r.2.1 ≠ publication lamp.id default [(on, .bool true)] ∧
      (r.2.2.appliances.find? lamp.id).map Appliance.state = some (.light true 100) := by
  intro t on r
  refine ⟨rfl, rfl, ?_, by decide +kernel⟩
  exact fun same => absurd same (List.cons_ne_nil _ _).symm

end Transport

end HomeScenes.Virtual
