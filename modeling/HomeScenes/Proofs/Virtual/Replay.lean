import HomeScenes.Proofs.Virtual.Requests
import Mathlib.Data.List.Induction

/-!
# What the history says of a device

A transport is built from appliances and then called, in any order, to set and read attributes, to
take readings of sensors and to lose and find devices. At every moment the value of an attribute is
the one that the history gives for it last, or the value at the beginning; the temperature of a
sensor is its last reading. Neither offline times nor rejected commands leave a trace.
-/

namespace HomeScenes.Virtual

inductive Call where
  | set (device : DeviceId) (commands : List Command) (now : Instant)
  | report (device : DeviceId) (celsius : Double) (now : Instant)
  | online (device : DeviceId) (online : Bool)
  | get (device : DeviceId) (attr : AttributeRef)

namespace Call

def reading? (device : DeviceId) : Call → Option Double
  | report own celsius _ => if own = device then some celsius else none
  | _ => none

def reach? (device : DeviceId) : Call → Option Bool
  | online own reachable => if own = device then some reachable else none
  | _ => none

def lastReading? (calls : List Call) (device : DeviceId) : Option Double :=
  (calls.filterMap (reading? device)).getLast?

/-- A device is reachable unless the last call about that says otherwise. -/
def reachable (calls : List Call) (device : DeviceId) : Bool :=
  (calls.filterMap (reach? device)).getLast?.getD true

variable {calls : List Call} {device : DeviceId}

theorem lastReading?_concat (calls : List Call) (call : Call) (device : DeviceId) :
    lastReading? (calls ++ [call]) device =
      (call.reading? device).or (lastReading? calls device) := by
  cases given : call.reading? device <;> simp [lastReading?, given]

theorem reachable_concat (calls : List Call) (call : Call) (device : DeviceId) :
    reachable (calls ++ [call]) device = (call.reach? device).getD (reachable calls device) := by
  cases said : call.reach? device <;> simp [reachable, said]

end Call

/-- The value that a history gives an attribute of a device last. -/
def lastSet? (history : List (DeviceId × Command)) (device : DeviceId) (attr : AttributeRef) :
    Option AttributeValue :=
  (history.filter fun e => e.1 = device ∧ e.2.target = attr).getLast?.map fun e => e.2.value

theorem lastSet?_own (history : List (DeviceId × Command)) (device : DeviceId) (c : Command) :
    lastSet? (history ++ [(device, c)]) device =
      fun attr => if c.target = attr then some c.value else lastSet? history device attr := by
  funext attr
  by_cases here : c.target = attr <;> simp [lastSet?, here]

theorem lastSet?_other (history : List (DeviceId × Command)) {own device : DeviceId} (c : Command)
    (apart : own ≠ device) :
    lastSet? (history ++ [(own, c)]) device = lastSet? history device := by
  funext attr
  simp [lastSet?, apart]

namespace State

/-- Attributes that an appliance takes commands for. -/
def commanded : State → List AttributeRef
  | light .. => [⟨service, "power"⟩, ⟨service, "brightness"⟩]
  | switch _ => [⟨service, "power"⟩]
  | sensor _ => []

def sensed (temperature : Double) (attr : AttributeRef) : Option AttributeValue :=
  if attr = ⟨service, "temperature"⟩ then some (.float temperature)
  else if attr = ⟨service, "unit"⟩ then some (.text "°C")
  else none

/-- What is said of an attribute of an appliance that began in a state: an attribute that takes
commands has the value it was given last or the one it began with, and a sensor its last reading
or the one it began with. -/
def recalled (first : State) (given : AttributeRef → Option AttributeValue)
    (reading : Option Double) (attr : AttributeRef) : Option AttributeValue :=
  match first with
  | sensor temperature => sensed (reading.getD temperature) attr
  | _ => if attr ∈ first.commanded then (given attr).or (first.read attr) else none

variable {s r first : State} {c : Command} {value : AttributeValue} {attr : AttributeRef}

theorem localName?_eq_some_iff {name : String} :
    localName? attr = some name ↔ attr = ⟨service, name⟩ := by
  obtain ⟨own, attrName⟩ := attr
  simp only [localName?, AttributeRef.mk.injEq]
  split
  · rename_i here
    simp [here]
  · rename_i elsewhere
    simp [elsewhere]

theorem read_light (power : Bool) (brightness : Fin 101) :
    (light power brightness).read attr =
      if attr = ⟨service, "power"⟩ then some (.bool power)
      else if attr = ⟨service, "brightness"⟩ then some (.int (Int64.ofNat brightness.val))
      else none := by
  simp only [← localName?_eq_some_iff, read]
  split <;> simp_all

theorem read_switch (power : Bool) : (switch power).read attr =
    if attr = ⟨service, "power"⟩ then some (.bool power) else none := by
  simp only [← localName?_eq_some_iff, read]
  split <;> simp_all

theorem read_sensor (temperature : Double) :
    (sensor temperature).read attr = sensed temperature attr := by
  simp only [sensed, ← localName?_eq_some_iff, read]
  split <;> simp_all

/-- Before anything is said an appliance is as it began. -/
theorem read_eq_recalled (s : State) (attr : AttributeRef) :
    s.read attr = s.recalled (fun _ => none) none attr := by
  cases s with
  | light power brightness =>
    simp only [recalled, commanded, read_light, Option.none_or, List.mem_cons, List.not_mem_nil,
      or_false]
    grind
  | switch power =>
    simp only [recalled, commanded, read_switch, Option.none_or, List.mem_singleton]
    grind
  | sensor temperature => exact read_sensor temperature

theorem Takes.value_eq (h : Takes s c value r) : value = c.value := by
  cases h with
  | lightPower own set => exact set.symm
  | brightness own whole => rfl
  | switchPower own set => exact set.symm

theorem Takes.commanded (h : Takes s c value r) : c.target ∈ s.commanded := by
  cases h with
  | lightPower own set => simp [State.commanded, localName?_eq_some_iff.mp own]
  | brightness own whole => simp [State.commanded, localName?_eq_some_iff.mp own]
  | switchPower own set => simp [State.commanded, localName?_eq_some_iff.mp own]

/-- A command leaves the attributes alone that it is not for. -/
theorem Takes.read_of_ne (h : Takes s c value r) (other : attr ≠ c.target) :
    r.read attr = s.read attr := by
  cases h with
  | lightPower own set =>
    rw [localName?_eq_some_iff.mp own] at other
    simp only [read_light, if_neg other]
  | brightness own whole =>
    rw [localName?_eq_some_iff.mp own] at other
    simp only [read_light, if_neg other]
  | switchPower own set =>
    rw [localName?_eq_some_iff.mp own] at other
    simp only [read_switch, if_neg other]

theorem commanded_of_kind (same : s.kind = first.kind) : s.commanded = first.commanded := by
  cases s <;> cases first <;> first | rfl | simp [kind] at same

/-- What an appliance that takes commands is said to be like. -/
theorem recalled_of_commanded (given : AttributeRef → Option AttributeValue)
    (reading : Option Double) (some : first.commanded ≠ []) (attr : AttributeRef) :
    first.recalled given reading attr =
      if attr ∈ first.commanded then (given attr).or (first.read attr) else none := by
  cases first with
  | sensor temperature => exact absurd rfl some
  | _ => rfl

/-- A command that is carried out is the last word on its attribute. -/
theorem Takes.recalled (h : Takes s c value r) {given : AttributeRef → Option AttributeValue}
    {reading : Option Double} (same : s.kind = first.kind)
    (before : ∀ attr, s.read attr = first.recalled given reading attr) (attr : AttributeRef) :
    r.read attr = first.recalled
      (fun attr => if c.target = attr then some c.value else given attr) reading attr := by
  have own := h.commanded
  rw [commanded_of_kind same] at own
  have some : first.commanded ≠ [] := List.ne_nil_of_mem own
  rw [recalled_of_commanded _ _ some]
  by_cases here : attr = c.target
  · rw [here, if_pos own, if_pos rfl, h.read, h.value_eq]
    rfl
  · rw [if_neg (Ne.symm here), h.read_of_ne here, before attr, recalled_of_commanded _ _ some]

theorem kind_eq_sensor_iff : s.kind = "sensor" ↔ ∃ temperature, s = sensor temperature := by
  cases s <;> simp [kind]

/-- The brightness of a light is a whole number from 0 to 100. -/
theorem exists_brightness (light : s.kind = "light") :
    ∃ level : Int64, 0 ≤ level.toInt ∧ level.toInt ≤ 100 ∧
      s.read ⟨service, "brightness"⟩ = some (.int level) := by
  cases s with
  | light power brightness =>
    have small : (Int64.ofNat brightness.val).toInt = brightness.val :=
      Int64.toInt_ofNat_of_lt (by omega)
    refine ⟨.ofNat brightness.val, ?_, ?_, ?_⟩
    · omega
    · omega
    · simp [read_light]
  | _ => simp [kind] at light

/-- Readings matter to sensors only. -/
theorem recalled_reading (kind : first.kind ≠ "sensor")
    (given : AttributeRef → Option AttributeValue) (reading other : Option Double) (attr : AttributeRef) :
    first.recalled given reading attr = first.recalled given other attr := by
  cases first with
  | sensor temperature => exact absurd rfl kind
  | _ => rfl

end State

namespace Transport

def assembled (appliances : List Appliance) : Transport :=
  appliances.foldl add {}

def call (t : Transport) : Call → Transport
  | .set device commands now => (t.setAttributes device commands now).2.2
  | .report device celsius now => (t.report device celsius now).2.2
  | .online device online => t.setOnline device online
  | .get _ _ => t

def after (t : Transport) (calls : List Call) : Transport :=
  calls.foldl call t

/-- Each appliance is the one that was there first, and it is as history and readings say. -/
structure Recalls (first : Transport) (readings : DeviceId → Option Double) (t : Transport) :
    Prop where
  keyed : t.Keyed
  known : ∀ id a₀, first.appliances.find? id = some a₀ → ∃ a, t.appliances.find? id = some a ∧
    a.name = a₀.name ∧ a.state.kind = a₀.state.kind ∧
    ∀ attr, a.state.read attr = a₀.state.recalled (lastSet? t.history id) (readings id) attr
  unknown : ∀ id, first.appliances.find? id = none → t.appliances.find? id = none
  commanded : ∀ e ∈ t.history, ∃ a₀, first.appliances.find? e.1 = some a₀ ∧
    e.2.target ∈ a₀.state.commanded

variable {t first : Transport} {readings : DeviceId → Option Double} {a : Appliance}

/-- One command is carried out. -/
theorem Recalls.took (h : Recalls first readings t) (found : t.appliances.find? a.id = some a)
    {c : Command} {value : AttributeValue} {r : State} (taken : a.state.Takes c value r) :
    Recalls first readings { t with
      appliances := t.appliances.set a.id { a with state := r }
      history := t.history ++ [(a.id, c)] } := by
  have here : ∃ a₀, first.appliances.find? a.id = some a₀ := by
    cases known : first.appliances.find? a.id with
    | none =>
      rw [h.unknown a.id known] at found
      cases found
    | some a₀ => exact ⟨a₀, rfl⟩
  refine ⟨h.keyed.put { a with state := r } _, ?_, ?_, ?_⟩
  · intro id a₀ began
    obtain ⟨b, now, name, kind, read⟩ := h.known id a₀ began
    rw [Table.find?_set]
    by_cases same : id = a.id
    · subst same
      cases found.symm.trans now
      refine ⟨_, if_pos rfl, name, taken.kind.trans kind, ?_⟩
      rw [lastSet?_own]
      exact taken.recalled kind read
    · rw [if_neg same]
      refine ⟨b, now, name, kind, ?_⟩
      rw [lastSet?_other _ c (Ne.symm same)]
      exact read
  · intro id began
    rw [Table.find?_set]
    split
    · rename_i same
      obtain ⟨a₀, known⟩ := here
      rw [same, known] at began
      cases began
    · exact h.unknown id began
  · intro e he
    rcases List.mem_append.mp he with he | he
    · exact h.commanded e he
    · obtain rfl := List.mem_singleton.mp he
      obtain ⟨a₀, began⟩ := here
      obtain ⟨b, now, -, kind, -⟩ := h.known a.id a₀ began
      cases found.symm.trans now
      exact ⟨a₀, began, State.commanded_of_kind kind ▸ taken.commanded⟩

/-- Commands are carried out up to the first that is rejected. -/
theorem Recalls.applyAll (h : Recalls first readings t)
    (found : t.appliances.find? a.id = some a) (commands : List Command) :
    Recalls first readings (t.applyAll a commands).2 := by
  induction commands generalizing t a with
  | nil => exact h
  | cons c cs ih =>
    rw [Transport.applyAll, applyOne]
    cases applied : a.state.apply c with
    | error fault => exact h
    | ok taken =>
      obtain ⟨value, r⟩ := taken
      refine ih (a := { a with state := r }) (h.took found (State.apply_ok_iff.mp applied)) ?_
      rw [Table.find?_set, if_pos rfl]

theorem lookup_found {device : DeviceId} (found : t.lookup device = .ok a) :
    t.appliances.find? device = some a := by
  rw [lookup] at found
  split at found
  · cases found
  · split at found <;> cases found
    assumption

theorem Recalls.setAttributes (h : Recalls first readings t) (device : DeviceId)
    (commands : List Command) (now : Instant) :
    Recalls first readings (t.setAttributes device commands now).2.2 := by
  cases found : t.lookup device with
  | error fault =>
    rw [setAttributes_of_fault found]
    exact h
  | ok a =>
    have own := lookup_found found
    rw [after_setAttributes found]
    refine h.applyAll ?_ commands
    rw [h.keyed device a own]
    exact own

/-- A sensor, and nothing else, takes a reading. -/
theorem Recalls.report (h : Recalls first readings t) (device : DeviceId) (celsius : Double)
    (now : Instant) :
    Recalls first (fun id => if device = id then some celsius else readings id)
      (t.report device celsius now).2.2 := by
  rw [Transport.report]
  split
  · rename_i id name old found
    obtain rfl := h.keyed device _ found
    refine ⟨h.keyed.put ⟨id, name, .sensor celsius⟩ t.history, ?_, ?_, h.commanded⟩
    · intro other a₀ began
      obtain ⟨b, now, named, kind, read⟩ := h.known other a₀ began
      rw [Table.find?_set]
      by_cases same : other = id
      · subst same
        cases found.symm.trans now
        refine ⟨_, if_pos rfl, named, kind, fun attr => ?_⟩
        obtain ⟨warm, began⟩ := State.kind_eq_sensor_iff.mp kind.symm
        rw [began, if_pos rfl]
        exact State.read_sensor celsius
      · rw [if_neg same, if_neg (Ne.symm same)]
        exact ⟨b, now, named, kind, read⟩
    · intro other began
      rw [Table.find?_set]
      split
      · rename_i same
        rw [same] at began
        cases found.symm.trans (h.unknown id began)
      · exact h.unknown other began
  · rename_i _ none
    refine ⟨h.keyed, ?_, h.unknown, h.commanded⟩
    intro id a₀ began
    obtain ⟨b, now, named, kind, read⟩ := h.known id a₀ began
    refine ⟨b, now, named, kind, ?_⟩
    by_cases same : device = id
    · subst same
      have insensible : a₀.state.kind ≠ "sensor" := by
        rw [← kind]
        intro sensor
        obtain ⟨warm, same⟩ := State.kind_eq_sensor_iff.mp sensor
        obtain ⟨own, name, state⟩ := b
        exact none own name warm (same ▸ now)
      intro attr
      rw [State.recalled_reading insensible _ _ (readings device)]
      exact read attr
    · rw [if_neg same]
      exact read

theorem reached_assembled (appliances : List Appliance) : (assembled appliances).Reached := by
  suffices h : ∀ t : Transport, t.Reached → (appliances.foldl add t).Reached from h {} .empty
  induction appliances with
  | nil => exact fun t h => h
  | cons a appliances ih => exact fun t h => ih (t.add a) (h.add a)

/-- Nothing was called yet, so nothing is offline and nothing in the history. -/
theorem assembled_new (appliances : List Appliance) :
    (assembled appliances).offline = [] ∧ (assembled appliances).history = [] := by
  suffices h : ∀ t : Transport, (appliances.foldl add t).offline = t.offline ∧
      (appliances.foldl add t).history = t.history from h {}
  induction appliances with
  | nil => exact fun t => ⟨rfl, rfl⟩
  | cons a appliances ih => exact fun t => ih (t.add a)

theorem after_concat (t : Transport) (calls : List Call) (call : Call) :
    t.after (calls ++ [call]) = (t.after calls).call call := by
  simp [after]

theorem Recalls.call {calls : List Call} (h : Recalls first (Call.lastReading? calls) t)
    (call : Call) : Recalls first (Call.lastReading? (calls ++ [call])) (t.call call) := by
  have readings : Call.lastReading? (calls ++ [call]) =
      fun id => (call.reading? id).or (Call.lastReading? calls id) :=
    funext fun id => Call.lastReading?_concat calls call id
  rw [readings]
  cases call with
  | set device commands now => exact h.setAttributes device commands now
  | report device celsius now =>
    have same : (fun id => ((Call.report device celsius now).reading? id).or
        (Call.lastReading? calls id)) =
        fun id => if device = id then some celsius else Call.lastReading? calls id := by
      funext id
      by_cases here : device = id <;> simp [Call.reading?, here]
    rw [same]
    exact h.report device celsius now
  | online device online => exact ⟨h.keyed, h.known, h.unknown, h.commanded⟩
  | get device attr => exact h

/-- A transport is at all times as its history and the readings say. -/
theorem recalls_after (appliances : List Appliance) (calls : List Call) :
    Recalls (assembled appliances) (Call.lastReading? calls)
      ((assembled appliances).after calls) := by
  induction calls using List.reverseRecOn with
  | nil =>
    obtain ⟨-, none⟩ := assembled_new appliances
    refine ⟨(reached_assembled appliances).keyed, fun id a₀ began => ⟨a₀, began, rfl, rfl, ?_⟩,
      fun id began => began, ?_⟩
    · change ∀ attr, a₀.state.read attr =
        a₀.state.recalled (lastSet? (assembled appliances).history id) _ attr
      rw [none]
      exact a₀.state.read_eq_recalled
    · change ∀ e ∈ (assembled appliances).history, _
      rw [none]
      exact fun e he => absurd he List.not_mem_nil
  | append_singleton calls call ih =>
    rw [after_concat]
    exact ih.call call

theorem applyAll_offline (t : Transport) (a : Appliance) (commands : List Command) :
    (t.applyAll a commands).2.offline = t.offline := by
  induction commands generalizing t a with
  | nil => rfl
  | cons c cs ih =>
    rw [applyAll, applyOne]
    cases a.state.apply c with
    | error fault => rfl
    | ok taken => exact ih _ _

theorem setAttributes_offline (t : Transport) (device : DeviceId) (commands : List Command)
    (now : Instant) : (t.setAttributes device commands now).2.2.offline = t.offline := by
  cases found : t.lookup device with
  | error fault => rw [setAttributes_of_fault found]
  | ok a => rw [after_setAttributes found, applyAll_offline]

theorem report_offline (t : Transport) (device : DeviceId) (celsius : Double) (now : Instant) :
    (t.report device celsius now).2.2.offline = t.offline := by
  rw [report]
  split <;> rfl

/-- Which devices do not answer is told by the calls about that alone. -/
theorem mem_offline_after (appliances : List Appliance) (calls : List Call) (device : DeviceId) :
    device ∈ ((assembled appliances).after calls).offline ↔
      Call.reachable calls device = false := by
  induction calls using List.reverseRecOn with
  | nil =>
    change device ∈ (assembled appliances).offline ↔ _
    rw [(assembled_new appliances).1]
    simp [Call.reachable]
  | append_singleton calls call ih =>
    rw [after_concat, Call.reachable_concat]
    cases call with
    | set own commands now =>
      rw [call, setAttributes_offline]
      exact ih
    | report own celsius now =>
      rw [call, report_offline]
      exact ih
    | online own online =>
      by_cases same : own = device
      · cases online <;> simp [call, setOnline, Call.reach?, same]
      · have apart : device ≠ own := Ne.symm same
        cases online <;> simpa [call, setOnline, Call.reach?, same, apart] using ih
    | get own attr => exact ih

theorem lookup_of_mem {device : DeviceId} (away : device ∈ t.offline) :
    t.lookup device = .error (.offline device) := by
  rw [lookup, if_pos (List.contains_iff_mem.mpr away)]

theorem lookup_of_notMem {device : DeviceId} (here : device ∉ t.offline) : t.lookup device =
    match t.appliances.find? device with
    | some a => .ok a
    | none => .error (.unknownDevice device) := by
  rw [lookup]
  exact if_neg fun away => here (List.contains_iff_mem.mp away)

theorem applyAll_found {commands : List Command} (found : t.appliances.find? a.id = some a) :
    ∃ b, (t.applyAll a commands).2.appliances.find? a.id = some b := by
  induction commands generalizing t a with
  | nil => exact ⟨a, found⟩
  | cons c cs ih =>
    rw [applyAll, applyOne]
    cases a.state.apply c with
    | error fault => exact ⟨a, found⟩
    | ok taken =>
      refine ih (a := { a with state := taken.2 }) ?_
      rw [Table.find?_set, if_pos rfl]

theorem exists_ok_of_map {ε α β : Type} {f : α → β} {x : Except ε α} {b : β}
    (h : x.map f = .ok b) : ∃ a, x = .ok a := by
  cases x with
  | error fault => cases h
  | ok a => exact ⟨a, rfl⟩

/-- A command that is rejected after others were carried out ends the request there. -/
theorem applyAll_rejected {stored : List (AttributeRef × AttributeValue)} {commands : List Command}
    {b : Appliance} {c : Command} {fault : Fault} (found : t.appliances.find? a.id = some a)
    (accepted : (t.applyAll a commands).1 = .ok stored)
    (now : (t.applyAll a commands).2.appliances.find? a.id = some b)
    (rejected : b.state.apply c = .error fault) (rest : List Command) :
    t.applyAll a (commands ++ c :: rest) = (.error fault, (t.applyAll a commands).2) := by
  induction commands generalizing t a stored with
  | nil =>
    cases found.symm.trans now
    simp only [List.nil_append, applyAll, applyOne, rejected]
  | cons d ds ih =>
    cases applied : a.state.apply d with
    | error fault =>
      simp only [applyAll, applyOne, applied] at accepted
      cases accepted
    | ok taken =>
      obtain ⟨value, r⟩ := taken
      simp only [applyAll, applyOne, applied] at accepted now
      simp only [List.cons_append, applyAll, applyOne, applied]
      have own : Table.find? (t.appliances.set a.id { a with state := r }) a.id =
          some { a with state := r } := by rw [Table.find?_set, if_pos rfl]
      obtain ⟨stored, done⟩ := exists_ok_of_map accepted
      rw [ih (a := { a with state := r }) own done now]
      rfl

/-- If all commands but the next one are accepted, the request leaves what they leave. -/
theorem setAttributes_rejected (keyed : t.Keyed) {device : DeviceId} {commands : List Command}
    {c : Command} {now : Instant} {failure : Failure}
    (accepted : (t.setAttributes device commands now).1 = .ok ())
    (rejected : ((t.setAttributes device commands now).2.2.setAttributes device [c] now).1 =
      .error failure) (rest : List Command) :
    t.setAttributes device (commands ++ c :: rest) now =
      (.error failure, [], (t.setAttributes device commands now).2.2) := by
  cases found : t.lookup device with
  | error fault =>
    rw [setAttributes_of_fault found] at accepted
    cases accepted
  | ok a =>
    have own := lookup_found found
    obtain rfl := keyed device a own
    rw [after_setAttributes found] at rejected ⊢
    rw [setAttributes_of_lookup found] at accepted
    obtain ⟨b, left⟩ : ∃ b, (t.applyAll a commands).2.appliances.find? a.id = some b :=
      applyAll_found own
    have there : (t.applyAll a commands).2.lookup a.id = .ok b := by
      have here : a.id ∉ (t.applyAll a commands).2.offline := by
        rw [applyAll_offline]
        intro away
        rw [lookup_of_mem away] at found
        cases found
      rw [lookup_of_notMem here, left]
    obtain ⟨fault, refused, rfl⟩ : ∃ fault, b.state.apply c = .error fault ∧
        fault.toFailure = failure := by
      simp only [setAttributes_of_lookup there, applyAll, applyOne] at rejected
      cases applied : b.state.apply c with
      | error fault =>
        rw [applied] at rejected
        exact ⟨fault, rfl, Except.error.inj rejected⟩
      | ok taken =>
        rw [applied] at rejected
        cases rejected
    obtain ⟨stored, all⟩ : ∃ stored, (t.applyAll a commands).1 = .ok stored := by
      cases all : (t.applyAll a commands).1 with
      | error fault =>
        rw [all] at accepted
        cases accepted
      | ok stored => exact ⟨stored, rfl⟩
    rw [setAttributes_of_lookup found, applyAll_rejected own all left refused]

/-- At every moment of a run an attribute has the value that the history says last, or the one it
began with, and a sensor its last reading. That is what a device answers while it is reachable.
The history names attributes that take commands only, so it names no sensor, and brightness is a
whole number from 0 to 100. Requests to devices that are out of reach or unknown change nothing,
and a request is as if it ended before its first rejected command. -/
theorem state_is_replay (appliances : List Appliance) (calls : List Call) :
    let first := assembled appliances
    let t := first.after calls
    (∀ device a₀, first.appliances.find? device = some a₀ →
      let said := a₀.state.recalled (lastSet? t.history device) (Call.lastReading? calls device)
      ∃ a, t.appliances.find? device = some a ∧ a.state.kind = a₀.state.kind ∧
        (∀ attr, a.state.read attr = said attr) ∧
        (∀ attr, t.getAttribute device attr =
          if Call.reachable calls device then .ok (said attr) else .error (.offline device)) ∧
        (a.state.kind = "light" → ∃ level : Int64, 0 ≤ level.toInt ∧ level.toInt ≤ 100 ∧
          a.state.read ⟨service, "brightness"⟩ = some (.int level))) ∧
    (∀ e ∈ t.history, ∃ a₀, first.appliances.find? e.1 = some a₀ ∧ a₀.state.kind ≠ "sensor" ∧
      e.2.target ∈ a₀.state.commanded) ∧
    (∀ device, Call.reachable calls device = false ∨ first.appliances.find? device = none →
      ∀ commands now, ∃ failure, t.setAttributes device commands now = (.error failure, [], t)) ∧
    ∀ device commands c rest now failure,
      let r := (t.setAttributes device commands now).2.2
      (t.setAttributes device commands now).1 = .ok () →
      (r.setAttributes device [c] now).1 = .error failure →
      t.setAttributes device (commands ++ c :: rest) now = (.error failure, [], r) := by
  intro first t
  have recalls : Recalls first (Call.lastReading? calls) t := recalls_after appliances calls
  have offline : ∀ device, device ∈ t.offline ↔ Call.reachable calls device = false :=
    mem_offline_after appliances calls
  refine ⟨?_, ?_, ?_, ?_⟩
  · intro device a₀ began said
    obtain ⟨a, found, -, kind, read⟩ := recalls.known device a₀ began
    refine ⟨a, found, kind, read, fun attr => ?_, fun light => ?_⟩
    · rw [getAttribute]
      by_cases away : device ∈ t.offline
      · rw [lookup_of_mem away, if_neg (by rw [(offline device).mp away]; decide)]
        rfl
      · have near : Call.reachable calls device = true := by
          rwa [offline, Bool.not_eq_false] at away
        rw [lookup_of_notMem away, found, if_pos near]
        exact congrArg Except.ok (read attr)
    · exact State.exists_brightness light
  · intro e he
    obtain ⟨a₀, began, listed⟩ := recalls.commanded e he
    refine ⟨a₀, began, fun sensor => ?_, listed⟩
    obtain ⟨temperature, same⟩ := State.kind_eq_sensor_iff.mp sensor
    rw [same] at listed
    cases listed
  · intro device gone commands now
    by_cases away : device ∈ t.offline
    · exact ⟨_, setAttributes_of_fault (lookup_of_mem away) commands now⟩
    · rcases gone with unreachable | strange
      · exact absurd ((offline device).mpr unreachable) away
      · have unknown : t.lookup device = .error (.unknownDevice device) := by
          rw [lookup_of_notMem away, recalls.unknown device strange]
        exact ⟨_, setAttributes_of_fault unknown commands now⟩
  · intro device commands c rest now failure r accepted rejected
    exact setAttributes_rejected recalls.keyed accepted rejected rest

/-- A lamp is dimmed in a request that goes on with a colour, and is then lost: it stays dimmed,
and does not take what it is sent meanwhile. -/
example :
    let dim (level : Int64) : Command := ⟨⟨1, "brightness"⟩, .int level⟩
    let t := (assembled [lamp]).after
      [.set lamp.id [dim 40, ⟨⟨1, "color"⟩, .text "red"⟩, dim 50] default,
        .online lamp.id false, .set lamp.id [dim 60] default]
    (t.appliances.find? lamp.id).map Appliance.state = some (.light false 40) ∧
      t.history.length = 1 := by
  decide +kernel

end Transport

end HomeScenes.Virtual
