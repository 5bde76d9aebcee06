import HomeScenes.Engine.Upkeep
import HomeScenes.Proofs.Engine.Control

/-!
# One command after the other

Commands that an action sends to a virtual device one by one come to the same as one request with
all of them: the same result, appliances in the same states, and the same history. They differ in
the events. A request that is cut short publishes nothing, while here every command that was carried
out has had its event by then.
-/

namespace HomeScenes

namespace Virtual.Transport

variable {t r : Transport} {device : DeviceId} {a b : Appliance} {c : Command} {s : State}
  {value : AttributeValue}

/-- A request goes on after its first command like a request for the others. -/
theorem setAttributes_cons (found : t.lookup device = .ok a)
    (applied : a.state.apply c = .ok (value, s))
    (kept : r = { t with
      appliances := t.appliances.set a.id { a with state := s }
      history := t.history ++ [(a.id, c)] })
    (answers : r.lookup device = .ok { a with state := s }) (cs : List Command) (now : Instant) :
    (t.setAttributes device (c :: cs) now).1 = (r.setAttributes device cs now).1 ∧
      (t.setAttributes device (c :: cs) now).2.2 = (r.setAttributes device cs now).2.2 := by
  have first : t.applyAll a (c :: cs) =
      ((r.applyAll { a with state := s } cs).1.map fun stored => (c.target, value) :: stored,
        (r.applyAll { a with state := s } cs).2) := by
    simp only [applyAll, applyOne, applied, kept]
  rw [setAttributes_of_lookup found, setAttributes_of_lookup answers, first]
  cases (r.applyAll { a with state := s } cs).1 with
  | error fault => exact ⟨rfl, rfl⟩
  | ok stored => exact ⟨rfl, rfl⟩

end Virtual.Transport

namespace Engine

open Virtual Virtual.Transport

/-- Commands were carried out one by one up to the first that failed, with an event for each, and
that comes to what one request with all of them comes to. -/
structure AsBatch (e : Engine) (device : DeviceId) (commands : List Command)
    (done : List (Command × AttributeValue)) (rest : List Command) (result : TaskResult)
    (r : Engine) : Prop where
  split : commands = done.map Prod.fst ++ rest
  answer : result = (e.network.transport.setAttributes device commands e.now).1
  transport : r.network.transport =
    (e.network.transport.setAttributes device commands e.now).2.2
  history : r.network.transport.history =
    e.network.transport.history ++ done.map fun d => (device, d.1)
  events : r.network.bus = e.network.bus.publishAll (publication device e.now done)
  carried : ∀ a, e.network.transport.lookup device = .ok a → ∃ final, a.state.Carries done final
  all : rest = [] ↔ result = .ok ()
  failing : ∀ c cs, rest = c :: cs →
    (r.network.transport.setAttributes device [c] e.now).1 = result
  frame : r = { e with
    network := { e.network with transport := r.network.transport, bus := r.network.bus } }

variable {e r : Engine} {device : DeviceId} {d : Device} {a : Appliance} {c : Command}
  {cs rest : List Command} {done : List (Command × AttributeValue)} {result : TaskResult}
  {value : AttributeValue} {s : State} {failure : Failure}

theorem AsBatch.nil (found : e.network.transport.lookup device = .ok a) :
    AsBatch e device [] [] [] (.ok ()) e where
  split := rfl
  answer := by
    rw [setAttributes_of_lookup found]
    rfl
  transport := by
    rw [after_setAttributes found]
    rfl
  history := (List.append_nil _).symm
  events := rfl
  carried a _ := ⟨a.state, .none _⟩
  all := Iff.intro (fun _ => rfl) fun _ => rfl
  failing := by rintro c cs ⟨⟩
  frame := rfl

/-- A request for a first command that fails, with others to follow. -/
theorem AsBatch.refused (fails : ∀ cs, e.network.transport.setAttributes device (c :: cs) e.now =
    (.error failure, [], e.network.transport)) (cs : List Command) :
    AsBatch e device (c :: cs) [] (c :: cs) (.error failure) e where
  split := rfl
  answer := by rw [fails]
  transport := by rw [fails]
  history := (List.append_nil _).symm
  events := rfl
  carried a _ := ⟨a.state, .none _⟩
  all := by simp
  failing := by
    rintro _ _ ⟨⟩
    rw [fails]
  frame := rfl

def taken (e : Engine) (device : DeviceId) (a : Appliance) (c : Command) (value : AttributeValue)
    (s : State) : Engine :=
  { e with network := { e.network with
      transport := { e.network.transport with
        appliances := e.network.transport.appliances.set a.id { a with state := s }
        history := e.network.transport.history ++ [(a.id, c)] }
      bus := e.network.bus.publish ⟨device, c.target, value, e.now⟩ } }

theorem lookup_taken (keyed : e.network.transport.Keyed)
    (found : e.network.transport.lookup device = .ok a) :
    (e.taken device a c value s).network.transport.lookup device = .ok { a with state := s } := by
  obtain ⟨online, own⟩ := Network.lookup_ok found
  simp only [taken, Transport.lookup, online, Table.find?_set, keyed device a own]
  rfl

theorem AsBatch.next (keyed : e.network.transport.Keyed)
    (found : e.network.transport.lookup device = .ok a)
    (applied : a.state.apply c = .ok (value, s))
    (others : AsBatch (e.taken device a c value s) device cs done rest result r) :
    AsBatch e device (c :: cs) ((c, value) :: done) rest result r := by
  have answers : (e.taken device a c value s).network.transport.lookup device =
      .ok { a with state := s } := lookup_taken keyed found
  obtain ⟨answer, transport⟩ := setAttributes_cons found applied rfl answers cs e.now
  constructor
  · rw [others.split]
    rfl
  · rw [answer]
    exact others.answer
  · rw [transport]
    exact others.transport
  · rw [others.history, ← lookup_id keyed found]
    exact List.append_assoc _ _ _
  · exact others.events
  · rintro b own
    cases found.symm.trans own
    obtain ⟨final, carries⟩ := others.carried _ answers
    exact ⟨final, .next applied (State.apply_ok_iff.mp applied).read carries⟩
  · exact others.all
  · exact others.failing
  · exact others.frame

/-- Commands to a device that answers. -/
theorem control_asBatch (read : e.readDevice device false = .ok (some d))
    (linked : e.Linked device) (keyed : e.network.transport.Keyed)
    (found : e.network.transport.lookup device = .ok a) (commands : List Command) :
    ∃ done rest result r, (control device commands).advance e = (.finished result, r) ∧
      AsBatch e device commands done rest result r := by
  induction commands generalizing e a with
  | nil => exact ⟨[], [], .ok (), e, rfl, .nil found⟩
  | cons c cs ih =>
    have set := set_linked linked c
    rcases Network.setAttributes_one found c e.now with
      ⟨fault, rejected, same⟩ | ⟨value, s, applied, same⟩
    · rw [same] at set
      refine ⟨[], c :: cs, .error fault.toFailure, e, control_refused read set,
        .refused (fun cs => ?_) cs⟩
      simp only [setAttributes_of_lookup found, applyAll, applyOne, rejected]
    · rw [same] at set
      have alike := Network.alike_set keyed device c e.now
      rw [set] at alike
      obtain ⟨done, rest, result, r, advanced, others⟩ := ih (e := e.taken device a c value s) read
        (linked.congr alike) (alike.keyed keyed) (lookup_taken keyed found)
      exact ⟨(c, value) :: done, rest, result, r, (control_taken read set).trans advanced,
        others.next keyed found applied⟩

/-- An action that sends commands to a virtual device ends at once. If the device is stored and not
deleted, it comes to what one request with all commands comes to, carries out the commands before
the first that fails, and publishes one event for each of these. Otherwise nothing changes. -/
theorem control_agrees_with_batch (working : e.outages.devices = none) {commands : List Command}
    (any : commands ≠ []) :
    (∀ d, e.devices.get? device false = some d → e.Linked device → e.network.transport.Keyed →
      ∃ done rest result r, (control device commands).advance e = (.finished result, r) ∧
        AsBatch e device commands done rest result r) ∧
    (e.devices.get? device false = none →
      (control device commands).advance e = (.finished (.error (.missingDevice device)), e)) := by
  obtain ⟨c, cs, rfl⟩ := List.exists_cons_of_ne_nil any
  constructor
  · intro d stored linked keyed
    have read : e.readDevice device false = .ok (some d) := by
      rw [readDevice, working, stored]
    cases found : e.network.transport.lookup device with
    | ok a => exact control_asBatch read linked keyed found (c :: cs)
    | error fault =>
      have set := set_linked linked c
      rw [setAttributes_of_fault found] at set
      refine ⟨[], c :: cs, .error fault.toFailure, e, control_refused read set, ?_⟩
      exact .refused (fun cs => setAttributes_of_fault found (c :: cs) e.now) cs
  · intro missing
    have read : e.readDevice device false = .ok none := by
      rw [readDevice, working, missing]
    rw [control, Work.advance]
    simp only [read]
    rfl

/-- A lamp is switched on, told its colour, which it does not know, and switched on again: it has
been switched on once by then, with one event. -/
theorem control_stops_at_colour :
    let on : Command := ⟨⟨1, "power"⟩, .bool true⟩
    let commands := [on, ⟨⟨1, "color"⟩, .text "red"⟩, on]
    let network : Network := { (default : Network) with transport := .add {} lamp }
    let record : Device := ⟨lamp.id, "Lamp", none, none, "virtual", "lamp", none⟩
    let e := ofParts {} ⟨⟨0, .midnight⟩, 0⟩ {} ⟨⟨[(lamp.id, record)]⟩⟩ network default
    ∃ done failure r, (control lamp.id commands).advance e = (.finished (.error failure), r) ∧
      r.network.transport.history = [(lamp.id, on)] ∧ done.map Prod.fst = [on] ∧
      r.network.bus = e.network.bus.publishAll (publication lamp.id e.now done) := by
  intro on commands network record e
  have keyed : e.network.transport.Keyed := (Reached.add .empty lamp).keyed
  obtain ⟨batched, -⟩ := @control_agrees_with_batch e lamp.id rfl commands (List.cons_ne_nil _ _)
  obtain ⟨done, rest, result, r, advanced, batch⟩ := batched record rfl ⟨rfl, rfl⟩ keyed
  have history : r.network.transport.history = [(lamp.id, on)] := by
    rw [batch.transport]
    rfl
  have one : [(lamp.id, on)] = done.map fun d => (lamp.id, d.1) := history.symm.trans batch.history
  have first : [on] = done.map Prod.fst := by
    have seconds := congrArg (List.map Prod.snd) one
    rwa [List.map_map] at seconds
  obtain ⟨failure, refused⟩ : ∃ failure, result = .error failure := ⟨_, batch.answer⟩
  exact ⟨done, failure, r, refused ▸ advanced, history, first.symm, batch.events⟩

end Engine

end HomeScenes
