import HomeScenes.Engine.Run
import HomeScenes.Proofs.Network
import HomeScenes.Proofs.Work

/-!
# Controlling a device

How an action that controls a device ends depends on the device and on its own commands, and on
nothing that other actions do. If the device is a virtual one, it ends at once.
-/

namespace HomeScenes.Engine

/-- How an action that sends commands to a device ends. -/
def verdict (e : Engine) (device : DeviceId) (commands : List Command) : Outcome :=
  if (e.devices.get? device false).isNone then .deviceDeleted
  else if e.network.transport.offline.contains device then .deviceOffline
  else match e.network.transport.appliances.find? device with
    | none => .failed
    | some a => if commands.all a.state.accepts then .success else .failed

/-- Requests to the device go to the virtual transport, whether or not it knows the device. -/
structure Linked (e : Engine) (device : DeviceId) : Prop where
  answers : e.network.stalled.contains device = false
  active : e.network.passive.find? device = none

variable {e r : Engine} {device : DeviceId}

theorem Linked.congr (h : e.Linked device) (network : e.network.Alike r.network) :
    r.Linked device where
  answers := network.stalled ▸ h.answers
  active := (network.passive device).mpr h.active

/-- The verdict is the same as long as devices are neither stored nor deleted, and appliances
neither come and go nor get offline or online. -/
theorem verdict_congr (devices : r.devices = e.devices) (network : e.network.Alike r.network)
    (device : DeviceId) (commands : List Command) :
    r.verdict device commands = e.verdict device commands := by
  have kinds := network.kinds device
  rw [verdict, verdict, devices, network.offline]
  simp only [Virtual.Transport.kind?] at kinds
  cases new : r.network.transport.appliances.find? device with
  | none =>
    cases old : e.network.transport.appliances.find? device with
    | none => rfl
    | some a =>
      rw [new, old] at kinds
      cases kinds
  | some b =>
    cases old : e.network.transport.appliances.find? device with
    | none =>
      rw [new, old] at kinds
      cases kinds
    | some a =>
      rw [new, old] at kinds
      have same : b.state.accepts = a.state.accepts :=
        funext (Virtual.State.accepts_congr (Option.some.inj kinds))
      simp only [same]

/-- A request to such a device. -/
theorem set_linked (h : e.Linked device) (c : Command) :
    e.network.set device [c] e.now =
      (.answer (e.network.transport.setAttributes device [c] e.now).1,
        { e.network with
          transport := (e.network.transport.setAttributes device [c] e.now).2.2
          bus := e.network.bus.publishAll
            (e.network.transport.setAttributes device [c] e.now).2.1 }) := by
  rw [Network.set, h.answers, h.active]
  rfl

section Requests

variable {d : Device} {c : Command} {cs : List Command} {network : Network}

theorem control_refused {failure : Failure} (read : e.readDevice device false = .ok (some d))
    (set : e.network.set device [c] e.now = (.answer (.error failure), network)) :
    (control device (c :: cs)).advance e =
      (.finished (.error failure), { e with network := network }) := by
  rw [control, Work.advance]
  simp only [read, set]
  rfl

theorem control_taken (read : e.readDevice device false = .ok (some d))
    (set : e.network.set device [c] e.now = (.answer (.ok ()), network)) :
    (control device (c :: cs)).advance e =
      (control device cs).advance { e with network := network } := by
  rw [control, Work.advance]
  simp only [read, set]
  rfl

end Requests

/-- Commands to a device that answers are carried out up to the first that it rejects. -/
theorem control_answers {d : Device} {a : Virtual.Appliance}
    (read : e.readDevice device false = .ok (some d)) (linked : e.Linked device)
    (keyed : e.network.transport.Keyed) (found : e.network.transport.lookup device = .ok a)
    (commands : List Command) : ∃ result r,
      (control device commands).advance e = (.finished result, r) ∧
      Outcome.ofResult result = if commands.all a.state.accepts then .success else .failed := by
  induction commands generalizing e a with
  | nil => exact ⟨.ok (), e, rfl, rfl⟩
  | cons c cs ih =>
    have set := set_linked linked c
    rcases Network.setAttributes_one found c e.now with
      ⟨fault, rejected, same⟩ | ⟨value, s, applied, same⟩
    · rw [same] at set
      have refused : a.state.accepts c = false := by
        rw [Virtual.State.accepts, rejected]
        rfl
      refine ⟨_, _, control_refused read set, ?_⟩
      rw [List.all_cons, refused]
      exact Virtual.State.rejected rejected
    · obtain ⟨online, own⟩ := Network.lookup_ok found
      obtain ⟨network, set, kept⟩ : ∃ network,
          e.network.set device [c] e.now = (.answer (.ok ()), network) ∧
          network.transport.lookup device = .ok { a with state := s } := by
        rw [same] at set
        refine ⟨_, set, ?_⟩
        simp only [Virtual.Transport.lookup, online, Table.find?_set, keyed device a own]
        rfl
      have alike := Network.alike_set keyed device c e.now
      rw [set] at alike
      have kind := (Virtual.State.apply_ok_iff.mp applied).kind
      obtain ⟨result, r, advanced, outcome⟩ := ih (e := { e with network := network }) read
        (linked.congr alike) (alike.keyed keyed) kept
      refine ⟨result, r, (control_taken read set).trans advanced, outcome.trans ?_⟩
      have taken : a.state.accepts c = true := Virtual.State.accepts_iff.mpr ⟨value, s, applied⟩
      have rest : s.accepts = a.state.accepts := funext (Virtual.State.accepts_congr kind)
      rw [List.all_cons, taken, Bool.true_and, rest]

/-- An action that sends commands to such a device ends at once, with the verdict. -/
theorem control_verdict (working : e.outages.devices = none) (linked : e.Linked device)
    (keyed : e.network.transport.Keyed) {commands : List Command} (any : commands ≠ []) :
    ∃ result r, (control device commands).advance e = (.finished result, r) ∧
      Outcome.ofResult result = e.verdict device commands := by
  obtain ⟨c, cs, rfl⟩ := List.exists_cons_of_ne_nil any
  cases stored : e.devices.get? device false with
  | none =>
    have read : e.readDevice device false = .ok none := by
      rw [readDevice, working, stored]
    refine ⟨.error (.missingDevice device), e, ?_, ?_⟩
    · rw [control, Work.advance]
      simp only [read]
      rfl
    · rw [verdict, stored]
      rfl
  | some d =>
    have read : e.readDevice device false = .ok (some d) := by
      rw [readDevice, working, stored]
    have set := set_linked linked c
    cases found : e.network.transport.lookup device with
    | ok a =>
      obtain ⟨online, own⟩ := Network.lookup_ok found
      obtain ⟨result, r, advanced, outcome⟩ := control_answers read linked keyed found (c :: cs)
      refine ⟨result, r, advanced, outcome.trans ?_⟩
      rw [verdict, stored, online, own]
      rfl
    | error fault =>
      rw [Virtual.Transport.setAttributes_of_fault found] at set
      refine ⟨_, _, control_refused read set, ?_⟩
      rw [Virtual.Transport.lookup] at found
      rw [verdict, stored]
      split at found
      · rename_i offline
        cases found
        rw [offline]
        rfl
      · rename_i online
        split at found <;> cases found
        rename_i unknown
        rw [Bool.eq_false_iff.mpr online, unknown]
        rfl

end HomeScenes.Engine
