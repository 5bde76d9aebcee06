import HomeScenes.Network
import HomeScenes.Proofs.Virtual.Requests

/-!
# Commands and the network

A command to a device changes the state of an appliance at most. Which devices are stalled, passive
or offline, which appliances there are, and of what kind they are, stays as it is, and so does which
commands they accept.
-/

namespace HomeScenes

namespace Virtual

namespace State

/-- A command that an appliance rejects is an ordinary failure. -/
theorem rejected {s : State} {c : Command} {fault : Fault} (h : s.apply c = .error fault) :
    Outcome.ofFailure fault.toFailure = .failed := by
  unfold apply at h
  split at h
  all_goals first
    | (cases h; rfl)
    | (split at h <;> cases h; rfl)

def accepts (s : State) (c : Command) : Bool :=
  (s.apply c).isOk

theorem accepts_iff {s : State} {c : Command} :
    s.accepts c = true ↔ ∃ value r, s.apply c = .ok (value, r) := by
  rw [accepts]
  cases s.apply c with
  | error fault => simp [Except.isOk, Except.toBool]
  | ok taken => exact ⟨fun _ => ⟨_, _, rfl⟩, fun _ => rfl⟩

/-- Appliances of one kind accept the same commands. -/
theorem accepts_congr {s r : State} (same : r.kind = s.kind) (c : Command) :
    r.accepts c = s.accepts c := by
  have half : ∀ {s r : State}, r.kind = s.kind → s.accepts c = true → r.accepts c = true := by
    intro s r same taken
    obtain ⟨value, after, applied⟩ := accepts_iff.mp taken
    obtain ⟨value, after, takes⟩ := (apply_ok_iff.mp applied).likewise same
    exact accepts_iff.mpr ⟨value, after, apply_ok_iff.mpr takes⟩
  exact Bool.eq_iff_iff.mpr ⟨half same.symm, half same⟩

end State

def Transport.kind? (t : Transport) (device : DeviceId) : Option String :=
  (t.appliances.find? device).map fun a => a.state.kind

end Virtual

namespace Network

open Virtual

/-- The same devices are stalled, passive and offline, and the appliances are of the same kinds. -/
structure Alike (n r : Network) : Prop where
  stalled : r.stalled = n.stalled
  passive : ∀ device, r.passive.find? device = none ↔ n.passive.find? device = none
  offline : r.transport.offline = n.transport.offline
  kinds : ∀ device, r.transport.kind? device = n.transport.kind? device
  keyed : n.transport.Keyed → r.transport.Keyed

theorem Alike.refl (n : Network) : Alike n n :=
  ⟨rfl, fun _ => Iff.rfl, rfl, fun _ => rfl, fun keyed => keyed⟩

theorem Alike.trans {n r s : Network} (hr : Alike n r) (hs : Alike r s) : Alike n s where
  stalled := hs.stalled.trans hr.stalled
  passive device := (hs.passive device).trans (hr.passive device)
  offline := hs.offline.trans hr.offline
  kinds device := (hs.kinds device).trans (hr.kinds device)
  keyed := hs.keyed ∘ hr.keyed

variable {n : Network} {device : DeviceId} {c : Command} {now : Instant}

/-- A command is carried out on the appliance, or rejected. -/
theorem setAttributes_one {t : Transport} {a : Appliance} (found : t.lookup device = .ok a)
    (c : Command) (now : Instant) :
    (∃ fault, a.state.apply c = .error fault ∧
      t.setAttributes device [c] now = (.error fault.toFailure, [], t)) ∨
    ∃ value r, a.state.apply c = .ok (value, r) ∧
      t.setAttributes device [c] now = (.ok (), [⟨device, c.target, value, now⟩],
        { t with
          appliances := t.appliances.set a.id { a with state := r }
          history := t.history ++ [(a.id, c)] }) := by
  rw [Transport.setAttributes_of_lookup found]
  simp only [Transport.applyAll, Transport.applyOne]
  cases applied : a.state.apply c with
  | error fault => exact .inl ⟨fault, rfl, rfl⟩
  | ok taken => exact .inr ⟨taken.1, taken.2, rfl, rfl⟩

/-- The appliance that answers for a device is the one that is kept for it. -/
theorem lookup_ok {t : Transport} {a : Appliance} (found : t.lookup device = .ok a) :
    t.offline.contains device = false ∧ t.appliances.find? device = some a := by
  rw [Transport.lookup] at found
  split at found
  · cases found
  · rename_i online
    split at found <;> cases found
    rename_i own
    exact ⟨by simpa using online, own⟩

/-- A command leaves the network alike. -/
theorem alike_set (keyed : n.transport.Keyed) (device : DeviceId) (c : Command) (now : Instant) :
    Alike n (n.set device [c] now).2 := by
  rw [set]
  split
  · exact .refl n
  · split
    · rename_i p own
      split
      · exact .refl n
      · refine ⟨rfl, fun other => ?_, rfl, fun _ => rfl, fun keyed => keyed⟩
        rw [Table.find?_set]
        split
        · rename_i same
          rw [same, own]
          simp
        · rfl
    · cases found : n.transport.lookup device with
      | error fault =>
        rw [Transport.setAttributes_of_fault found]
        exact ⟨rfl, fun _ => Iff.rfl, rfl, fun _ => rfl, fun keyed => keyed⟩
      | ok a =>
        rcases setAttributes_one found c now with ⟨fault, -, same⟩ | ⟨value, r, applied, same⟩
        · rw [same]
          exact ⟨rfl, fun _ => Iff.rfl, rfl, fun _ => rfl, fun keyed => keyed⟩
        · rw [same]
          refine ⟨rfl, fun _ => Iff.rfl, rfl, fun other => ?_, fun keyed => keyed.put { a with state := r } _⟩
          have kind := (State.apply_ok_iff.mp applied).kind
          obtain ⟨-, own⟩ := lookup_ok found
          have id := keyed device a own
          simp only [Transport.kind?, Table.find?_set]
          split
          · rename_i here
            rw [here, id, own]
            simp [kind]
          · rfl

end Network

end HomeScenes
