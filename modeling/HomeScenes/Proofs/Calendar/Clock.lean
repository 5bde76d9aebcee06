import HomeScenes.Proofs.Calendar.Days

/-!
# A clock that runs

A clock that starts at an epoch and goes on with the time of a session. It shows ordinary
times only: between two of them lies as much time as the clock takes from the one to the
other. What is said here fails for an instant within a leap second, which is late on such a
clock before the clock has gone as far as the time that is left says.
-/

namespace HomeScenes

namespace Instant

def Ordinary (t : Instant) : Prop :=
  t.time.Ordinary

def nanos (t : Instant) : Int :=
  t.day * nanosPerDay + t.time.second * nanosPerSecond + t.time.nano

theorem lt_iff_nanos {a b : Instant} (ha : a.Ordinary) (hb : b.Ordinary) :
    a < b ↔ a.nanos < b.nanos := by
  obtain ⟨da, ⟨sa, na, hsa, hna⟩⟩ := a
  obtain ⟨db, ⟨sb, nb, hsb, hnb⟩⟩ := b
  have ha : na < 1000000000 := ha
  have hb : nb < 1000000000 := hb
  simp only [lt_def, rank, TimeOfDay.rank, nanos, nanosPerDay, nanosPerSecond]
  omega

theorem le_iff_nanos {a b : Instant} (ha : a.Ordinary) (hb : b.Ordinary) :
    a ≤ b ↔ a.nanos ≤ b.nanos := by
  have h := lt_iff_nanos hb ha
  rw [← Std.not_lt, h]
  omega

theorem nanos_injective {a b : Instant} (ha : a.Ordinary) (hb : b.Ordinary)
    (same : a.nanos = b.nanos) : a = b :=
  Std.le_antisymm ((le_iff_nanos ha hb).mpr (by omega)) ((le_iff_nanos hb ha).mpr (by omega))

theorem since_eq {a b : Instant} (ha : a.Ordinary) (hb : b.Ordinary) :
    a.since b = a.nanos - b.nanos := by
  obtain ⟨da, ⟨sa, na, hsa, hna⟩⟩ := a
  obtain ⟨db, ⟨sb, nb, hsb, hnb⟩⟩ := b
  have ha : ¬ 1000000000 ≤ na := Nat.not_le.mpr ha
  have hb : ¬ 1000000000 ≤ nb := Nat.not_le.mpr hb
  simp only [since, TimeOfDay.since, TimeOfDay.isLeap, nanosPerSecond, ha, hb, decide_false,
    Bool.false_eq_true, and_false, if_false, nanos, nanosPerDay]
  omega

theorem shift_spec {t : Instant} (h : t.Ordinary) (d : Int) :
    (t.shift d).Ordinary ∧ (t.shift d).nanos = t.nanos + d := by
  obtain ⟨day, ⟨second, nano, hs, hn⟩⟩ := t
  have h : nano < 1000000000 := h
  simp only [Ordinary, TimeOfDay.Ordinary, shift, TimeOfDay.shift, dif_pos h, TimeOfDay.ofNanos,
    nanos, nanosPerDay, nanosPerSecond]
  omega

theorem ofMicros_ordinary (us : Int) : (ofMicros us).Ordinary := by
  simp only [Ordinary, TimeOfDay.Ordinary, ofMicros, TimeOfDay.ofNanos]
  omega

/-- From an ordinary time on, some time passes before any later instant. -/
theorem since_pos {a b : Instant} (hb : b.Ordinary) (later : b < a) : 0 < a.since b := by
  have leap (t : TimeOfDay) : t.isLeap = true ↔ 1000000000 ≤ t.nano := decide_eq_true_iff
  have ordinary : ¬ 1000000000 ≤ b.time.nano := Nat.not_le.mpr hb
  have ha := a.time.second_lt
  have hb := b.time.second_lt
  simp only [lt_def, rank, TimeOfDay.rank] at later
  simp only [since, TimeOfDay.since, leap, ordinary, and_false, if_false, nanosPerDay]
  split <;> omega

theorem shift_since {a b : Instant} (ha : a.Ordinary) (hb : b.Ordinary) :
    b.shift (a.since b) = a := by
  obtain ⟨ordinary, nanos⟩ := shift_spec hb (a.since b)
  refine nanos_injective ordinary ha ?_
  rw [nanos, since_eq ha hb]
  omega

/-- What a clock shows that showed an epoch some nanoseconds ago. -/
def clockFrom (epoch : Instant) (now : Nat) : Instant :=
  epoch.shift now

variable {epoch due : Instant}

theorem shift_clockFrom (he : epoch.Ordinary) (now nanos : Nat) :
    (clockFrom epoch now).shift nanos = clockFrom epoch (now + nanos) := by
  obtain ⟨before, here⟩ := shift_spec he now
  obtain ⟨again, later⟩ := shift_spec before nanos
  obtain ⟨once, whole⟩ := shift_spec he ↑(now + nanos)
  have same : ((epoch.shift now).shift nanos).nanos = (epoch.shift ↑(now + nanos)).nanos := by
    omega
  exact nanos_injective again once same

/-- The time that is left until an instant goes down as the clock goes on. -/
theorem since_clockFrom (he : epoch.Ordinary) (hd : due.Ordinary) (now : Nat) :
    due.since (clockFrom epoch now) = due.since epoch - now := by
  obtain ⟨ordinary, nanos⟩ := shift_spec he now
  rw [since_eq hd he, clockFrom, since_eq hd ordinary, nanos]
  omega

theorem clockFrom_lt_iff (he : epoch.Ordinary) (hd : due.Ordinary) {now : Nat} :
    clockFrom epoch now < due ↔ (now : Int) < due.since epoch := by
  obtain ⟨ordinary, nanos⟩ := shift_spec he now
  rw [clockFrom, lt_iff_nanos ordinary hd, nanos, since_eq hd he]
  omega

theorem le_clockFrom_iff (he : epoch.Ordinary) (hd : due.Ordinary) {now : Nat} :
    due ≤ clockFrom epoch now ↔ due.since epoch ≤ now := by
  rw [← Std.not_lt, clockFrom_lt_iff he hd]
  omega

theorem since_le_since (he : epoch.Ordinary) {a b : Instant} (ha : a.Ordinary) (hb : b.Ordinary) :
    a.since epoch ≤ b.since epoch ↔ a ≤ b := by
  rw [since_eq ha he, since_eq hb he, le_iff_nanos ha hb]
  omega

end Instant

end HomeScenes
