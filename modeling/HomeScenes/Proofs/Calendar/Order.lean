import HomeScenes.Calendar.LocalTime
import Mathlib.Tactic.Common

/-!
# The order of instants

Instants are compared by their rank, which no two of them share. The order is linear,
and moving both sides by the same number of whole seconds keeps it, so that instants
may be compared on any wall clock.
-/

namespace HomeScenes.Instant

theorem rank_injective {a b : Instant} (h : a.rank = b.rank) : a = b := by
  obtain ⟨da, ⟨sa, na, hsa, hna⟩⟩ := a
  obtain ⟨db, ⟨sb, nb, hsb, hnb⟩⟩ := b
  simp only [rank, TimeOfDay.rank] at h
  have hd : da = db := by omega
  have hs : sa = sb := by omega
  have hn : na = nb := by omega
  subst hd hs hn
  rfl

theorem le_def {a b : Instant} : a ≤ b ↔ a.rank ≤ b.rank := Iff.rfl

theorem lt_def {a b : Instant} : a < b ↔ a.rank < b.rank := Iff.rfl

instance : Std.IsLinearOrder Instant where
  le_refl a := le_def.2 (Int.le_refl a.rank)
  le_trans _ _ _ := Int.le_trans
  le_antisymm _ _ hab hba := rank_injective (Int.le_antisymm hab hba)
  le_total a b := Int.le_total a.rank b.rank

instance : Std.LawfulOrderLT Instant where
  lt_iff a b := by rw [lt_def, le_def, le_def]; omega

/-- An instant of an earlier day comes first, whatever the times are. -/
theorem lt_of_day_lt {a b : Instant} (h : a.day < b.day) : a < b := by
  have ha := a.time.second_lt
  have hb := b.time.second_lt
  have hna := a.time.nano_lt
  simp only [lt_def, rank, TimeOfDay.rank]
  omega

theorem day_le_of_le {a b : Instant} (h : a ≤ b) : a.day ≤ b.day := by
  by_cases hlt : b.day < a.day
  · exact False.elim (Std.not_lt.mpr h (lt_of_day_lt hlt))
  · omega

theorem rank_turn (t : Instant) (seconds : Int) :
    (t.turn seconds).rank = t.rank + seconds * 2000000000 := by
  simp only [turn, rank, TimeOfDay.rank]
  omega

theorem turn_turn (t : Instant) (a b : Int) : (t.turn a).turn b = t.turn (a + b) := by
  apply rank_injective
  simp only [rank_turn]
  omega

theorem turn_zero (t : Instant) : t.turn 0 = t := by
  apply rank_injective
  rw [rank_turn]
  omega

theorem turn_days (t : Instant) (days : Int) : t.turn (days * 86400) = ⟨t.day + days, t.time⟩ := by
  apply rank_injective
  rw [rank_turn]
  simp only [rank]
  omega

theorem turn_lt_turn {a b : Instant} {seconds : Int} :
    a.turn seconds < b.turn seconds ↔ a < b := by
  simp only [lt_def, rank_turn]
  omega

theorem turn_le_turn {a b : Instant} {seconds : Int} :
    a.turn seconds ≤ b.turn seconds ↔ a ≤ b := by
  simp only [le_def, rank_turn]
  omega

end HomeScenes.Instant
