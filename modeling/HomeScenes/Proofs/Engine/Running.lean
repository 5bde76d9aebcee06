import HomeScenes.Proofs.Engine.Arrangement
import HomeScenes.Proofs.Engine.Stored

/-!
# The engine at work

What a started engine is like as long as no scene is stored from outside and the clock does
not go back: index and queue agree, the store is in order, and there is one arrangement.
-/

namespace HomeScenes

/-- No scene is stored, and the clock does not go back. -/
def Moment.Forward (m : Moment) : Move → Prop
  | .save _ => False
  | .advance utc => m.engine.now ≤ utc
  | _ => True

namespace Engine

structure Running (given : Settings) (good : SceneId → List TimeOfDay → Prop) (m : Moment)
    (time : LocalTime) : Prop where
  consistent : Consistent m.engine m.handed
  stored : Stored given good m.engine
  arranged : Arranged m.engine m.handed time

variable {given : Settings} {good : SceneId → List TimeOfDay → Prop} {m : Moment}
  {time own : LocalTime} {move : Move}

theorem no_save (ok : m.Forward move) : ∀ s, move ≠ .save s := by
  rintro s rfl
  exact ok

theorem forward_clock (ok : m.Forward move) : ∀ utc, move = .advance utc → m.engine.now ≤ utc := by
  rintro utc rfl
  exact ok

theorem Running.apply_none (h : Running given good m time) (ok : m.Forward move)
    (other : m.arranging? move = none) : Running given good (m.apply move) time := by
  have arranged := h.arranged.apply h.consistent (forward_clock ok)
  rw [other] at arranged
  exact ⟨h.consistent.apply move, h.stored.apply (no_save ok), arranged⟩

/-- The arrangement that runs is due, and the next one takes its place. -/
theorem Running.apply_some (h : Running given good m time) (ok : m.Forward move)
    (arranges : m.arranging? move = some own) : own = time ∧ time.utc ≤ m.engine.now ∧
      Running given good (m.apply move) (time.addDays 1) := by
  have arranged := h.arranged.apply h.consistent (forward_clock ok)
  rw [arranges] at arranged
  obtain ⟨same, due, arranged⟩ := arranged
  exact ⟨same, due, h.consistent.apply move, h.stored.apply (no_save ok), arranged⟩

theorem Running.exists_apply (h : Running given good m time) (ok : m.Forward move) :
    ∃ time, Running given good (m.apply move) time := by
  cases arranging : m.arranging? move with
  | none => exact ⟨time, h.apply_none ok arranging⟩
  | some own => exact ⟨_, (h.apply_some ok arranging).2.2⟩

/-- The settings stay, and the clock goes on with the same offset. -/
theorem Running.later (h : Running given good m time) (ok : m.Forward move) :
    (m.apply move).engine.settings = m.engine.settings ∧
      (m.apply move).engine.clock.offset = m.engine.clock.offset ∧
      m.engine.now ≤ (m.apply move).engine.now := by
  refine ⟨(h.stored.apply (no_save ok)).settings.trans h.stored.settings.symm, ?_⟩
  by_cases still : ∀ utc, move ≠ .advance utc
  · have clock := (clock_lasting m.engine.clock).apply rfl (no_save ok) still
    rw [now, now, clock]
    exact ⟨rfl, Std.le_refl _⟩
  · push Not at still
    obtain ⟨utc, rfl⟩ := still
    exact ⟨rfl, ok⟩

theorem running_started {settings : Settings} (clock : LocalTime) {scenes : SceneStore}
    (devices : DeviceStore) (network : Network) (journal : Journal Ticket)
    (keyed : scenes.Keyed) (timings : ∀ id s, scenes.get? id false = some s → good id s.timings) :
    Running settings good (Moment.started settings clock scenes devices network journal)
      (clock.onSameDay settings.arrangeAt) :=
  ⟨consistent_started _ _ _ _ _ _, stored_started clock devices network journal keyed timings,
    arranged_started _ _ _ _ _ _⟩

end Engine

end HomeScenes
