import HomeScenes.Proofs.Scene

/-!
# Drafts of scenes

A draft describes one scene, and that scene is built if, and only if, it keeps all the rules.
Weekdays that are left out are those that the recurrence stands for, so that they never misfit it.
-/

namespace HomeScenes.Scene

namespace Draft

/-- What a scene is like that is made from a draft, a fresh id and the present instant. -/
structure Describes (d : Draft) (fresh : SceneId) (now : Instant) (s : Scene) : Prop where
  id : s.id = d.id.getD fresh
  name : s.name = d.name.getD ""
  automatic : s.automatic = d.automatic
  armed : s.armed = d.armed.getD true
  logic : s.logic = d.logic
  window : s.window = d.window
  recurrence : s.recurrence = d.recurrence
  chosen : ∀ w, d.weekdays = some w → s.weekdays = w
  /-- Weekdays that are left out are the working days for a scene of working days, else all. -/
  usual : d.weekdays = none → ∀ day, 1 ≤ day → day ≤ 7 →
    s.weekdays.contains day = decide (d.recurrence = .workdays → day ≤ 5)
  conditions : s.conditions = d.conditions
  actions : s.actions = d.actions
  createdAt : s.createdAt = d.createdAt.getD now
  deletedAt : s.deletedAt = d.deletedAt

variable (d : Draft) (fresh : SceneId) (now : Instant)

theorem contains_chosenWeekdays (free : d.weekdays = none) {day : Nat} (first : 1 ≤ day)
    (last : day ≤ 7) :
    d.chosenWeekdays.contains day = decide (d.recurrence = .workdays → day ≤ 5) := by
  have usual := Weekdays.contains_everyDay first last
  have working := Weekdays.contains_workdays first last
  rw [chosenWeekdays, free]
  cases d.recurrence with
  | daily => simpa [Recurrence.implied?] using usual
  | workdays => simpa [Recurrence.implied?] using working
  | custom => simpa [Recurrence.implied?] using usual

theorem describes_scene : d.Describes fresh now (d.scene fresh now) where
  id := rfl
  name := rfl
  automatic := rfl
  armed := rfl
  logic := rfl
  window := rfl
  recurrence := rfl
  chosen w own := by
    show d.chosenWeekdays = w
    rw [chosenWeekdays, own]
    rfl
  usual free _ first last := d.contains_chosenWeekdays free first last
  conditions := rfl
  actions := rfl
  createdAt := rfl
  deletedAt := rfl

theorem Describes.unique {d : Draft} {fresh : SceneId} {now : Instant} {s t : Scene}
    (h : d.Describes fresh now s) (also : d.Describes fresh now t) : s = t := by
  have weekdays : s.weekdays = t.weekdays := by
    cases own : d.weekdays with
    | some w => rw [h.chosen w own, also.chosen w own]
    | none =>
      refine Weekdays.eq_of_contains fun day first last => ?_
      rw [h.usual own day first last, also.usual own day first last]
  obtain ⟨id, name, automatic, armed, logic, window, recurrence, -, -, conditions, actions, made,
    gone⟩ := h
  obtain ⟨id', name', automatic', armed', logic', window', recurrence', -, -, conditions', actions',
    made', gone'⟩ := also
  cases s
  cases t
  simp_all

theorem build_ok_iff (s : Scene) :
    d.build fresh now = .ok s ↔ d.Describes fresh now s ∧ s.Valid := by
  have described := d.describes_scene fresh now
  rw [build]
  cases checked : (d.scene fresh now).validate with
  | ok =>
    have valid := (validate_ok_iff _).mp checked
    constructor
    · rintro ⟨⟩
      exact ⟨described, valid⟩
    · rintro ⟨own, -⟩
      rw [described.unique own]
      rfl
  | error cause =>
    refine iff_of_false (fun built => nomatch built) fun ⟨own, valid⟩ => ?_
    rw [← described.unique own, ← validate_ok_iff, checked] at valid
    cases valid

/-- Weekdays that are left out fit the recurrence. -/
theorem build_ne_repeatMismatch (free : d.weekdays = none) (kind days : String) :
    d.build fresh now ≠ .error (.repeatMismatch kind days) := by
  intro refused
  rw [build] at refused
  cases checked : (d.scene fresh now).validate with
  | ok => rw [checked] at refused; cases refused
  | error cause =>
    rw [checked] at refused
    cases refused
    obtain ⟨misfit, -⟩ := breaks_of_validate _ checked
    refine misfit (Recurrence.fits_iff.mpr fun expected implied => ?_)
    have implied : d.recurrence.implied? = some expected := implied
    show d.chosenWeekdays = expected
    rw [chosenWeekdays, free, implied]
    rfl

end Draft

/-- A scene passes its checks if, and only if, it keeps all the rules; the cause given otherwise
names a rule it breaks. The order of conditions and actions does not count, nor whether it is armed
or deleted or when it was made. What a draft describes is one scene, and it is built if, and only
if, it keeps the rules; weekdays that are left out never misfit the recurrence. -/
theorem validation_exact :
    (∀ s : Scene, (s.validate = .ok () ↔ s.Valid) ∧
      ∀ cause, s.validate = .error cause → s.Breaks cause) ∧
    (∀ (s : Scene) (conditions : List Condition) (actions : List Action) (armed : Bool)
        (createdAt : Instant) (deletedAt : Option Instant),
      conditions.Perm s.conditions → actions.Perm s.actions →
        (validate { s with
          conditions := conditions
          actions := actions
          armed := armed
          createdAt := createdAt
          deletedAt := deletedAt } = .ok () ↔ s.validate = .ok ())) ∧
    ∀ (d : Draft) (fresh : SceneId) (now : Instant),
      (∃! s, d.Describes fresh now s) ∧
      (∀ s, d.build fresh now = .ok s ↔ d.Describes fresh now s ∧ s.Valid) ∧
      (d.weekdays = none → ∀ kind days, d.build fresh now ≠ .error (.repeatMismatch kind days)) := by
  refine ⟨fun s => ⟨s.validate_ok_iff, fun cause => s.breaks_of_validate⟩, ?_,
    fun d fresh now => ⟨?_, d.build_ok_iff fresh now, d.build_ne_repeatMismatch fresh now⟩⟩
  · intro s conditions actions armed createdAt deletedAt again also
    rw [validate_ok_iff, validate_ok_iff]
    exact valid_rearranged_iff again also armed createdAt deletedAt
  · exact ⟨_, d.describes_scene fresh now, fun s own => own.unique (d.describes_scene fresh now)⟩

def waking : Draft where
  name := some " Waking "
  automatic := true
  logic := .any
  recurrence := .workdays
  conditions :=
    [⟨.ofNat 1, .timing (Instant.ofMicros 21600000000).time⟩,
      ⟨.ofNat 2, .timing (Instant.ofMicros 25200000000).time⟩]
  actions :=
    [⟨.ofNat 3, 0, .enable ⟨.ofNat 4⟩⟩,
      ⟨.ofNat 5, 0, .control ⟨.ofNat 6⟩ [⟨⟨1, "on"⟩, .bool true⟩]⟩]

theorem validate_waking : (waking.scene ⟨.ofNat 7⟩ (.ofMicros 0)).validate = .ok () := by
  have name : Text.trim " Waking ".toList = ['W', 'a', 'k', 'i', 'n', 'g'] := by rfl
  have named : (waking.scene ⟨.ofNat 7⟩ (.ofMicros 0)).checkName = .ok () := by
    simp only [checkName, Draft.scene, waking, Option.getD_some, name]
    rfl
  rw [validate, named]
  rfl

/-- The waking scene is built for Monday to Friday, and stays valid when it is turned around,
disarmed and deleted. -/
theorem validation_exact_waking : waking.weekdays = none ∧
    (∀ kind days, waking.build ⟨.ofNat 7⟩ (.ofMicros 0) ≠ .error (.repeatMismatch kind days)) ∧
    ∃ s, waking.build ⟨.ofNat 7⟩ (.ofMicros 0) = .ok s ∧ s.Valid ∧
      s.weekdays.contains 5 = true ∧ s.weekdays.contains 6 = false ∧
      validate { s with
        conditions := s.conditions.reverse
        actions := s.actions.reverse
        armed := false
        createdAt := .ofMicros 1
        deletedAt := some (.ofMicros 1) } = .ok () := by
  obtain ⟨judged, turned, drafts⟩ := validation_exact
  obtain ⟨⟨s, described, -⟩, built, fits⟩ := drafts waking ⟨.ofNat 7⟩ (.ofMicros 0)
  obtain rfl := described.unique (waking.describes_scene ⟨.ofNat 7⟩ (.ofMicros 0))
  have valid := (judged _).1.mp validate_waking
  exact ⟨rfl, fits rfl, _, (built _).mpr ⟨described, valid⟩, valid, rfl, rfl,
    (turned _ _ _ _ _ _ (List.reverse_perm _) (List.reverse_perm _)).mpr validate_waking⟩

end HomeScenes.Scene
