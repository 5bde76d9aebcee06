import HomeScenes.Scene
import HomeScenes.Proofs.Text.Trimmed
import HomeScenes.Proofs.Weekdays

/-!
# Valid scenes

A scene passes its checks if, and only if, it keeps all the rules, and the cause that is given
otherwise names a rule that it breaks. Which of several broken rules is named is not told here. The
order of conditions and actions does not count, nor whether the scene is armed or deleted and when it
was made.
-/

namespace HomeScenes

/-- A check passes only what is good, and gives a bad cause otherwise. -/
def Judges (good : Prop) (bad : Invalid → Prop) : Except Invalid Unit → Prop
  | .ok _ => good
  | .error cause => bad cause

namespace Judges

variable {good better : Prop} {bad : Invalid → Prop} {check next : Except Invalid Unit}
  {cause : Invalid}

/-- A check that refuses what meets a condition, and goes on with the rest. -/
theorem guard {c : Prop} [Decidable c] (refused : c → bad cause)
    (rest : ¬ c → Judges good bad next) : Judges good bad (if c then .error cause else next) := by
  split
  next h => exact refused h
  next h => exact rest h

theorem bind (first : Judges good bad check) (second : Judges better bad next) :
    Judges (good ∧ better) bad (check >>= fun _ => next) := by
  cases check with
  | error cause => exact first
  | ok =>
    cases next with
    | error cause => exact second
    | ok => exact ⟨first, second⟩

theorem forM {α : Type} {good : α → Prop} {check : α → Except Invalid Unit} {as : List α}
    (each : ∀ a ∈ as, Judges (good a) bad (check a)) :
    Judges (∀ a ∈ as, good a) bad (as.forM check) := by
  induction as with
  | nil => exact fun a listed => absurd listed List.not_mem_nil
  | cons a as ih =>
    have both : Judges (good a ∧ ∀ a ∈ as, good a) bad (check a >>= fun _ => as.forM check) :=
      (each a List.mem_cons_self).bind (ih fun a listed => each a (List.mem_cons_of_mem _ listed))
    rw [← List.forall_mem_cons] at both
    exact both

theorem ok_iff (h : Judges good bad check) (apart : good → ∀ cause, ¬ bad cause) :
    check = .ok () ↔ good := by
  cases check with
  | error cause => exact iff_of_false (fun passed => nomatch passed) fun fine => apart fine cause h
  | ok => exact iff_of_true rfl h

end Judges

/-- The weekdays are those that the recurrence stands for; any weekdays fit a custom one. -/
def Recurrence.Fits : Recurrence → Weekdays → Prop
  | daily, w => ∀ day, 1 ≤ day → day ≤ 7 → w.contains day = true
  | workdays, w => ∀ day, 1 ≤ day → day ≤ 7 → (w.contains day = true ↔ day ≤ 5)
  | custom, _ => True

theorem Recurrence.fits_iff {r : Recurrence} {w : Weekdays} :
    r.Fits w ↔ ∀ expected, r.implied? = some expected → w = expected := by
  cases r with
  | custom => exact iff_of_true trivial fun _ implied => nomatch implied
  | daily =>
    constructor
    · rintro fits _ ⟨⟩
      refine Weekdays.eq_of_contains fun day first last => ?_
      rw [fits day first last, Weekdays.contains_everyDay first last]
    · intro same day first last
      rw [same .everyDay rfl, Weekdays.contains_everyDay first last]
  | workdays =>
    constructor
    · rintro fits _ ⟨⟩
      refine Weekdays.eq_of_contains fun day first last => ?_
      rw [Weekdays.contains_workdays first last, Bool.eq_iff_iff, fits day first last,
        decide_eq_true_iff]
    · intro same day first last
      rw [same .workdays rfl, Weekdays.contains_workdays first last, decide_eq_true_iff]

namespace Scene

section Conditions

variable {s : Scene} {device : DeviceId} {attr : AttributeRef}

theorem hasTiming_iff : s.hasTiming = true ↔ ∃ c ∈ s.conditions, ∃ time, c.kind = .timing time := by
  rw [hasTiming, List.any_eq_true]
  refine exists_congr fun c => and_congr_right fun _ => ?_
  rw [Condition.isTiming, Condition.timing?]
  cases c.kind <;> simp

theorem watches_iff : s.watches device attr = true ↔ ∃ c ∈ s.conditions,
    ∃ comparison expected, c.kind = .status device attr comparison expected := by
  rw [watches, List.any_eq_true]
  refine exists_congr fun c => and_congr_right fun _ => ?_
  rw [Condition.watches]
  cases c.kind with
  | timing time => simp
  | status d a comparison expected =>
    rw [Bool.and_eq_true, decide_eq_true_iff, decide_eq_true_iff]
    constructor
    · rintro ⟨rfl, rfl⟩
      exact ⟨comparison, expected, rfl⟩
    · rintro ⟨_, _, same⟩
      cases same
      exact ⟨rfl, rfl⟩

end Conditions

/-- The rules that a scene has to keep. -/
structure Valid (s : Scene) : Prop where
  name : ∃ core, Text.Trimmed s.name.toList core ∧ 1 ≤ core.length ∧ core.length ≤ 40
  manual : s.automatic = false → s.conditions = []
  automatic : s.automatic = true → s.conditions ≠ []
  timings : s.automatic = true → s.logic = .all → s.conditions.countP Condition.isTiming ≤ 1
  actions : s.actions ≠ []
  commands : ∀ a ∈ s.actions, ∀ device commands, a.kind = .control device commands → commands ≠ []
  others : ∀ a ∈ s.actions, a.kind ≠ .run s.id ∧ a.kind ≠ .enable s.id ∧ a.kind ≠ .disable s.id
  weekdays : s.recurrence.Fits s.weekdays
  window : ∀ start stop, s.window = .between start stop → start ≠ stop

/-- The scene breaks the rule that a cause names. -/
def Breaks (s : Scene) : Invalid → Prop
  | .emptyName => Text.Trimmed s.name.toList []
  | .nameTooLong max => max = 40 ∧ ∃ core, Text.Trimmed s.name.toList core ∧ max < core.length
  | .conditionsOnManualScene => s.automatic = false ∧ s.conditions ≠ []
  | .noConditions => s.automatic = true ∧ s.conditions = []
  | .manyTimings =>
    s.automatic = true ∧ s.logic = .all ∧ 1 < s.conditions.countP Condition.isTiming
  | .noActions => s.actions = []
  | .emptyCommands => ∃ a ∈ s.actions, ∃ device, a.kind = .control device []
  | .selfTarget =>
    ∃ a ∈ s.actions, a.kind = .run s.id ∨ a.kind = .enable s.id ∨ a.kind = .disable s.id
  | .repeatMismatch kind days =>
    ¬ s.recurrence.Fits s.weekdays ∧ kind = s.recurrence.text ∧ days = s.weekdays.text
  | .emptyWindow => ∃ time, s.window = .between time time
  | .repeatDays _ => False

theorem Valid.not_breaks {s : Scene} (h : s.Valid) (cause : Invalid) : ¬ s.Breaks cause := by
  obtain ⟨core, trimmed, any, short⟩ := h.name
  cases cause with
  | emptyName =>
    intro empty
    rw [trimmed.eq_trim, ← Text.Trimmed.eq_trim empty] at any
    exact absurd any (by decide)
  | nameTooLong max =>
    rintro ⟨rfl, other, same, long⟩
    rw [same.eq_trim, ← trimmed.eq_trim] at long
    omega
  | conditionsOnManualScene => exact fun ⟨manual, any⟩ => any (h.manual manual)
  | noConditions => exact fun ⟨automatic, empty⟩ => h.automatic automatic empty
  | manyTimings => exact fun ⟨automatic, all, many⟩ => absurd (h.timings automatic all) (by omega)
  | noActions => exact h.actions
  | emptyCommands => exact fun ⟨a, listed, device, kind⟩ => h.commands a listed device [] kind rfl
  | selfTarget =>
    rintro ⟨a, listed, own⟩
    obtain ⟨run, enable, disable⟩ := h.others a listed
    exact own.elim run fun own => own.elim enable disable
  | repeatMismatch kind days => exact fun broken => broken.1 h.weekdays
  | emptyWindow => exact fun ⟨time, empty⟩ => h.window time time empty rfl
  | repeatDays text => exact fun broken => broken

section Checks

variable (s : Scene)

theorem judges_name : Judges
    (∃ core, Text.Trimmed s.name.toList core ∧ 1 ≤ core.length ∧ core.length ≤ 40) s.Breaks
    s.checkName := by
  have trimmed := Text.trimmed_trim s.name.toList
  refine .guard (fun empty => ?_) fun any => .guard (fun long => ?_) fun short => ?_
  · rw [List.isEmpty_iff] at empty
    show Text.Trimmed s.name.toList []
    rw [← empty]
    exact trimmed
  · exact ⟨rfl, _, trimmed, long⟩
  · rw [List.isEmpty_iff, ← List.length_eq_zero_iff] at any
    exact ⟨_, trimmed, by omega, Nat.le_of_not_lt short⟩

theorem length_timings : s.timings.length = s.conditions.countP Condition.isTiming :=
  List.length_filterMap_eq_countP

theorem judges_conditions : Judges
    ((s.automatic = false → s.conditions = []) ∧ (s.automatic = true → s.conditions ≠ []) ∧
      (s.automatic = true → s.logic = .all → s.conditions.countP Condition.isTiming ≤ 1)) s.Breaks
    s.checkConditions := by
  rw [checkConditions, length_timings]
  split
  next automatic =>
    refine .guard (fun empty => ⟨automatic, List.isEmpty_iff.mp empty⟩) fun any =>
      .guard (fun many => ⟨automatic, many⟩) fun few => ⟨fun manual => ?_, fun _ => ?_, ?_⟩
    · rw [automatic] at manual
      cases manual
    · rwa [List.isEmpty_iff] at any
    · exact fun _ all => Nat.le_of_not_lt fun many => few ⟨all, many⟩
  next manual =>
    split
    next empty =>
      exact ⟨fun _ => List.isEmpty_iff.mp empty, fun own => absurd own manual,
        fun own => absurd own manual⟩
    next any =>
      refine ⟨Bool.eq_false_iff.mpr manual, ?_⟩
      rwa [List.isEmpty_iff] at any

/-- An action has commands to send, and does not act upon the scene itself. -/
def Performs (a : Action) : Prop :=
  (∀ device commands, a.kind = .control device commands → commands ≠ []) ∧
    a.kind ≠ .run s.id ∧ a.kind ≠ .enable s.id ∧ a.kind ≠ .disable s.id

theorem judges_action {a : Action} (listed : a ∈ s.actions) :
    Judges (s.Performs a) s.Breaks (s.checkAction a) := by
  rw [checkAction]
  cases kind : a.kind with
  | control device commands =>
    refine .guard (fun empty => ⟨a, listed, device, ?_⟩) fun any => ?_
    · rw [kind, List.isEmpty_iff.mp empty]
    · rw [List.isEmpty_iff] at any
      simpa [Judges, Performs, kind] using any
  | run target =>
    refine .guard (fun own => ⟨a, listed, .inl (own ▸ kind)⟩) fun other => ?_
    simpa [Judges, Performs, kind] using other
  | enable target =>
    refine .guard (fun own => ⟨a, listed, .inr (.inl (own ▸ kind))⟩) fun other => ?_
    simpa [Judges, Performs, kind] using other
  | disable target =>
    refine .guard (fun own => ⟨a, listed, .inr (.inr (own ▸ kind))⟩) fun other => ?_
    simpa [Judges, Performs, kind] using other

theorem judges_actions : Judges (s.actions ≠ [] ∧ ∀ a ∈ s.actions, s.Performs a) s.Breaks
    s.checkActions := by
  refine .guard (fun empty => List.isEmpty_iff.mp empty) fun any => ?_
  rw [List.isEmpty_iff] at any
  have each : Judges (∀ a ∈ s.actions, s.Performs a) s.Breaks (s.actions.forM s.checkAction) :=
    .forM fun a listed => s.judges_action listed
  cases checked : s.actions.forM s.checkAction with
  | error cause =>
    rw [checked] at each
    exact each
  | ok =>
    rw [checked] at each
    exact ⟨any, each⟩

theorem judges_weekdays : Judges (s.recurrence.Fits s.weekdays) s.Breaks
    (s.recurrence.check s.weekdays) := by
  rw [Recurrence.check]
  have fits := Recurrence.fits_iff (r := s.recurrence) (w := s.weekdays)
  split
  next implied => exact fits.mpr fun expected other => nomatch implied.symm.trans other
  next expected implied =>
    split
    next same =>
      refine fits.mpr fun other again => ?_
      rw [same, Option.some.inj (implied.symm.trans again)]
    next differ => exact ⟨fun own => differ (fits.mp own expected implied), rfl, rfl⟩

theorem judges_window : Judges (∀ start stop, s.window = .between start stop → start ≠ stop)
    s.Breaks s.window.validate := by
  cases window : s.window with
  | allDay => exact fun _ _ other => nomatch other
  | between start stop =>
    refine .guard (fun same => ⟨start, ?_⟩) fun differ => ?_
    · rw [window, same]
    · rintro _ _ ⟨⟩
      exact differ

theorem judges_validate : Judges s.Valid s.Breaks s.validate := by
  have all := s.judges_name.bind <| s.judges_conditions.bind <| s.judges_actions.bind <|
    s.judges_weekdays.bind s.judges_window
  change Judges _ _ s.validate at all
  cases checked : s.validate with
  | error cause =>
    rw [checked] at all
    exact all
  | ok =>
    rw [checked] at all
    obtain ⟨name, ⟨manual, automatic, timings⟩, ⟨actions, performs⟩, weekdays, window⟩ := all
    exact ⟨name, manual, automatic, timings, actions, fun a listed => (performs a listed).1,
      fun a listed => (performs a listed).2, weekdays, window⟩

theorem validate_ok_iff : s.validate = .ok () ↔ s.Valid :=
  s.judges_validate.ok_iff Valid.not_breaks

theorem breaks_of_validate {cause : Invalid} (refused : s.validate = .error cause) :
    s.Breaks cause := by
  have judged := s.judges_validate
  rw [refused] at judged
  exact judged

end Checks

section Rearranged

variable {s : Scene} {conditions : List Condition} {actions : List Action}

/-- A scene with its conditions and actions in another order and another state. -/
theorem Valid.rearranged (h : s.Valid) (again : conditions.Perm s.conditions)
    (also : actions.Perm s.actions) (armed : Bool) (createdAt : Instant)
    (deletedAt : Option Instant) :
    Valid { s with
      conditions := conditions
      actions := actions
      armed := armed
      createdAt := createdAt
      deletedAt := deletedAt } where
  name := h.name
  manual manual := by
    have empty := h.manual manual
    rw [empty] at again
    exact again.eq_nil
  automatic automatic empty := by
    have any := h.automatic automatic
    have empty : conditions = [] := empty
    rw [empty] at again
    exact any again.symm.eq_nil
  timings automatic all := (again.countP_eq _).trans_le (h.timings automatic all)
  actions empty := by
    have empty : actions = [] := empty
    rw [empty] at also
    exact h.actions also.symm.eq_nil
  commands a listed := h.commands a (also.mem_iff.mp listed)
  others a listed := h.others a (also.mem_iff.mp listed)
  weekdays := h.weekdays
  window := h.window

theorem valid_rearranged_iff (again : conditions.Perm s.conditions) (also : actions.Perm s.actions)
    (armed : Bool) (createdAt : Instant) (deletedAt : Option Instant) :
    Valid { s with
      conditions := conditions
      actions := actions
      armed := armed
      createdAt := createdAt
      deletedAt := deletedAt } ↔ s.Valid :=
  ⟨fun h => h.rearranged again.symm also.symm s.armed s.createdAt s.deletedAt,
    fun h => h.rearranged again also armed createdAt deletedAt⟩

end Rearranged

end Scene

end HomeScenes
