import HomeScenes.Proofs.Engine.Effects
import Mathlib.Data.List.Basic

/-!
# When a scene acts

Evaluating the conditions of a scene comes to a property of the scene, of the clock and of the
values that devices give when they are asked. A device that is not on record, fails, has no such
attribute or does not answer in time makes its condition false. It does not matter in which order
the conditions are looked at, nor what others do while a device keeps the evaluation waiting, as
long as the same conditions hold.
-/

namespace HomeScenes

def Logic.Met (holds : Condition → Prop) (cs : List Condition) : Logic → Prop
  | .all => ∀ c ∈ cs, holds c
  | .any => ∃ c ∈ cs, holds c

theorem Logic.met_perm {holds : Condition → Prop} {cs ds : List Condition} (perm : cs.Perm ds)
    (l : Logic) : l.Met holds cs ↔ l.Met holds ds := by
  cases l with
  | all => exact forall_congr' fun c => imp_congr_left perm.mem_iff
  | any => exact exists_congr fun c => and_congr_left' perm.mem_iff

theorem Logic.Met.mono {holds holds' : Condition → Prop} {cs : List Condition} {l : Logic}
    (met : l.Met holds cs) (more : ∀ c, holds c → holds' c) : l.Met holds' cs := by
  cases l with
  | all => exact fun c hc => more c (met c hc)
  | any =>
    obtain ⟨c, hc, ok⟩ := met
    exact ⟨c, hc, more c ok⟩

namespace Engine

variable {e r : Engine} {others : Engine → Engine → Prop} {timed yes : Bool}

/-- A device on record gives the value of an attribute when it is asked, and in time. -/
structure Gives (e : Engine) (device : DeviceId) (attr : AttributeRef) (value : AttributeValue) :
    Prop where
  working : e.outages.devices = none
  stored : ∃ d, e.devices.get? device false = some d
  live : e.network.get device attr = .answer (.ok (some value))

/-- A timing holds for the firing of a timer, and the status of a device if the value that the
device gives compares to the expected one. -/
def Holds (e : Engine) (timed : Bool) (c : Condition) : Prop :=
  match c.kind with
  | .timing _ => timed = true
  | .status device attr comparison expected =>
    ∃ actual, e.Gives device attr actual ∧ comparison.holds actual expected = true

/-- What an automatic scene needs to act. -/
structure Met (e : Engine) (timed : Bool) (s : Scene) : Prop where
  armed : s.armed = true
  weekday : s.repeatsOn e.clock.weekday = true
  window : s.window.contains e.clock.time = true
  all : s.logic = .all → ∀ c ∈ s.conditions, e.Holds timed c
  any : s.logic = .any → ∃ c ∈ s.conditions, e.Holds timed c

theorem replyHolds_iff {comparison : Comparison} {expected : AttributeValue}
    {reply : Except Failure (Option AttributeValue)} :
    replyHolds comparison expected reply = true ↔
      ∃ actual, reply = .ok (some actual) ∧ comparison.holds actual expected = true := by
  cases reply with
  | error failure => simp [replyHolds]
  | ok value => cases value <;> simp [replyHolds]

theorem readDevice_ok {device : DeviceId} {d : Device} : e.readDevice device false = .ok (some d) ↔
    e.outages.devices = none ∧ e.devices.get? device false = some d := by
  rw [readDevice]
  cases e.outages.devices with
  | some failure => simp
  | none => simp

/-- The device is asked before it can keep anybody waiting, so that what others do then does not
matter. -/
theorem statusHolds_ends {device : DeviceId} {attr : AttributeRef} {comparison : Comparison}
    {expected : AttributeValue}
    (h : (statusHolds device attr comparison expected).Ends others e yes r) : yes = true ↔
      ∃ actual, e.Gives device attr actual ∧ comparison.holds actual expected = true := by
  rw [statusHolds, Work.ends_look] at h
  split at h
  · rename_i d found
    obtain ⟨working, stored⟩ := readDevice_ok.mp found
    split at h
    · rename_i silent
      cases h with
      | pause change rest =>
        obtain ⟨rfl, -⟩ := Work.ends_done.mp rest
        constructor
        · rintro ⟨⟩
        · rintro ⟨actual, gives, -⟩
          rw [gives.live] at silent
          cases silent
    · rename_i reply answered
      obtain ⟨rfl, -⟩ := Work.ends_done.mp h
      rw [replyHolds_iff]
      constructor
      · rintro ⟨actual, rfl, holds⟩
        exact ⟨actual, ⟨working, ⟨d, stored⟩, answered⟩, holds⟩
      · rintro ⟨actual, gives, holds⟩
        rw [gives.live] at answered
        cases answered
        exact ⟨actual, rfl, holds⟩
  · rename_i unread
    obtain ⟨rfl, -⟩ := Work.ends_done.mp h
    constructor
    · rintro ⟨⟩
    · rintro ⟨actual, gives, -⟩
      obtain ⟨d, stored⟩ := gives.stored
      exact absurd (readDevice_ok.mpr ⟨gives.working, stored⟩) (unread d)

theorem conditionHolds_ends {c : Condition} (h : (conditionHolds timed c).Ends others e yes r) :
    yes = true ↔ e.Holds timed c := by
  obtain ⟨id, kind⟩ := c
  cases kind with
  | timing time =>
    obtain ⟨rfl, -⟩ := Work.ends_done.mp h
    exact Iff.rfl
  | status device attr comparison expected => exact statusHolds_ends h

/-- What holds depends on the records of devices and on the network. -/
theorem Holds.congr {c : Condition} (h : e.Holds timed c) (devices : r.devices = e.devices)
    (outages : r.outages = e.outages) (network : r.network = e.network) : r.Holds timed c := by
  obtain ⟨id, kind⟩ := c
  cases kind with
  | timing time => exact h
  | status device attr comparison expected =>
    obtain ⟨actual, ⟨working, stored, live⟩, compares⟩ := h
    refine ⟨actual, ⟨?_, ?_, ?_⟩, compares⟩
    · rwa [outages]
    · rwa [devices]
    · rwa [network]

/-- What holds for a firing that is not a timer's holds for the firing of a timer. -/
theorem Holds.by_timer {c : Condition} (h : e.Holds false c) : e.Holds true c := by
  obtain ⟨id, kind⟩ := c
  cases kind with
  | timing time => cases h
  | status device attr comparison expected => exact h

/-- Others leave it as it is whether conditions hold. -/
def Undisturbed (others : Engine → Engine → Prop) (timed : Bool) (cs : List Condition) : Prop :=
  ∀ e r, others e r → ∀ c ∈ cs, e.Holds timed c ↔ r.Holds timed c

theorem undisturbed_eq (timed : Bool) (cs : List Condition) : Undisturbed Eq timed cs := by
  rintro e r rfl c hc
  exact Iff.rfl

theorem Undisturbed.tail {c : Condition} {cs : List Condition}
    (still : Undisturbed others timed (c :: cs)) : Undisturbed others timed cs :=
  fun e r change d hd => still e r change d (List.mem_cons_of_mem c hd)

theorem Undisturbed.perm {cs ds : List Condition} (still : Undisturbed others timed ds)
    (perm : cs.Perm ds) : Undisturbed others timed cs :=
  fun e r change c hc => still e r change c (perm.mem_iff.mp hc)

/-- By the time when a condition has been looked at, the same conditions hold. -/
theorem Undisturbed.after {c : Condition} {cs : List Condition}
    (still : Undisturbed others timed cs) (h : (conditionHolds timed c).Ends others e yes r) :
    ∀ d ∈ cs, e.Holds timed d ↔ r.Holds timed d := by
  intro d hd
  have changes := h.by_others (conditionHolds_within timed c e)
  clear h
  induction changes with
  | refl => exact Iff.rfl
  | tail before change ih => exact ih.trans (still _ _ change d hd)

theorem allHold_ends {cs : List Condition} (still : Undisturbed others timed cs)
    (h : (allHold timed cs).Ends others e yes r) : yes = true ↔ ∀ c ∈ cs, e.Holds timed c := by
  induction cs generalizing e with
  | nil =>
    obtain ⟨rfl, -⟩ := Work.ends_done.mp h
    simp
  | cons c cs ih =>
    obtain ⟨first, m, looked, rest⟩ := h.of_bind
    rw [List.forall_mem_cons, ← conditionHolds_ends looked]
    cases first with
    | true =>
      refine (ih still.tail rest).trans ?_
      simpa using forall₂_congr fun d hd => (still.tail.after looked d hd).symm
    | false =>
      obtain ⟨rfl, -⟩ := Work.ends_done.mp rest
      simp

theorem anyHolds_ends {cs : List Condition} (still : Undisturbed others timed cs)
    (h : (anyHolds timed cs).Ends others e yes r) : yes = true ↔ ∃ c ∈ cs, e.Holds timed c := by
  induction cs generalizing e with
  | nil =>
    obtain ⟨rfl, -⟩ := Work.ends_done.mp h
    simp
  | cons c cs ih =>
    obtain ⟨first, m, looked, rest⟩ := h.of_bind
    rw [List.exists_mem_cons_iff, ← conditionHolds_ends looked]
    cases first with
    | true =>
      obtain ⟨rfl, -⟩ := Work.ends_done.mp rest
      simp
    | false =>
      refine (ih still.tail rest).trans ?_
      simpa using exists_congr fun d =>
        and_congr_right fun hd => (still.tail.after looked d hd).symm

/-- A scene should act when it is armed, on one of its weekdays, within its window, and when its
conditions are met by its logic. -/
def ShouldAct (e : Engine) (s : Scene) (now : LocalTime) (timed : Bool) : Prop :=
  s.armed = true ∧ s.repeatsOn now.weekday = true ∧ s.window.contains now.time = true ∧
    s.logic.Met (e.Holds timed) s.conditions

theorem shouldAct_perm {s : Scene} {now : LocalTime} {cs : List Condition}
    (perm : cs.Perm s.conditions) :
    e.ShouldAct { s with conditions := cs } now timed ↔ e.ShouldAct s now timed :=
  and_congr_right' (and_congr_right' (and_congr_right' (s.logic.met_perm perm)))

theorem ShouldAct.by_timer {s : Scene} {now : LocalTime} (h : e.ShouldAct s now false) :
    e.ShouldAct s now true :=
  ⟨h.1, h.2.1, h.2.2.1, h.2.2.2.mono fun _ => Holds.by_timer⟩

theorem satisfied_ends {s : Scene} {now : LocalTime} (still : Undisturbed others timed s.conditions)
    (h : (satisfied s now timed).Ends others e yes r) : yes = true ↔ e.ShouldAct s now timed := by
  rw [satisfied] at h
  rw [ShouldAct, ← and_assoc (a := s.repeatsOn now.weekday = true), ← Bool.and_eq_true,
    ← Scene.inEffect]
  cases armed : s.armed with
  | false =>
    rw [armed] at h
    obtain ⟨rfl, -⟩ := Work.ends_done.mp h
    simp
  | true =>
    cases here : s.inEffect now with
    | false =>
      rw [armed, here] at h
      obtain ⟨rfl, -⟩ := Work.ends_done.mp h
      simp
    | true =>
      rw [armed, here] at h
      cases logic : s.logic with
      | all =>
        rw [logic] at h
        simpa [Logic.Met] using allHold_ends still h
      | any =>
        rw [logic] at h
        simpa [Logic.Met] using anyHolds_ends still h

theorem satisfied_run {s : Scene} {now : LocalTime} :
    ((satisfied s now timed).run e).1 = true ↔ e.ShouldAct s now timed :=
  satisfied_ends (undisturbed_eq timed s.conditions) (Work.ends_run _ e)

theorem met_iff {s : Scene} : e.Met timed s ↔ e.ShouldAct s e.clock timed := by
  constructor
  · rintro ⟨armed, weekday, window, all, any⟩
    refine ⟨armed, weekday, window, ?_⟩
    cases logic : s.logic with
    | all => exact all logic
    | any => exact any logic
  · rintro ⟨armed, weekday, window, met⟩
    refine ⟨armed, weekday, window, fun logic => ?_, fun logic => ?_⟩
    · rwa [logic] at met
    · rwa [logic] at met

theorem acts_iff {s : Scene} {timed : Bool} :
    ((acts s timed).run e).1 = true ↔ (s.automatic = true → e.Met timed s) := by
  rw [acts]
  by_cases automatic : s.automatic = true
  · rw [if_pos automatic, met_iff]
    exact satisfied_run.trans ⟨fun met _ => met, fun met => met automatic⟩
  · rw [if_neg automatic]
    exact ⟨fun _ own => absurd own automatic, fun _ => rfl⟩

/-- Evaluating a scene answers whether it should act. The order of its conditions does not matter,
nothing is changed, and a scene that acts without a timer acts for a timer too. When others change
the engine while a device keeps the evaluation waiting, the answer is the same, as long as they
leave it as it is whether the conditions of the scene hold. -/
theorem evaluation_follows_rule (e : Engine) (s : Scene) (now : LocalTime) (timed : Bool) :
    (((satisfied s now timed).run e).1 = true ↔ e.ShouldAct s now timed) ∧
    (∀ cs, cs.Perm s.conditions → ((satisfied { s with conditions := cs } now timed).run e).1 =
      ((satisfied s now timed).run e).1) ∧
    ((satisfied s now timed).run e).2 = e ∧
    (((satisfied s now false).run e).1 = true → ((satisfied s now true).run e).1 = true) ∧
    ∀ others, Undisturbed others timed s.conditions → ∀ cs, cs.Perm s.conditions → ∀ yes r,
      (satisfied { s with conditions := cs } now timed).Ends others e yes r →
        (yes = true ↔ e.ShouldAct s now timed) ∧ Relation.ReflTransGen others e r := by
  refine ⟨satisfied_run, ?_, ?_, ?_, ?_⟩
  · intro cs perm
    exact Bool.eq_iff_iff.mpr
      (satisfied_run.trans ((shouldAct_perm perm).trans satisfied_run.symm))
  · exact Work.Quiet.of_within (satisfied_within s now timed) e
  · exact fun answer => satisfied_run.mpr (satisfied_run.mp answer).by_timer
  · intro others still cs perm yes r ends
    exact ⟨(satisfied_ends (still.perm perm) ends).trans (shouldAct_perm perm),
      ends.by_others (satisfied_within _ now timed e)⟩

/-- One condition asks a lamp that is on, one a device that never answers, and one is a timing. The
scene acts as well if the silent device is asked first and the clock goes on in the meantime. -/
theorem evaluation_past_stalled_device :
    let stuck : DeviceId := ⟨.ofNat 1⟩
    let lamp : DeviceId := ⟨.ofNat 2⟩
    let on : AttributeRef := ⟨0, "on"⟩
    let status (n : Nat) (device : DeviceId) : Condition :=
      ⟨.ofNat n, .status device on .equal (.bool true)⟩
    let timing : Condition := ⟨.ofNat 3, .timing .midnight⟩
    let s : Scene := { (default : Scene) with
      armed := true, logic := .any, weekdays := .everyDay, window := .allDay
      conditions := [status 1 lamp, status 2 stuck, timing] }
    let record (device : DeviceId) : DeviceId × Device :=
      (device, { (default : Device) with id := device })
    let network : Network := { (default : Network) with
      stalled := [stuck], passive := ⟨[(lamp, ⟨⟨[(on, .bool true)]⟩, false⟩)]⟩ }
    let e := ofParts {} ⟨⟨0, .midnight⟩, 0⟩ {} ⟨⟨[record stuck, record lamp]⟩⟩ network default
    let swapped := [status 2 stuck, status 1 lamp, timing]
    let goesOn (e r : Engine) : Prop := ∃ clock, r = { e with clock := clock }
    e.ShouldAct s e.clock false ∧ ((satisfied s e.clock true).run e).1 = true ∧
      ((satisfied { s with conditions := swapped } e.clock false).run e).1 = true ∧
      ∀ yes r, (satisfied { s with conditions := swapped } e.clock false).Ends goesOn e yes r →
        yes = true := by
  intro stuck lamp on status timing s record network e swapped goesOn
  have perm : swapped.Perm s.conditions := .swap ..
  have acts : ((satisfied s e.clock false).run e).1 = true := by decide +kernel
  have still : Undisturbed goesOn false s.conditions := by
    rintro e r ⟨clock, rfl⟩ c -
    exact ⟨fun h => h.congr rfl rfl rfl, fun h => h.congr rfl rfl rfl⟩
  obtain ⟨rule, order, -, timed, ends⟩ := evaluation_follows_rule e s e.clock false
  exact ⟨rule.mp acts, timed acts, (order swapped perm).trans acts,
    fun yes r ended => (ends goesOn still swapped perm yes r ended).1.mpr (rule.mp acts)⟩

end Engine

end HomeScenes
