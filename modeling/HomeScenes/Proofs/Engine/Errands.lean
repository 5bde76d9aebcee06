import HomeScenes.Engine.Run
import HomeScenes.Proofs.DueQueue.Operations

/-!
# Errands

What the engine queues, before it has a number. Whatever the engine schedules comes down
to a list of errands that are queued in order. The list depends on what is stored and on
the clock, and not on what is queued already.
-/

namespace HomeScenes

structure Errand where
  parent : Option Ticket
  due : Instant
  label : String
  duty : Duty
  target : Target

def Duty.timer? : Duty → Option SceneId
  | .fire scene _ true => some scene
  | _ => none

def Duty.arrangement? : Duty → Option LocalTime
  | .arrange time => some time
  | _ => none

theorem Duty.eq_arrange {d : Duty} {time : LocalTime} (h : d.arrangement? = some time) :
    d = .arrange time := by
  cases d <;> cases h
  rfl

namespace Errand

/-- A firing that no task has led to. -/
def Root (r : Errand) : Prop :=
  r.parent = none ∧ ∃ scene timed, r.duty = .fire scene [] timed

theorem Root.no_arrangement {r : Errand} (h : r.Root) : r.duty.arrangement? = none := by
  obtain ⟨-, scene, timed, duty⟩ := h
  rw [duty]
  rfl

def task (r : Errand) (id : Ticket) : EngineTask :=
  ⟨⟨id, r.parent, r.due, r.label⟩, r.duty, [r.target]⟩

/-- The tasks of some errands, numbered from a ticket on. -/
def tasks : Nat → List Errand → List EngineTask
  | _, [] => []
  | n, r :: rs => r.task n :: tasks (n + 1) rs

theorem mem_tasks {rs : List Errand} {n : Nat} {t : EngineTask} (h : t ∈ tasks n rs) :
    ∃ r ∈ rs, ∃ i : Nat, t = r.task i ∧ n ≤ i ∧ i < n + rs.length := by
  induction rs generalizing n with
  | nil => cases h
  | cons r rs ih =>
    rw [List.length_cons]
    rcases List.mem_cons.mp h with rfl | h
    · exact ⟨r, List.mem_cons_self, n, rfl, Nat.le_refl n, by omega⟩
    · obtain ⟨r', hr, i, ht, hlow, hhigh⟩ := ih h
      exact ⟨r', List.mem_cons_of_mem r hr, i, ht, by omega, by omega⟩

theorem exists_task {rs : List Errand} {r : Errand} (h : r ∈ rs) (n : Nat) :
    ∃ i, r.task i ∈ tasks n rs := by
  induction rs generalizing n with
  | nil => cases h
  | cons r' rs ih =>
    rcases List.mem_cons.mp h with rfl | h
    · exact ⟨n, List.mem_cons_self⟩
    · obtain ⟨i, hi⟩ := ih h (n + 1)
      exact ⟨i, List.mem_cons_of_mem _ hi⟩

/-- What is read off the tasks without their numbers can be read off the errands. -/
theorem filterMap_tasks {α : Type} {f : EngineTask → Option α} {g : Errand → Option α}
    (same : ∀ r i, f (r.task i) = g r) (n : Nat) (rs : List Errand) :
    (tasks n rs).filterMap f = rs.filterMap g := by
  induction rs generalizing n with
  | nil => rfl
  | cons r rs ih => simp only [tasks, List.filterMap_cons, same, ih]

end Errand

namespace Engine

/-- Queue one errand under the next number; a timer firing is also indexed. -/
def enqueue (e : Engine) (r : Errand) : Engine :=
  { e with
    server := e.server.push (r.task e.issued)
    pending := match r.duty.timer? with
      | some scene => e.pending.set scene (((e.pending.find? scene).getD []) ++ [e.issued])
      | none => e.pending
    issued := e.issued + 1 }

def enqueueAll (e : Engine) (rs : List Errand) : Engine :=
  rs.foldl enqueue e

theorem enqueueAll_append (e : Engine) (rs us : List Errand) :
    e.enqueueAll (rs ++ us) = (e.enqueueAll rs).enqueueAll us :=
  List.foldl_append

/-- What is kept by queueing one errand of a kind is kept by queueing several. -/
theorem enqueueAll_keeps {P : Engine → Prop} {may : Errand → Prop}
    (step : ∀ {e r}, may r → P e → P (enqueue e r)) {e : Engine} {rs : List Errand} (h : P e)
    (all : ∀ r ∈ rs, may r) : P (e.enqueueAll rs) := by
  induction rs generalizing e with
  | nil => exact h
  | cons r rs ih =>
    exact ih (step (all r List.mem_cons_self) h) fun u hu => all u (List.mem_cons_of_mem r hu)

/-- Queueing changes the queue, the index and the number of tickets. -/
theorem enqueueAll_frame (e : Engine) (rs : List Errand) :
    e.enqueueAll rs =
      { e with
        server := (e.enqueueAll rs).server
        pending := (e.enqueueAll rs).pending
        issued := (e.enqueueAll rs).issued } := by
  induction rs generalizing e with
  | nil => rfl
  | cons r rs ih => exact ih (e.enqueue r)

variable (e : Engine) (rs : List Errand)

@[simp] theorem enqueueAll_settings : (e.enqueueAll rs).settings = e.settings := by
  rw [enqueueAll_frame]

@[simp] theorem enqueueAll_clock : (e.enqueueAll rs).clock = e.clock := by
  rw [enqueueAll_frame]

@[simp] theorem enqueueAll_scenes : (e.enqueueAll rs).scenes = e.scenes := by
  rw [enqueueAll_frame]

theorem tasks_enqueueAll : (e.enqueueAll rs).server.queue.tasks.Perm
    (e.server.queue.tasks ++ Errand.tasks e.issued rs) := by
  induction rs generalizing e with
  | nil => rw [Errand.tasks, List.append_nil]; rfl
  | cons r rs ih =>
    have head := DueQueue.tasks_push e.server.queue (r.task e.issued)
    exact (ih (e.enqueue r)).trans ((head.append_right _).trans List.perm_middle.symm)

variable {rs} in
/-- What is queued can be found in the queue. -/
theorem exists_queued {r : Errand} (h : r ∈ rs) :
    ∃ t ∈ (e.enqueueAll rs).server.queue.tasks, t.body = r.duty ∧ t.due = r.due := by
  obtain ⟨i, hi⟩ := Errand.exists_task h e.issued
  exact ⟨r.task i, (tasks_enqueueAll e rs).mem_iff.mpr (List.mem_append_right _ hi), rfl, rfl⟩

def firing (s : Scene) (due : Instant) (lineage : List SceneId) (timed : Bool)
    (parent : Option Ticket) : Errand :=
  ⟨parent, due, "scene " ++ Text.quoted s.name, .fire s.id lineage timed, s.target⟩

theorem pushFiring_eq (s : Scene) (due : Instant) (lineage : List SceneId) (timed : Bool)
    (parent : Option Ticket) :
    e.pushFiring s due lineage timed parent = e.enqueue (firing s due lineage timed parent) := by
  cases timed <;> cases parent <;> rfl

/-- The timer firings of a scene on a day that are not before an instant. -/
def timerFirings (day notBefore : LocalTime) (s : Scene) : List Errand :=
  (s.timings.filter fun time => ¬ day.onSameDay time < notBefore).map fun time =>
    firing s (day.onSameDay time).utc [] true none

/-- Going through a list, counting and queueing errands for each member. -/
theorem foldl_enqueueAll {α : Type} {f : Nat × Engine → α → Nat × Engine} {g : α → List Errand}
    (step : ∀ n e a, f (n, e) a = (n + (g a).length, e.enqueueAll (g a))) (as : List α) (n : Nat)
    (e : Engine) : as.foldl f (n, e) =
      (n + (as.flatMap g).length, e.enqueueAll (as.flatMap g)) := by
  induction as generalizing n e with
  | nil => rfl
  | cons a as ih =>
    rw [List.foldl_cons, step, ih, List.flatMap_cons, List.length_append, enqueueAll_append,
      Nat.add_assoc]

theorem timerFirings_eq (day notBefore : LocalTime) (s : Scene) :
    timerFirings day notBefore s = s.timings.flatMap fun time =>
      if day.onSameDay time < notBefore then []
      else [firing s (day.onSameDay time).utc [] true none] := by
  rw [timerFirings]
  induction s.timings with
  | nil => rfl
  | cons time times ih =>
    by_cases past : day.onSameDay time < notBefore
    · rw [List.filter_cons_of_neg (by simpa using past), ih, List.flatMap_cons, if_pos past]
      rfl
    · rw [List.filter_cons_of_pos (by simpa using past), List.map_cons, ih, List.flatMap_cons,
        if_neg past]
      rfl

theorem scheduleTimings_eq (s : Scene) (day notBefore : LocalTime) :
    e.scheduleTimings s day notBefore =
      ((timerFirings day notBefore s).length, e.enqueueAll (timerFirings day notBefore s)) := by
  rw [scheduleTimings, timerFirings_eq, foldl_enqueueAll ?_, Nat.zero_add]
  intro n e time
  dsimp only
  split
  · rfl
  · rw [pushFiring_eq]
    rfl

/-- The firings of a scene that is scheduled now. -/
def sceneFirings (settings : Settings) (clock : LocalTime) (s : Scene) : List Errand :=
  if !s.automatic then [firing s clock.utc [] false none]
  else if !s.armed then []
  else timerFirings clock clock s ++
    if clock.onSameDay settings.arrangeAt ≤ clock ∧ s.repeatsOn (clock.addDays 1).weekday then
      timerFirings (clock.addDays 1) clock s
    else []

/-- An automatic scene that is armed has its firings of today, and maybe those of tomorrow. -/
theorem sceneFirings_armed {settings : Settings} {clock : LocalTime} {s : Scene}
    (automatic : s.automatic = true) : sceneFirings settings clock { s with armed := true } =
      timerFirings clock clock s ++
        if clock.onSameDay settings.arrangeAt ≤ clock ∧ s.repeatsOn (clock.addDays 1).weekday then
          timerFirings (clock.addDays 1) clock s
        else [] := by
  rw [sceneFirings, if_neg (by simp [automatic]), if_neg (by simp)]
  rfl

theorem addScene_eq (s : Scene) : e.addScene s =
    ((sceneFirings e.settings e.clock s).length,
      e.enqueueAll (sceneFirings e.settings e.clock s)) := by
  rw [addScene, sceneFirings]
  by_cases automatic : s.automatic
  · by_cases armed : s.armed
    · simp only [automatic, armed, Bool.not_true, Bool.false_eq_true, if_false,
        scheduleTimings_eq, enqueueAll_settings]
      by_cases past : e.clock.onSameDay e.settings.arrangeAt ≤ e.clock
      · by_cases tomorrow : s.repeatsOn (e.clock.addDays 1).weekday
        · simp only [past, tomorrow, if_true, and_self, List.length_append, enqueueAll_append]
        · simp [past, tomorrow]
      · simp [past]
    · simp only [automatic, armed, Bool.not_true, Bool.false_eq_true, if_false, Bool.not_false,
        if_true]
      rfl
  · simp only [automatic, Bool.not_false, if_true, pushFiring_eq]
    rfl

/-- The timer firings on a day of all scenes that are live on its weekday. -/
def dayFirings (scenes : SceneStore) (clock day : LocalTime) : List Errand :=
  ((scenes.armedFor day.weekday).filter Scene.hasTiming).flatMap (timerFirings day clock)

theorem addForDay_eq (day : LocalTime) (working : e.outages.scenes = none) : e.addForDay day =
    (.ok (dayFirings e.scenes e.clock day).length,
      e.enqueueAll (dayFirings e.scenes e.clock day)) := by
  have all (scenes : List Scene) := foldl_enqueueAll
    (f := fun r s => (r.1 + (r.2.scheduleTimings s day e.clock).1,
      (r.2.scheduleTimings s day e.clock).2))
    (fun n e' s => by rw [scheduleTimings_eq]) scenes 0 e
  rw [addForDay, working, dayFirings]
  dsimp only
  rw [all, Nat.zero_add]

def arrangement (time : LocalTime) : Errand :=
  ⟨none, time.utc, arrangeLabel, .arrange time, .internal arrangeLabel⟩

theorem addArrangement_eq (time : LocalTime) :
    e.addArrangement time = e.enqueue (arrangement time) := rfl

theorem arrange_eq (time : LocalTime) (working : e.outages.scenes = none) : e.arrange time =
    (.ok (), e.enqueueAll (arrangement (time.addDays 1) ::
      dayFirings e.scenes e.clock (time.addDays 1))) := by
  have still : (e.enqueue (arrangement (time.addDays 1))).outages.scenes = none := working
  rw [arrange, addArrangement_eq, addForDay_eq _ _ still]
  rfl

theorem start_eq (working : e.outages.scenes = none) : e.start =
    (.ok (), e.enqueueAll (dayFirings e.scenes e.clock e.clock ++
      [arrangement (e.clock.onSameDay e.settings.arrangeAt)])) := by
  simp only [start, addForDay_eq _ _ working, enqueueAll_append, addArrangement_eq,
    enqueueAll_settings]
  rfl

def changeFirings (scenes : SceneStore) (now : Instant) (device : DeviceId) (attr : AttributeRef) :
    List Errand :=
  ((scenes.watching device attr).filter firesOnChange).map fun s => firing s now [] false none

theorem deviceChanged_eq (device : DeviceId) (attr : AttributeRef)
    (working : e.outages.scenes = none) : (e.deviceChanged device attr).2 =
      e.enqueueAll (changeFirings e.scenes e.now device attr) := by
  rw [deviceChanged, working, changeFirings, enqueueAll, List.foldl_map]
  simp only [pushFiring_eq]

/-- The task of an action of a firing that started at an instant, if its target is on record. -/
def errand? (e : Engine) (start : Instant) (lineage : List SceneId) (parent : Ticket) (a : Action) :
    Option Errand :=
  (e.resolveTarget? a).map fun target =>
    ⟨some parent, (start.shift? (min a.delayNanos Task.longestDelay)).getD start, a.kind.text,
      .act a.kind lineage, target⟩

theorem fanOut_eq (start : Instant) (lineage : List SceneId) (parent : Ticket)
    (actions : List Action) :
    fanOut start lineage parent actions e =
      e.enqueueAll (actions.filterMap (e.errand? start lineage parent)) := by
  rw [fanOut]
  induction actions generalizing e with
  | nil => rfl
  | cons a actions ih =>
    rw [List.foldl_cons, List.filterMap_cons, pushAction, errand?]
    cases found : e.resolveTarget? a with
    | none => exact ih e
    | some target =>
      rw [ih]
      rfl

theorem mem_timerFirings {day notBefore : LocalTime} {s : Scene} {r : Errand} :
    r ∈ timerFirings day notBefore s ↔ ∃ time ∈ s.timings, ¬ day.onSameDay time < notBefore ∧
      r = firing s (day.onSameDay time).utc [] true none := by
  simp only [timerFirings, List.mem_map, List.mem_filter, decide_eq_true_eq, and_assoc,
    eq_comm (a := r)]

theorem hasTiming_of_mem {s : Scene} {time : TimeOfDay} (h : time ∈ s.timings) :
    s.hasTiming = true := by
  obtain ⟨c, hc, timing⟩ := List.mem_filterMap.mp h
  exact List.any_eq_true.mpr ⟨c, hc, by rw [Condition.isTiming, timing]; rfl⟩

theorem root_firing (s : Scene) (due : Instant) (timed : Bool) :
    (firing s due [] timed none).Root :=
  ⟨rfl, s.id, timed, rfl⟩

theorem timerFirings_root {day notBefore : LocalTime} {s : Scene} :
    ∀ r ∈ timerFirings day notBefore s, r.Root := by
  intro r hr
  obtain ⟨time, -, -, rfl⟩ := mem_timerFirings.mp hr
  exact root_firing s _ true

theorem sceneFirings_root {settings : Settings} {clock : LocalTime} {s : Scene} :
    ∀ r ∈ sceneFirings settings clock s, r.Root := by
  intro r hr
  rw [sceneFirings] at hr
  split at hr
  · rw [List.mem_singleton.mp hr]
    exact root_firing s _ false
  · split at hr
    · cases hr
    · rcases List.mem_append.mp hr with hr | hr
      · exact timerFirings_root r hr
      · split at hr
        · exact timerFirings_root r hr
        · cases hr

theorem dayFirings_root {scenes : SceneStore} {clock day : LocalTime} :
    ∀ r ∈ dayFirings scenes clock day, r.Root := by
  intro r hr
  obtain ⟨s, -, hr⟩ := List.mem_flatMap.mp hr
  exact timerFirings_root r hr

theorem changeFirings_root {scenes : SceneStore} {now : Instant} {device : DeviceId}
    {attr : AttributeRef} : ∀ r ∈ changeFirings scenes now device attr, r.Root := by
  intro r hr
  obtain ⟨s, -, rfl⟩ := List.mem_map.mp hr
  exact root_firing s now false

end Engine

end HomeScenes
