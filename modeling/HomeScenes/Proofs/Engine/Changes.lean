import HomeScenes.Proofs.Engine.FanOut
import HomeScenes.Proofs.Engine.Firing
import HomeScenes.Proofs.Engine.Junctures

/-!
# Changes of attributes

When an attribute of a device changes, each stored scene that may act on the change is fired once,
at the instant of the clock, and no other scene is. It does not matter in which order the store
gives the scenes, as the firings differ in their tickets only.

A scene whose conditions must all hold and of which one is a timing is passed over. Nothing is lost
by that: a firing of it that is not the timer's would only leave its marks in the journal. Nothing
is claimed about a scene that is stored in another form before the firing begins.
-/

namespace HomeScenes

namespace Scene

/-- All conditions of the scene have to hold, and one of them does for a timer only. -/
def WaitsForTimer (s : Scene) : Prop :=
  s.logic = .all ∧ ∃ c ∈ s.conditions, ∃ time, c.kind = .timing time

end Scene

namespace Engine

variable {e r : Engine} {s : Scene} {device : DeviceId} {attr : AttributeRef}

/-- A stored scene that may act on a change of an attribute. -/
structure Reacts (e : Engine) (device : DeviceId) (attr : AttributeRef) (s : Scene) : Prop where
  stored : e.scenes.scenes.find? s.id = some s
  automatic : s.automatic = true
  armed : s.armed = true
  kept : s.deletedAt = none
  watches : ∃ c ∈ s.conditions, ∃ comparison expected,
    c.kind = .status device attr comparison expected
  ready : ¬ s.WaitsForTimer

theorem firesOnChange_iff : firesOnChange s = true ↔ ¬ s.WaitsForTimer := by
  rw [Scene.WaitsForTimer, ← Scene.hasTiming_iff, firesOnChange]
  simp [imp_iff_not_or]

theorem mem_watching_iff (keyed : e.scenes.Keyed) :
    s ∈ (e.scenes.watching device attr).filter firesOnChange ↔ e.Reacts device attr s := by
  rw [List.mem_filter, SceneStore.watching, SceneStore.mem_live_iff_mayFire keyed,
    Scene.watches_iff, firesOnChange_iff]
  constructor
  · rintro ⟨⟨⟨stored, automatic, armed, kept⟩, watches⟩, ready⟩
    exact ⟨stored, automatic, armed, kept, watches, ready⟩
  · rintro ⟨stored, automatic, armed, kept, watches, ready⟩
    exact ⟨⟨⟨stored, automatic, armed, kept⟩, watches⟩, ready⟩

def fireFound (e : Engine) (found : List Scene) : Except Failure Nat × Engine :=
  (.ok (found.filter firesOnChange).length,
    (found.filter firesOnChange).foldl (fun r s => r.pushFiring s e.now [] false none) e)

theorem deviceChanged_of_working (working : e.outages.scenes = none) (device : DeviceId)
    (attr : AttributeRef) :
    e.deviceChanged device attr = e.fireFound (e.scenes.watching device attr) := by
  rw [deviceChanged, working, fireFound]

theorem deviceChanged_of_outage {failure : Failure} (outage : e.outages.scenes = some failure)
    (device : DeviceId) (attr : AttributeRef) :
    e.deviceChanged device attr = (.error failure, e) := by
  rw [deviceChanged, outage]

/-- A task fires a scene at once, without a timer, and no task has led to it. -/
structure FiresNow (e : Engine) (s : Scene) (t : EngineTask) : Prop where
  body : t.body = .fire s.id [] false
  due : t.due = e.now
  root : t.handle.parent = none
  label : t.handle.label = "scene " ++ Text.quoted s.name
  target : t.wrappers = [s.target]

/-- Each of some scenes was fired once, and their number is the answer. But for the queue and the
tickets that were given out, the engine is as it was. -/
structure FiredEach (e : Engine) (scenes : List Scene) (firings : List EngineTask)
    (answer : Except Failure Nat) (r : Engine) : Prop where
  count : answer = .ok scenes.length
  each : List.Forall₂ e.FiresNow scenes firings
  tickets : firings.map Task.id = List.range' e.issued firings.length
  queue : r.server.queue.tasks.Perm (e.server.queue.tasks ++ firings)
  pending : r.pending = e.pending
  rest : r = { e with server := r.server, issued := r.issued }

def firingsNow (e : Engine) (scenes : List Scene) : List Errand :=
  scenes.map fun s => firing s e.now [] false none

theorem fireFound_eq (e : Engine) (found : List Scene) : e.fireFound found =
    (.ok (found.filter firesOnChange).length,
      e.enqueueAll (e.firingsNow (found.filter firesOnChange))) := by
  simp only [fireFound, firingsNow, enqueueAll, List.foldl_map, pushFiring_eq]

theorem firesNow_tasks (e : Engine) (scenes : List Scene) (n : Nat) :
    List.Forall₂ e.FiresNow scenes (Errand.tasks n (e.firingsNow scenes)) := by
  induction scenes generalizing n with
  | nil => exact .nil
  | cons s scenes ih => exact .cons ⟨rfl, rfl, rfl, rfl, rfl⟩ (ih (n + 1))

theorem firedEach (e : Engine) (found : List Scene) : ∃ firings, e.FiredEach
    (found.filter firesOnChange) firings (e.fireFound found).1 (e.fireFound found).2 := by
  rw [fireFound_eq]
  have untimed : ∀ u ∈ e.firingsNow (found.filter firesOnChange), u.duty.timer? = none := by
    intro u hu
    obtain ⟨s, -, rfl⟩ := List.mem_map.mp hu
    rfl
  have pending := pending_enqueueAll (e := e) untimed
  have frame := enqueueAll_frame e (e.firingsNow (found.filter firesOnChange))
  rw [pending] at frame
  exact ⟨_, rfl, firesNow_tasks e _ _, tickets_tasks _ _, tasks_enqueueAll e _, pending, frame⟩

/-- One timing is enough for a firing without a timer to be turned down, whatever devices say. -/
theorem allHold_answers {cs : List Condition} {c : Condition} {time : TimeOfDay} (listed : c ∈ cs)
    (timing : c.kind = .timing time) : (allHold false cs).Answers (· = false) := by
  induction cs with
  | nil => cases listed
  | cons d cs ih =>
    rw [allHold]
    rcases List.mem_cons.mp listed with rfl | later
    · rw [conditionHolds, timing]
      rfl
    · refine (Work.answers_true _).bind fun b _ => ?_
      cases b with
      | true => exact ih later
      | false => rfl

theorem acts_answers (automatic : s.automatic = true) (waits : s.WaitsForTimer) :
    (acts s false).Answers (· = false) := by
  obtain ⟨all, c, listed, time, timing⟩ := waits
  rw [acts, if_pos automatic]
  intro e
  change (satisfied s e.clock false).Answers _
  rw [satisfied]
  split
  · rfl
  · split
    · rfl
    · rw [all]
      exact allHold_answers listed timing

/-- The firing of such a scene leaves the index, and that is all that it does. The scene is read
before any pause, so that it does not matter if it is stored in another form later. -/
theorem fire_rebooks (automatic : s.automatic = true) (waits : s.WaitsForTimer)
    (stored : e.scenes.scenes.find? s.id = some s) (h : Handle Ticket) (lineage : List SceneId) :
    (fire h s.id lineage false).Within Rebooked e := by
  refine ⟨rebooked_forgetPending e s.id h.id, ?_⟩
  cases loaded : (e.forgetPending s.id h.id).loadScene s.id with
  | error failure => trivial
  | ok s' =>
    obtain rfl : s' = s := by
      obtain ⟨-, found⟩ := loadScene_ok.mp loaded
      have here := (SceneStore.get?_live_iff.mp found).1
      rw [forgetPending_frame] at here
      exact Option.some.inj (here.symm.trans stored)
    refine (acts_within s' false _).bind_of (acts_answers automatic waits) ?_
    rintro _ rfl r
    trivial

theorem close_rebooks (e : Engine) (h : Handle Ticket) (result : TaskResult) :
    (close h result).Within Rebooked e :=
  ⟨⟨e.pending, _, _, recordResult_eq e h result⟩, trivial⟩

/-- A whole run of such a firing leaves the index and tells the journal, whatever devices answer and
whatever others do while they are asked. -/
theorem perform_rebooks (automatic : s.automatic = true) (waits : s.WaitsForTimer)
    (stored : e.scenes.scenes.find? s.id = some s) (due : Instant) (lineage : List SceneId)
    (parent : Option Ticket) (ticket : Ticket) :
    (perform ((firing s due lineage false parent).task ticket)).Within Rebooked e := by
  have wrapped : ((firing s due lineage false parent).task ticket).wrappers = [s.target] := rfl
  rw [perform_eq wrapped]
  refine ⟨rebooked_recordStart e _ s.target, ?_⟩
  refine (fire_rebooks automatic waits ?_ _ lineage).bind fun result r => close_rebooks r _ result
  rw [recordStart_eq]
  exact stored

/-- Wherever turns have led, a change of an attribute fires each scene that may act on it once, and
no other, in whatever order the store gives them. To fire a scene that waits for its timer as well
would only leave the index and tell the journal, as long as it is stored as it was. -/
theorem change_fires_reacting_scenes (settings : Settings) (clock : LocalTime)
    {scenes : SceneStore} (devices : DeviceStore) (network : Network) (journal : Journal Ticket)
    (reached : scenes.Reached) (turns : List Turn) (device : DeviceId) (attr : AttributeRef) :
    let e := (turns.foldl (Juncture.happen perform)
      (.fresh settings clock scenes devices network journal)).engine
    (∀ failure, e.outages.scenes = some failure →
      e.deviceChanged device attr = (.error failure, e)) ∧
    (e.outages.scenes = none →
      e.deviceChanged device attr = e.fireFound (e.scenes.watching device attr) ∧
      ∃ reacting firings, (reacting.map Scene.id).Nodup ∧
        (∀ s, s ∈ reacting ↔ e.Reacts device attr s) ∧
        e.FiredEach reacting firings (e.deviceChanged device attr).1
          (e.deviceChanged device attr).2 ∧
        ∀ found, found.Perm (e.scenes.watching device attr) → ∃ fired others,
          fired.Perm reacting ∧
            e.FiredEach fired others (e.fireFound found).1 (e.fireFound found).2) ∧
    ∀ s r, s.automatic = true → s.WaitsForTimer → r.scenes.scenes.find? s.id = some s →
      ∀ due lineage parent ticket,
        let t := (firing s due lineage false parent).task ticket
        (perform t).Within Rebooked r ∧ Rebooked r ((perform t).run r).2 := by
  intro e
  have keyed : e.scenes.Keyed :=
    (Juncture.sound_fresh settings clock scenes devices network journal).storing keyed_storing
      reached.keyed turns fun _ _ _ _ _ => trivial
  refine ⟨fun failure outage => deviceChanged_of_outage outage device attr, fun working => ?_, ?_⟩
  · have whole := deviceChanged_of_working working device attr
    obtain ⟨firings, fired⟩ := e.firedEach (e.scenes.watching device attr)
    have ids : (((e.scenes.watching device attr).filter firesOnChange).map Scene.id).Nodup :=
      (SceneStore.live_ids_nodup keyed _).sublist (List.filter_sublist.map Scene.id)
    rw [← whole] at fired
    refine ⟨whole, _, firings, ids, fun s => mem_watching_iff keyed, fired, fun found perm => ?_⟩
    obtain ⟨others, fired⟩ := e.firedEach found
    exact ⟨_, others, perm.filter _, fired⟩
  · intro s r automatic waits stored due lineage parent ticket
    have within := perform_rebooks automatic waits stored due lineage parent ticket
    exact ⟨within, within.run .refl fun _ _ _ => .trans⟩

/-- Two scenes watch a lamp, and one of them waits for midnight as well. -/
theorem change_fires_one_of_two :
    let lamp : DeviceId := ⟨.ofNat 9⟩
    let on : AttributeRef := ⟨0, "on"⟩
    let status : Condition := ⟨.ofNat 5, .status lamp on .equal (.bool true)⟩
    let timing : Condition := ⟨.ofNat 6, .timing .midnight⟩
    let a : Scene := { relay ⟨.ofNat 1⟩ ⟨.ofNat 3⟩ with
      automatic := true, armed := true, conditions := [status] }
    let b : Scene := { relay ⟨.ofNat 2⟩ ⟨.ofNat 3⟩ with
      automatic := true, armed := true, logic := .all, conditions := [status, timing] }
    let store : SceneStore := ⟨⟨[(a.id, a), (b.id, b)]⟩⟩
    let later : Instant := ⟨0, oclock 9⟩
    let e := ([Turn.event (.move (.advance later)) trivial].foldl (Juncture.happen perform)
      (.fresh {} ⟨⟨0, .midnight⟩, 0⟩ store {} default default)).engine
    ∃ reacting firings, a ∈ reacting ∧ b ∉ reacting ∧
      e.FiredEach reacting firings (e.deviceChanged lamp on).1 (e.deviceChanged lamp on).2 ∧
      (∃ fired others, fired.Perm reacting ∧
        e.FiredEach fired others (e.fireFound [b, a]).1 (e.fireFound [b, a]).2) ∧
      Rebooked e ((perform ((firing b later [] false none).task 7)).run e).2 := by
  intro lamp on status timing a b store later e
  have name : Text.trim "Relay".toList = ['R', 'e', 'l', 'a', 'y'] := by rfl
  have named (s : Scene) (own : s.name = "Relay") : s.checkName = .ok () := by
    simp only [Scene.checkName, own, name]
    rfl
  have valid : a.validate = .ok () ∧ b.validate = .ok () := by
    rw [Scene.validate, Scene.validate, named a rfl, named b rfl]
    exact ⟨rfl, rfl⟩
  have reached : store.Reached := (SceneStore.Reached.empty.save_valid valid.1).save_valid valid.2
  have swapped : [b, a].Perm (e.scenes.watching lamp on) :=
    (List.Perm.swap a b []).trans (List.mergeSort_perm [a, b] _).symm
  have reacts : e.Reacts lamp on a := by
    refine ⟨rfl, rfl, rfl, rfl, ⟨status, List.mem_singleton.mpr rfl, .equal, .bool true, rfl⟩, ?_⟩
    rintro ⟨all, -⟩
    cases all
  have waits : b.WaitsForTimer :=
    ⟨rfl, timing, List.mem_cons_of_mem _ (List.mem_singleton.mpr rfl), .midnight, rfl⟩
  obtain ⟨-, changes, idle⟩ := change_fires_reacting_scenes {} ⟨⟨0, .midnight⟩, 0⟩ {} default
    default reached [.event (.move (.advance later)) trivial] lamp on
  obtain ⟨-, reacting, firings, -, only, fired, anyOrder⟩ := changes rfl
  refine ⟨reacting, firings, (only a).mpr reacts, fun member => ((only b).mp member).ready waits,
    fired, anyOrder _ swapped, (idle b e rfl waits rfl later [] none 7).2⟩

end Engine

end HomeScenes
