import HomeScenes.Proofs.Engine.Dues
import HomeScenes.Proofs.Engine.Running

/-!
# Arming scenes again

Runs in which scenes are armed, disarmed and restarted while time passes and tasks are
handed out and run. The instants at which the firings of a scene are due only become fewer,
but for two kinds of moves: arming the scene puts new ones in their place, and the
arrangement adds those of its next day.
-/

namespace HomeScenes

namespace Moment

/-- Scenes are armed, disarmed and restarted, time passes, and tasks are handed out and run. -/
def Restarts (m : Moment) : Move → Prop
  | .restart _ => True
  | .arm _ => True
  | .disarm _ => True
  | .network _ => True
  | .advance utc => m.engine.now ≤ utc
  | .tick => True
  | .run _ => True
  | _ => False

def Rearms (m : Moment) : Move → Prop
  | .restart _ => True
  | .arm _ => True
  | .run place => ∃ t scene lineage, m.handed[place]? = some t ∧ t.body = .act (.enable scene) lineage
  | _ => False

end Moment

namespace Engine

/-- A property of instants, for each scene, that is kept when some of them go, in any order. -/
structure Hereditary (P : SceneId → List Instant → Prop) : Prop where
  nil : ∀ id, P id []
  perm : ∀ {id : SceneId} {xs ys : List Instant}, xs.Perm ys → P id ys → P id xs
  sublist : ∀ {id : SceneId} {xs ys : List Instant}, xs.Sublist ys → P id ys → P id xs

def EachDues (P : SceneId → List Instant → Prop) (e : Engine) : Prop :=
  ∀ id, P id (dues id e.server.queue.tasks)

variable {given : Settings} {good : SceneId → List TimeOfDay → Prop} {e : Engine} {m : Moment}
  {handed : List EngineTask} {time : LocalTime} {scene : SceneId}
  {P : SceneId → List Instant → Prop}

theorem forward_of_restarts {move : Move} (ok : m.Restarts move) : m.Forward move := by
  cases move <;> first | exact ok | trivial

theorem EachDues.drop (h : EachDues P e) (hp : Hereditary P) (hc : Consistent e handed) :
    EachDues P (e.dropFirings scene).2 := by
  intro id
  refine hp.perm (dues_dropFirings hc scene id) ?_
  split
  · exact hp.nil id
  · exact h id

/-- What arming a scene would queue now has the property. -/
def ArmedDues (P : SceneId → List Instant → Prop) (e : Engine) : Prop :=
  ∀ id s, e.scenes.get? id false = some s → s.automatic = true →
    P id ((sceneFirings e.settings e.clock { s with armed := true }).map Errand.due)

def ArmedDue (P : SceneId → List Instant → Prop) (e : Engine) (scene : SceneId) : Prop :=
  ∀ s, e.scenes.get? scene false = some s → s.automatic = true →
    P scene ((sceneFirings e.settings e.clock { s with armed := true }).map Errand.due)

/-- What scheduling an automatic scene queues is nothing, or what arming it would queue. -/
theorem Hereditary.sceneFirings (hp : Hereditary P) {settings : Settings} {clock : LocalTime}
    {s : Scene} (automatic : s.automatic = true)
    (fresh : P scene ((sceneFirings settings clock { s with armed := true }).map Errand.due)) :
    P scene ((sceneFirings settings clock s).map Errand.due) := by
  by_cases armed : s.armed = true
  · have whole : { s with armed := true } = s := by rw [← armed]
    rwa [whole] at fresh
  · have none : Engine.sceneFirings settings clock s = [] := by
      simp [Engine.sceneFirings, automatic, armed]
    rw [none]
    exact hp.nil scene

theorem EachDues.restart (h : EachDues P e) (hp : Hereditary P) (hc : Consistent e handed)
    (hs : Stored given good e) (fresh : ArmedDue P e scene) : EachDues P (e.restart scene).2 := by
  rcases restart_cases hs.working scene with ⟨s, found, automatic, again⟩ | ⟨-, dropped⟩
  · intro id
    rw [again]
    refine hp.perm (dues_again hc (hs.keyed.id_eq found) automatic id) ?_
    split
    · rename_i same
      rw [same]
      exact hp.sceneFirings automatic (fresh s found automatic)
    · exact h id
  · rw [dropped]
    exact h.drop hp hc

theorem EachDues.arm (h : EachDues P e) (hp : Hereditary P) (hc : Consistent e handed)
    (hs : Stored given good e) (fresh : ArmedDue P e scene) : EachDues P (e.arm scene).2 := by
  rcases arm_cases hs.working scene with ⟨-, missing⟩ | ⟨s, scenes, found, set, armed⟩
  · rw [missing]
    exact h
  · intro id
    rw [armed]
    by_cases automatic : s.automatic = true
    · have consistent : Consistent { e with scenes := scenes } handed := hc.congr rfl rfl rfl
      have own : { s with armed := true }.id = scene := (hs.keyed.id_eq found : s.id = scene)
      rw [if_pos automatic]
      refine hp.perm (dues_again consistent own automatic id) ?_
      split
      · rename_i same
        rw [same]
        exact fresh s found automatic
      · exact h id
    · rw [if_neg automatic]
      exact h id

/-- Scheduling a scene adds its firings to what is queued, without dropping any. -/
theorem EachDues.addScene (h : EachDues P e) (hp : Hereditary P) {s : Scene}
    (fresh : s.automatic = true → P s.id (dues s.id e.server.queue.tasks ++
      (sceneFirings e.settings e.clock s).map Errand.due)) : EachDues P (e.addScene s).2 := by
  intro id
  rw [addScene_eq]
  refine hp.perm (dues_enqueueAll e _ id) ?_
  by_cases own : s.automatic = true ∧ id = s.id
  · obtain ⟨automatic, rfl⟩ := own
    rw [dues_own (sceneFirings_timer automatic)]
    exact fresh automatic
  · have none : Errand.dues id (sceneFirings e.settings e.clock s) = [] := by
      refine dues_others fun r hr timed => ?_
      by_cases automatic : s.automatic = true
      · rw [sceneFirings_timer automatic r hr] at timed
        exact own ⟨automatic, (Option.some.inj timed).symm⟩
      · rw [sceneFirings, if_pos (by simp [automatic])] at hr
        rw [List.mem_singleton.mp hr] at timed
        cases timed
    rw [none, List.append_nil]
    exact h id

theorem EachDues.addById (h : EachDues P e) (hp : Hereditary P) (hs : Stored given good e)
    (fresh : ∀ s, e.scenes.get? scene false = some s → s.automatic = true →
      P scene (dues scene e.server.queue.tasks ++
        (sceneFirings e.settings e.clock s).map Errand.due)) :
    EachDues P (e.addSceneById scene).2 := by
  rw [addSceneById, loadScene_eq hs.working]
  cases found : e.scenes.get? scene false with
  | none => exact h
  | some s =>
    refine h.addScene hp fun automatic => ?_
    rw [hs.keyed.id_eq found]
    exact fresh s found automatic

theorem EachDues.disarm (h : EachDues P e) (hp : Hereditary P) (hc : Consistent e handed)
    (hs : Stored given good e) : EachDues P (e.disarm scene).2 := by
  have dropped : EachDues P (e.dropFirings scene).2 := h.drop hp hc
  rcases disarm_cases hs.working scene with ⟨-, left⟩ | ⟨scenes, -, left⟩
  · rw [left]
    exact dropped
  · rw [left]
    exact dropped

theorem EachDues.enqueueAll (h : EachDues P e) (hp : Hereditary P) {rs : List Errand}
    (untimed : ∀ r ∈ rs, r.duty.timer? = none) : EachDues P (e.enqueueAll rs) := by
  intro id
  have none : Errand.dues id rs = [] := by
    refine dues_others fun r hr timed => ?_
    rw [untimed r hr] at timed
    cases timed
  have queued := dues_enqueueAll e rs id
  rw [none, List.append_nil] at queued
  exact hp.perm queued (h id)

/-- Any duty but an arrangement. -/
theorem EachDues.effect {t : EngineTask} (h : EachDues P e) (hp : Hereditary P)
    (hc : Consistent e (t :: handed)) (hs : Stored given good e)
    (fresh : ∀ scene lineage, t.body = .act (.enable scene) lineage → ArmedDue P e scene)
    (yes : Bool) (other : t.body.arrangement? = none) :
    EachDues P (e.effect t.handle yes t.body) := by
  rcases effect_cases e t.handle yes other with ⟨scene, lineage, timed, rs, duty, children, effect⟩ |
    ⟨kind, lineage, rs, duty, children, effect⟩ | ⟨scene, lineage, duty, effect⟩ |
    ⟨scene, lineage, duty, effect⟩
  · have forgotten : EachDues P (e.forgetPending scene t.id) := by
      rw [forgetPending_frame]
      exact h
    rw [effect]
    exact forgotten.enqueueAll hp fun r hr => (children r hr).plain.1
  · rw [effect]
    exact h.enqueueAll hp fun r hr => (children r hr).plain.1
  · rw [effect]
    exact h.arm hp (hc.acted (by rw [duty]; rfl)) hs (fresh scene lineage duty)
  · rw [effect]
    exact h.disarm hp (hc.acted (by rw [duty]; rfl)) hs

/-- The firings of a day are added to what is queued. -/
theorem dues_arrange (hs : Stored given good e) (time : LocalTime) (id : SceneId) :
    (dues id (e.arrange time).2.server.queue.tasks).Perm
      (dues id e.server.queue.tasks ++
        Errand.dues id (dayFirings e.scenes e.clock (time.addDays 1))) := by
  rw [arrange_eq e time hs.working]
  exact dues_enqueueAll e _ id

/-- What the arrangement would add now to what is queued has the property. -/
def ArrangedDues (P : SceneId → List Instant → Prop) (e : Engine) (time : LocalTime) : Prop :=
  ∀ id s, e.scenes.get? id false = some s → s.automatic = true → s.armed = true →
    s.repeatsOn (time.addDays 1).weekday = true → P id (dues id e.server.queue.tasks ++
      (timerFirings (time.addDays 1) e.clock s).map Errand.due)

theorem EachDues.arrange (h : EachDues P e) (hp : Hereditary P) (hs : Stored given good e)
    (fresh : ArrangedDues P e time) : EachDues P (e.arrange time).2 := by
  intro id
  refine hp.perm (dues_arrange hs time id) ?_
  rcases dues_dayFirings hs.keyed e.clock (time.addDays 1) id with
    none | ⟨s, found, automatic, armed, repeats, dues⟩
  · rw [none, List.append_nil]
    exact h id
  · rw [dues]
    exact fresh id s found automatic armed repeats

/-- The firings of a day are added to what is queued, whoever asks for them. -/
theorem EachDues.addForDay (h : EachDues P e) (hp : Hereditary P) (hs : Stored given good e)
    {day : LocalTime} (fresh : ∀ id s, e.scenes.get? id false = some s →
      s.repeatsOn day.weekday = true →
      P id (dues id e.server.queue.tasks ++ (timerFirings day e.clock s).map Errand.due)) :
    EachDues P (e.addForDay day).2 := by
  intro id
  rw [addForDay_eq e day hs.working]
  refine hp.perm (dues_enqueueAll e _ id) ?_
  rcases dues_dayFirings hs.keyed e.clock day id with none | ⟨s, found, -, -, repeats, dues⟩
  · rw [none, List.append_nil]
    exact h id
  · rw [dues]
    exact fresh id s found repeats

theorem EachDues.addArrangement (h : EachDues P e) (hp : Hereditary P) (time : LocalTime) :
    EachDues P (e.addArrangement time) := by
  have untimed : ∀ r ∈ [arrangement time], r.duty.timer? = none := by
    intro r hr
    rw [List.mem_singleton.mp hr]
    rfl
  exact h.enqueueAll hp untimed

theorem EachDues.start (h : EachDues P e) (hp : Hereditary P) (hs : Stored given good e)
    (fresh : ∀ id s, e.scenes.get? id false = some s → s.repeatsOn e.clock.weekday = true →
      P id (dues id e.server.queue.tasks ++ (timerFirings e.clock e.clock s).map Errand.due)) :
    EachDues P e.start.2 := by
  rw [Engine.start]
  have scheduled := h.addForDay hp hs fresh
  split
  · rename_i failed
    rw [failed] at scheduled
    exact scheduled
  · rename_i done
    rw [done] at scheduled
    exact scheduled.addArrangement hp _

theorem EachDues.handOut (h : EachDues P m.engine) (hp : Hereditary P)
    (hv : m.engine.server.queue.Valid) : EachDues P m.handOut.engine := by
  obtain ⟨server, -, ⟨out, same, -⟩ | ⟨t, out, taken, -, -⟩⟩ := handOut_cases hv
  · rw [out]
    exact fun id => hp.perm (dues_perm same) (h id)
  · intro id
    have all := hp.perm (dues_perm taken).symm (h id)
    rw [out]
    exact hp.sublist (dues_sublist (List.sublist_cons_self t _)) all

theorem EachDues.runAt (h : EachDues P m.engine) (hp : Hereditary P)
    (hc : Consistent m.engine m.handed) (hs : Stored given good m.engine) {place : Nat}
    {t : EngineTask} (found : m.handed[place]? = some t)
    (armed : ∀ scene lineage, t.body = .act (.enable scene) lineage → ArmedDue P m.engine scene)
    (arranged : ∀ time, t.body = .arrange time → ArrangedDues P m.engine time) :
    EachDues P (m.runAt place).engine := by
  obtain ⟨perm, left, start, yes, before, after⟩ := runAt_effect found
  have consistent := (consistent_stable _).beside (hc.perm perm.symm) before
  have stored := (stored_lasting _ _).stable.beside hs before
  have finish : EachDues P (start.effect t.handle yes t.body) →
      EachDues P (m.runAt place).engine := by
    intro done
    obtain ⟨network, journal, entries, same⟩ := after
    rw [same]
    exact done
  have same : EachDues P start ∧ (∀ scene, ArmedDue P m.engine scene → ArmedDue P start scene) ∧
      ∀ time, ArrangedDues P m.engine time → ArrangedDues P start time := by
    obtain ⟨network, journal, entries, rfl⟩ := before
    exact ⟨h, fun _ fresh => fresh, fun _ fresh => fresh⟩
  obtain ⟨h, toArmed, toArranged⟩ := same
  cases own : t.body.arrangement? with
  | none =>
    refine finish (h.effect hp consistent stored (fun scene lineage duty => ?_) yes own)
    exact toArmed scene (armed scene lineage duty)
  | some time =>
    have duty := Duty.eq_arrange own
    refine finish ?_
    rw [duty]
    exact h.arrange hp stored (toArranged time (arranged time duty))

/-- Every move keeps the property if it holds of what is queued when a scene is armed or the
arrangement runs. -/
theorem EachDues.apply (h : EachDues P m.engine) (hp : Hereditary P)
    (running : Running given good m time) {move : Move} (ok : m.Restarts move)
    (armed : m.Rearms move → ArmedDues P m.engine)
    (arranged : m.arranging? move = some time → ArrangedDues P m.engine time) :
    EachDues P (m.apply move).engine := by
  cases move with
  | restart scene => exact h.restart hp running.consistent running.stored (armed trivial scene)
  | arm scene => exact h.arm hp running.consistent running.stored (armed trivial scene)
  | disarm scene => exact h.disarm hp running.consistent running.stored
  | network network => exact h
  | advance utc => exact h
  | tick => exact h.handOut hp running.consistent.valid
  | run place =>
    rw [Moment.apply]
    cases found : m.handed[place]? with
    | none =>
      rw [runAt_none found]
      exact h
    | some t =>
      refine h.runAt hp running.consistent running.stored found (fun scene lineage duty => ?_)
        fun other duty => ?_
      · exact armed ⟨t, scene, lineage, found, duty⟩ scene
      · have handed : t ∈ m.engine.server.queue.tasks ++ m.handed :=
          List.mem_append_right _ (List.mem_of_getElem? found)
        obtain rfl := running.arranged.only handed duty
        refine arranged ?_
        rw [Moment.arranging?, found, Option.bind_some, duty]
        rfl
  | _ => exact ok.elim

/-- At the start, each live scene has its firings of the day. -/
theorem eachDues_started {settings : Settings} {clock : LocalTime} {scenes : SceneStore}
    {devices : DeviceStore} {network : Network} {journal : Journal Ticket} (hp : Hereditary P)
    (keyed : scenes.Keyed)
    (today : ∀ id s, scenes.get? id false = some s → s.automatic = true → s.armed = true →
      P id ((timerFirings clock clock s).map Errand.due)) :
    EachDues P (Moment.started settings clock scenes devices network journal).engine := by
  intro id
  rw [Moment.started_engine]
  refine hp.perm (dues_enqueueAll _ _ id) ?_
  rw [errand_dues_append]
  change P id (Errand.dues id (dayFirings scenes clock clock) ++ [])
  rw [List.append_nil]
  rcases dues_dayFirings keyed clock clock id with none | ⟨s, found, automatic, armed, -, dues⟩
  · rw [none]
    exact hp.nil id
  · rw [dues]
    exact today id s found automatic armed

end Engine

end HomeScenes
