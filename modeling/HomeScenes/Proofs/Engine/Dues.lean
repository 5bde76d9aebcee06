import HomeScenes.Proofs.Engine.Pending
import HomeScenes.Proofs.Engine.Stored

/-!
# When the firings of a scene are due

The instants at which the queued timer firings of a scene are due, and what each operation
does to them. A scene fires twice at one instant if that instant is there twice.
-/

namespace HomeScenes

def Errand.dues (scene : SceneId) (rs : List Errand) : List Instant :=
  rs.filterMap fun r => if r.duty.timer? = some scene then some r.due else none

namespace Engine

/-- When the timer firings of a scene among some tasks are due. -/
def dues (scene : SceneId) (ts : List EngineTask) : List Instant :=
  ts.filterMap fun t => if t.body.timer? = some scene then some t.due else none

variable {e r : Engine} {handed : List EngineTask} {id scene : SceneId} {ts us : List EngineTask}
  {rs : List Errand}

theorem mem_dues {x : Instant} :
    x ∈ dues scene ts ↔ ∃ t ∈ ts, t.body.timer? = some scene ∧ t.due = x := by
  rw [dues, List.mem_filterMap]
  refine exists_congr fun t => and_congr_right fun _ => ?_
  by_cases timed : t.body.timer? = some scene <;> simp [timed]

theorem dues_append : dues scene (ts ++ us) = dues scene ts ++ dues scene us :=
  List.filterMap_append

theorem dues_perm (h : ts.Perm us) : (dues scene ts).Perm (dues scene us) :=
  h.filterMap _

theorem dues_sublist (h : ts.Sublist us) : (dues scene ts).Sublist (dues scene us) :=
  h.filterMap _

theorem dues_cons (t : EngineTask) : dues scene (t :: ts) =
    if t.body.timer? = some scene then t.due :: dues scene ts else dues scene ts := by
  by_cases timed : t.body.timer? = some scene <;> simp [dues, timed]

theorem dues_tasks (n : Nat) : dues scene (Errand.tasks n rs) = Errand.dues scene rs :=
  Errand.filterMap_tasks (fun _ _ => rfl) n rs

theorem errand_dues_append (rs us : List Errand) :
    Errand.dues scene (rs ++ us) = Errand.dues scene rs ++ Errand.dues scene us :=
  List.filterMap_append

/-- Among timer firings of a scene, all are its own. -/
theorem dues_own (own : ∀ r ∈ rs, r.duty.timer? = some scene) :
    Errand.dues scene rs = rs.map Errand.due := by
  rw [Errand.dues, ← List.filterMap_eq_map]
  exact List.filterMap_congr fun r hr => by rw [if_pos (own r hr)]; rfl

theorem dues_others (others : ∀ r ∈ rs, r.duty.timer? ≠ some scene) :
    Errand.dues scene rs = [] := by
  rw [Errand.dues, List.filterMap_eq_nil_iff]
  exact fun r hr => if_neg (others r hr)

theorem timerFirings_timer {day notBefore : LocalTime} {s : Scene} :
    ∀ r ∈ timerFirings day notBefore s, r.duty.timer? = some s.id := by
  intro r hr
  obtain ⟨time, -, -, rfl⟩ := mem_timerFirings.mp hr
  rfl

theorem sceneFirings_timer {settings : Settings} {clock : LocalTime} {s : Scene}
    (automatic : s.automatic = true) :
    ∀ r ∈ sceneFirings settings clock s, r.duty.timer? = some s.id := by
  intro r hr
  simp only [sceneFirings, automatic, Bool.not_true, Bool.false_eq_true, if_false] at hr
  split at hr
  · cases hr
  · rcases List.mem_append.mp hr with hr | hr
    · exact timerFirings_timer r hr
    · split at hr
      · exact timerFirings_timer r hr
      · cases hr

/-- On each day a scene is scheduled once. -/
theorem dues_flatMap {day notBefore : LocalTime} {l : List Scene} (distinct : (l.map Scene.id).Nodup)
    {s : Scene} (listed : s ∈ l) :
    Errand.dues s.id (l.flatMap (timerFirings day notBefore)) =
      (timerFirings day notBefore s).map Errand.due := by
  induction l with
  | nil => cases listed
  | cons u l ih =>
    obtain ⟨fresh, distinct⟩ := List.nodup_cons.mp distinct
    rw [List.flatMap_cons, errand_dues_append]
    rcases List.mem_cons.mp listed with rfl | listed
    · rw [dues_own timerFirings_timer, dues_others, List.append_nil]
      intro r hr own
      obtain ⟨v, hv, hr⟩ := List.mem_flatMap.mp hr
      rw [timerFirings_timer r hr] at own
      exact fresh (List.mem_map.mpr ⟨v, hv, Option.some.inj own⟩)
    · rw [dues_others, List.nil_append]
      · exact ih distinct listed
      · intro r hr own
        rw [timerFirings_timer r hr] at own
        exact fresh (List.mem_map.mpr ⟨s, listed, (Option.some.inj own).symm⟩)

/-- What is scheduled on a day is a scene's own, or nothing. -/
theorem dues_dayFirings {scenes : SceneStore} (keyed : scenes.Keyed) (clock day : LocalTime)
    (scene : SceneId) : Errand.dues scene (dayFirings scenes clock day) = [] ∨
      ∃ s, scenes.get? scene false = some s ∧ s.automatic = true ∧ s.armed = true ∧
        s.repeatsOn day.weekday = true ∧ Errand.dues scene (dayFirings scenes clock day) =
          (timerFirings day clock s).map Errand.due := by
  have sub : List.Sublist ((scenes.armedFor day.weekday).filter Scene.hasTiming)
      (scenes.armedFor day.weekday) := List.filter_sublist
  have distinct := (SceneStore.live_ids_nodup keyed fun s => s.repeatsOn day.weekday).sublist
    (sub.map Scene.id)
  by_cases listed : ∃ s ∈ (scenes.armedFor day.weekday).filter Scene.hasTiming, s.id = scene
  · obtain ⟨s, hs, rfl⟩ := listed
    obtain ⟨found, automatic, armed, repeats⟩ :=
      (SceneStore.mem_live_iff keyed).mp (List.mem_filter.mp hs).1
    exact .inr ⟨s, found, automatic, armed, repeats, dues_flatMap distinct hs⟩
  · refine .inl (dues_others fun r hr own => listed ?_)
    obtain ⟨s, hs, hr⟩ := List.mem_flatMap.mp hr
    rw [timerFirings_timer r hr] at own
    exact ⟨s, hs, Option.some.inj own⟩

/-- A live scene that repeats on a day is scheduled on it. -/
theorem dues_dayFirings_live {scenes : SceneStore} (keyed : scenes.Keyed) {clock day : LocalTime}
    {s : Scene} (found : scenes.get? scene false = some s) (automatic : s.automatic = true)
    (armed : s.armed = true) (repeats : s.repeatsOn day.weekday = true) :
    Errand.dues scene (dayFirings scenes clock day) =
      (timerFirings day clock s).map Errand.due := by
  obtain rfl := keyed.id_eq found
  have live : s ∈ scenes.armedFor day.weekday :=
    (SceneStore.mem_live_iff keyed).mpr ⟨found, automatic, armed, repeats⟩
  rcases dues_dayFirings keyed clock day s.id with none | ⟨s', found', -, -, -, dues⟩
  · rw [none, eq_comm, List.map_eq_nil_iff]
    refine List.eq_nil_iff_forall_not_mem.mpr fun r hr => ?_
    obtain ⟨time, htime, -⟩ := mem_timerFirings.mp hr
    have scheduled : r ∈ dayFirings scenes clock day :=
      List.mem_flatMap.mpr ⟨s, List.mem_filter.mpr ⟨live, hasTiming_of_mem htime⟩, hr⟩
    have all := List.filterMap_eq_nil_iff.mp none r scheduled
    rw [if_pos (timerFirings_timer r hr)] at all
    cases all
  · rw [dues]
    cases found.symm.trans found'
    rfl

theorem dues_enqueueAll (e : Engine) (rs : List Errand) (scene : SceneId) :
    (dues scene (e.enqueueAll rs).server.queue.tasks).Perm
      (dues scene e.server.queue.tasks ++ Errand.dues scene rs) := by
  have queued : (dues scene (e.enqueueAll rs).server.queue.tasks).Perm
      (dues scene (e.server.queue.tasks ++ Errand.tasks e.issued rs)) :=
    dues_perm (tasks_enqueueAll e rs)
  rwa [dues_append, dues_tasks] at queued

theorem dues_dropFirings (hc : Consistent e handed) (scene id : SceneId) :
    (dues id (e.dropFirings scene).2.server.queue.tasks).Perm
      (if id = scene then [] else dues id e.server.queue.tasks) := by
  obtain ⟨-, left⟩ := hc.dropFirings scene
  refine (dues_perm left).trans (List.Perm.of_eq ?_)
  rw [dues, List.filterMap_filter]
  by_cases same : id = scene
  · rw [if_pos same, same, List.filterMap_eq_nil_iff]
    intro t _
    by_cases timed : t.body.timer? = some scene <;> simp [timed]
  · rw [if_neg same, dues]
    refine List.filterMap_congr fun t _ => ?_
    by_cases timed : t.body.timer? = some scene
    · have other : some scene ≠ some id := fun h => same (Option.some.inj h).symm
      simp [timed, other]
    · simp [timed]

/-- A scene whose firings are dropped and queued again has those of the day, and maybe of the
next; the other scenes keep theirs. -/
theorem dues_again {s : Scene} (hc : Consistent e handed) (own : s.id = scene)
    (automatic : s.automatic = true) (id : SceneId) :
    (dues id ((e.dropFirings scene).2.addScene s).2.server.queue.tasks).Perm
      (if id = scene then (sceneFirings e.settings e.clock s).map Errand.due
        else dues id e.server.queue.tasks) := by
  have settings : (e.dropFirings scene).2.settings = e.settings := by rw [dropFirings_frame]
  have clock : (e.dropFirings scene).2.clock = e.clock := by rw [dropFirings_frame]
  have left := dues_dropFirings hc scene id
  have queued := dues_enqueueAll (e.dropFirings scene).2 (sceneFirings e.settings e.clock s) id
  rw [addScene_eq, settings, clock]
  by_cases same : id = scene
  · rw [if_pos same] at left ⊢
    have mine : Errand.dues id (sceneFirings e.settings e.clock s) =
        (sceneFirings e.settings e.clock s).map Errand.due := by
      rw [same, ← own]
      exact dues_own (sceneFirings_timer automatic)
    rw [← mine]
    exact queued.trans (left.append_right _)
  · rw [if_neg same] at left ⊢
    have none : Errand.dues id (sceneFirings e.settings e.clock s) = [] := by
      refine dues_others fun r hr timed => ?_
      rw [sceneFirings_timer automatic r hr, own] at timed
      exact same (Option.some.inj timed).symm
    rw [none, List.append_nil] at queued
    exact queued.trans left

end Engine

end HomeScenes
