import HomeScenes.Proofs.Engine.History
import HomeScenes.Proofs.Engine.Stored

/-!
# The index through a history

Whatever happens to an engine, its index mirrors the queue: it notes every queued timer
firing under its scene, once, notes nothing but timer firings that are queued or handed out,
and keeps no scene without firings. So dropping the firings of a scene takes out exactly its
queued timer firings and tells how many they were.
-/

namespace HomeScenes.Engine

variable {e r : Engine} {handed : List EngineTask} {m : Moment}

/-- Every scene of the index has firings, and none is noted twice. -/
structure Tidy (e : Engine) : Prop where
  filled : ∀ scene, e.pending.find? scene ≠ some []
  once : ∀ scene, (e.noted scene).Nodup

theorem Tidy.congr (h : Tidy e) (pending : r.pending = e.pending) : Tidy r := by
  constructor
  · intro scene
    rw [pending]
    exact h.filled scene
  · intro scene
    rw [noted, pending]
    exact h.once scene

theorem Tidy.enqueue (h : Tidy e) (hc : Consistent e handed) (r : Errand) : Tidy (e.enqueue r) := by
  constructor
  · intro scene
    simp only [Engine.enqueue]
    split
    · simp only [Table.find?_set]
      split
      · simp
      · exact h.filled scene
    · exact h.filled scene
  · intro scene
    have fresh : e.issued ∉ e.noted scene := by
      intro old
      obtain ⟨t, ht, id, -⟩ := hc.known scene _ old
      exact Nat.lt_irrefl _ (id ▸ hc.issued t ht)
    rw [noted_enqueue]
    split
    · rw [List.nodup_append]
      refine ⟨h.once scene, List.nodup_singleton _, ?_⟩
      rintro a ha b hb rfl
      exact fresh (List.mem_singleton.mp hb ▸ ha)
    · exact h.once scene

theorem Tidy.dropFirings (h : Tidy e) (scene : SceneId) : Tidy (e.dropFirings scene).2 := by
  rw [dropFirings_frame]
  constructor
  · intro other
    simp only [Table.find?_erase]
    split
    · simp
    · exact h.filled other
  · intro other
    simp only [noted, Table.find?_erase]
    split
    · exact List.nodup_nil
    · exact h.once other

theorem Tidy.forgetPending (h : Tidy e) (own : SceneId) (task : Ticket) :
    Tidy (e.forgetPending own task) := by
  constructor
  · intro scene
    rw [Engine.forgetPending]
    split
    · exact h.filled scene
    · dsimp only
      split
      · simp only [Table.find?_erase]
        split
        · simp
        · exact h.filled scene
      · rename_i left
        simp only [Table.find?_set]
        split
        · intro empty
          rw [Option.some.inj empty] at left
          exact left rfl
        · exact h.filled scene
  · intro scene
    rw [noted_forgetPending]
    split
    · exact (h.once scene).filter _
    · exact h.once scene

theorem tidy_stable (handed : List EngineTask) :
    Stable fun e => Consistent e handed ∧ Tidy e where
  enqueue _ h := ⟨h.1.enqueue _, h.2.enqueue h.1 _⟩
  drop scene h := ⟨(h.1.dropFirings scene).1, h.2.dropFirings scene⟩
  armed h _ := ⟨h.1.congr rfl rfl rfl, h.2.congr rfl⟩
  deleted h _ := ⟨h.1.congr rfl rfl rfl, h.2.congr rfl⟩
  aside h _ _ _ _ := ⟨h.1.congr rfl rfl rfl, h.2.congr rfl⟩

theorem Tidy.effect {t : EngineTask} (h : Tidy e) (hc : Consistent e (t :: handed)) (yes : Bool) :
    Tidy (e.effect t.handle yes t.body) := by
  have stable := tidy_stable handed
  cases own : t.body.arrangement? with
  | none =>
    refine (stable.effect t.handle yes own ?_ ?_).2
    · exact fun scene lineage timed duty => ⟨hc.fired duty, h.forgetPending scene t.id⟩
    · exact fun kind lineage duty => ⟨hc.acted (by rw [duty]; rfl), h⟩
  | some time =>
    have duty := Duty.eq_arrange own
    have left := hc.acted (by rw [duty]; rfl)
    simp only [duty]
    let next := arrangement (time.addDays 1)
    exact (stable.addForDay ⟨left.enqueue next, h.enqueue left next⟩ (time.addDays 1)).2

theorem Tidy.runAt (h : Tidy m.engine) (hc : Consistent m.engine m.handed) (place : Nat) :
    Tidy (m.runAt place).engine := by
  cases found : m.handed[place]? with
  | none =>
    rw [runAt_none found]
    exact h
  | some t =>
    obtain ⟨perm, -, start, yes, before, after⟩ := runAt_effect found
    obtain ⟨consistent, tidy⟩ := (tidy_stable _).beside ⟨hc.perm perm.symm, h⟩ before
    exact ((tidy_stable _).beside ⟨consistent.effect yes, tidy.effect consistent yes⟩ after).2

theorem Tidy.happen (h : Tidy m.engine) (hc : Consistent m.engine m.handed) (event : Event) :
    Tidy (m.happen event).engine := by
  have rooted := (tidy_stable m.handed).toRooted
  have happens := happens m event
  generalize m.happen event = r at happens ⊢
  cases happens with
  | within outer closed kept => exact (kept rooted ⟨hc, h⟩).2
  | opened outer opens kept =>
    obtain ⟨consistent, tidy⟩ := kept rooted ⟨hc, h⟩
    exact tidy.enqueue consistent _
  | around => exact h.congr rfl
  | tick =>
    obtain ⟨server, -, ⟨out, -⟩ | ⟨t, out, -⟩⟩ := handOut_cases hc.valid
    · rw [out]
      exact h.congr rfl
    · rw [out]
      exact h.congr rfl
  | run place => exact h.runAt hc place

/-- What is taken out and what is left come to what there was. -/
theorem removeTasks_count (hv : e.server.queue.Valid) (ids : List Ticket) :
    (e.removeTasks ids).1 + (e.removeTasks ids).2.server.queue.tasks.length =
      e.server.queue.tasks.length := by
  suffices counted : ∀ n, (ids.foldl (fun (r : Nat × Engine) id =>
        (if (r.2.server.remove id).1 then r.1 + 1 else r.1,
          { r.2 with server := (r.2.server.remove id).2 })) (n, e)).1 +
      (ids.foldl (fun (r : Nat × Engine) id =>
        (if (r.2.server.remove id).1 then r.1 + 1 else r.1,
          { r.2 with server := (r.2.server.remove id).2 })) (n, e)).2.server.queue.tasks.length =
      n + e.server.queue.tasks.length by
    have from_zero := counted 0
    rwa [Nat.zero_add] at from_zero
  induction ids generalizing e with
  | nil => exact fun n => rfl
  | cons id ids ih =>
    intro n
    cases answer : e.server.remove id with
    | mk removed server =>
      cases removed with
      | true =>
        obtain ⟨valid, t, -, perm⟩ := Dispatch.Server.remove_true hv answer
        have length := perm.length_eq
        have rest := ih (e := { e with server := server }) valid (n + 1)
        simp only [List.foldl_cons, answer, if_true, List.length_cons] at rest length ⊢
        omega
      | false =>
        obtain ⟨same, -⟩ := Dispatch.Server.remove_false hv answer
        have rest := ih (e := { e with server := server }) (same ▸ hv) n
        simp only [List.foldl_cons, answer, Bool.false_eq_true, if_false] at rest ⊢
        rw [rest, same]

theorem Consistent.dropFirings_count (h : Consistent e handed) (scene : SceneId) :
    (e.dropFirings scene).1 =
      (e.server.queue.tasks.filter fun t => t.body.timer? = some scene).length := by
  have counted := removeTasks_count (e := { e with pending := e.pending.erase scene }) h.valid
    (e.noted scene)
  change (e.dropFirings scene).1 + (e.dropFirings scene).2.server.queue.tasks.length =
    e.server.queue.tasks.length at counted
  have left := (h.dropFirings scene).2.length_eq
  have parts := List.length_eq_length_filter_add (l := e.server.queue.tasks)
    fun t => decide (t.body.timer? = some scene)
  simp only [decide_not] at left
  omega

/-- While no task is handed out, what is noted is what is queued. -/
theorem Consistent.pendingCount (h : Consistent e []) (tidy : Tidy e) (scene : SceneId) :
    e.pendingCount scene =
      (e.server.queue.tasks.filter fun t => t.body.timer? = some scene).length := by
  have ids : ((e.server.queue.tasks.filter fun t => t.body.timer? = some scene).map Task.id).Nodup :=
    h.valid.ids_nodup.sublist (List.filter_sublist.map Task.id)
  have same : (e.noted scene).Perm
      ((e.server.queue.tasks.filter fun t => t.body.timer? = some scene).map Task.id) := by
    rw [List.perm_ext_iff_of_nodup (tidy.once scene) ids]
    intro id
    constructor
    · intro hid
      obtain ⟨t, ht, rfl, timed⟩ := h.known scene id hid
      rw [List.append_nil] at ht
      exact List.mem_map_of_mem (List.mem_filter.mpr ⟨ht, decide_eq_true timed⟩)
    · intro hid
      obtain ⟨t, ht, rfl⟩ := List.mem_map.mp hid
      obtain ⟨ht, timed⟩ := List.mem_filter.mp ht
      exact h.queued t ht scene (of_decide_eq_true timed)
  rw [Engine.pendingCount, ← noted, same.length_eq, List.length_map]

/-- In every state that an engine reaches, the index mirrors the queue, and dropping the firings
of a scene takes out its queued timer firings and nothing else. -/
theorem index_mirrors_queue {settings : Settings} {clock : LocalTime} {scenes : SceneStore}
    {devices : DeviceStore} {network : Network} {journal : Journal Ticket}
    {past : List (Moment × Event)} {m : Moment}
    (history : Moment.History (fun _ _ => True)
      (Moment.fresh settings clock scenes devices network journal) past m) (scene : SceneId) :
    let tasks := m.engine.server.queue.tasks
    let dropped := m.engine.dropFirings scene
    (∀ t ∈ tasks, t.body.timer? = some scene → t.id ∈ m.engine.noted scene) ∧
    (∀ id ∈ m.engine.noted scene,
      ∃ t ∈ tasks ++ m.handed, t.id = id ∧ t.body.timer? = some scene) ∧
    m.engine.pending.find? scene ≠ some [] ∧
    (∀ t ∈ tasks ++ m.handed, t.body.timer? = none → t.id ∉ m.engine.noted scene) ∧
    (m.handed = [] → m.engine.pendingCount scene =
      (tasks.filter fun t => t.body.timer? = some scene).length) ∧
    dropped.1 = (tasks.filter fun t => t.body.timer? = some scene).length ∧
    dropped.2.server.queue.tasks.Perm (tasks.filter fun t => t.body.timer? ≠ some scene) ∧
    dropped.2.pendingCount scene = 0 ∧
    (∀ other, other ≠ scene → dropped.2.pending.find? other = m.engine.pending.find? other) ∧
    dropped.2 = { m.engine with server := dropped.2.server, pending := dropped.2.pending } := by
  intro tasks dropped
  have always : Consistent m.engine m.handed ∧ Tidy m.engine := by
    refine history.invariant (P := fun m => Consistent m.engine m.handed ∧ Tidy m.engine) ?_ ?_
    · refine ⟨consistent_fresh _ _ _ _ _ _, ?_, ?_⟩
      · rintro scene ⟨⟩
      · exact fun scene => List.nodup_nil
    · rintro s event - ⟨consistent, tidy⟩
      exact ⟨consistent.happen event, tidy.happen consistent event⟩
  obtain ⟨consistent, tidy⟩ := always
  have frame : dropped.2 =
      { m.engine with server := dropped.2.server, pending := m.engine.pending.erase scene } :=
    dropFirings_frame m.engine scene
  refine ⟨?_, consistent.known scene, tidy.filled scene, ?_, ?_,
    consistent.dropFirings_count scene, (consistent.dropFirings scene).2, ?_, ?_, ?_⟩
  · exact fun t ht timed => consistent.queued t ht scene timed
  · intro t ht untimed hid
    obtain ⟨u, hu, id, timed⟩ := consistent.known scene t.id hid
    rw [consistent.same hu ht id, untimed] at timed
    cases timed
  · intro none
    rw [none] at consistent
    exact consistent.pendingCount tidy scene
  · rw [frame]
    simp [Engine.pendingCount, Table.find?_erase]
  · intro other differ
    rw [frame]
    simp [Table.find?_erase, differ]
  · rw [frame]

/-- A scene that is scheduled at midnight has one firing, and dropping it leaves none. -/
theorem index_mirrors_queue_scheduled :
    let eight : TimeOfDay := ⟨28800, 0, by decide, by decide⟩
    let m := (Moment.fresh {} ⟨⟨0, .midnight⟩, 0⟩ (dailyStore eight) {} default default).happen
      (.move (.addScene (daily eight)))
    m.engine.pendingCount (daily eight).id = 1 ∧
      (m.engine.dropFirings (daily eight).id).1 = 1 ∧
      (m.engine.dropFirings (daily eight).id).2.pendingCount (daily eight).id = 0 := by
  intro eight m
  let e := (Moment.fresh {} ⟨⟨0, .midnight⟩, 0⟩ (dailyStore eight) {} default default).engine
  have one : (m.engine.server.queue.tasks.filter
      fun t => t.body.timer? = some (daily eight).id).length = 1 := by
    have queued := tasks_enqueueAll e (sceneFirings e.settings e.clock (daily eight))
    have same : m.engine = e.enqueueAll (sceneFirings e.settings e.clock (daily eight)) := by
      simp only [m, Moment.happen, Moment.apply, addScene_eq, e]
    rw [same, (queued.filter _).length_eq]
    decide +kernel
  obtain ⟨-, -, -, -, count, dropped, -, none, -⟩ := index_mirrors_queue (m := m)
    (.next .begin (.move (.addScene (daily eight))) trivial) (daily eight).id
  exact ⟨(count rfl).trans one, dropped.trans one, none⟩

end HomeScenes.Engine
