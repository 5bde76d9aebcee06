import HomeScenes.Proofs.Calendar.Days
import HomeScenes.Proofs.Engine.History
import HomeScenes.Proofs.Engine.Stored
import Mathlib.Data.Multiset.DershowitzManna

/-!
# Running to rest

While the clock stands still, running due tasks comes to an end, however the scenes run each
other. Each task that runs is replaced by tasks of lower rank. A firing and its actions lose
rank with every scene that joins their lineage, since none joins twice; an arrangement ranks
above all of them, by the days that it is behind. This needs that no scene arms another one:
arming queues firings that start without a lineage.
-/

namespace HomeScenes

def Scene.ArmsNone (s : Scene) : Prop :=
  ∀ a ∈ s.actions, ∀ target, a.kind ≠ .enable target

namespace Engine

variable {m : Moment}

/-- Neither a stored scene nor a task that waits arms a scene. -/
structure Tame (m : Moment) : Prop where
  consistent : Consistent m.engine m.handed
  keyed : m.engine.scenes.Keyed
  scenes : ∀ id s, m.engine.scenes.get? id false = some s → s.ArmsNone
  tasks : ∀ t ∈ m.engine.server.queue.tasks ++ m.handed, ∀ target lineage,
    t.body ≠ .act (.enable target) lineage

theorem armsNone_storing :
    Storing (fun scenes => scenes.All fun _ s => s.ArmsNone) Scene.ArmsNone where
  armed h set := h.setArmed set fun _ _ same => same
  deleted h gone := h.softDelete gone
  saved may h saved := h.save saved may

theorem Tame.raises (h : Tame m) {event : Event} {r : Errand} (raises : m.Raises event r)
    (target : SceneId) (lineage : List SceneId) : r.duty ≠ .act (.enable target) lineage := by
  have rootless : r.Root → r.duty ≠ .act (.enable target) lineage := by
    rintro ⟨-, scene, timed, duty⟩ same
    rw [duty] at same
    cases same
  cases raises with
  | root outer root => exact rootless root
  | opened opens => nofun
  | sown found sows root => exact rootless root
  | next found duty => nofun
  | @child _ t _ found child =>
    intro same
    generalize t.body = d at child
    cases child with
    | action loaded listed parent duty =>
      rw [duty] at same
      injection same with kind
      exact h.scenes _ _ (loadScene_ok.mp loaded).2 _ listed target kind
    | firing apart loaded parent duty =>
      rw [duty] at same
      cases same

theorem Tame.happen (h : Tame m) (event : Event)
    (ok : ∀ s, event = .move (.save s) → s.ArmsNone) : Tame (m.happen event) := by
  have grown := grown_happen h.consistent event
  refine ⟨h.consistent.happen event, ?_, ?_, ?_⟩
  · exact keyed_storing.happen h.keyed fun _ _ => trivial
  · exact armsNone_storing.happen h.scenes ok
  · intro t ht
    rcases List.mem_append.mp ht with ht | ht
    · rcases grown.tasks t ht with old | ⟨r, i, raises, -, rfl⟩
      · exact h.tasks t (List.mem_append_left _ old)
      · exact h.raises raises
    · rcases handed_happen h.consistent event t ht with old | ⟨old, -⟩
      · exact h.tasks t (List.mem_append_right _ old)
      · exact h.tasks t (List.mem_append_left _ old)

def room (keys lineage : List SceneId) : Nat :=
  (keys.filter fun key => key ∉ lineage).length

/-- The rank of a task among some scenes on record, on a day. -/
def rank (keys : List SceneId) (today : Int) : Duty → Nat
  | .fire scene lineage _ => 2 * room keys (lineage ++ [scene]) + 1
  | .act _ lineage => 2 * room keys lineage
  | .arrange time => 2 * keys.length + 2 + (today + 1 - time.utc.day).toNat

theorem room_le (keys lineage : List SceneId) : room keys lineage ≤ keys.length :=
  List.length_filter_le _ _

/-- A scene on record that joins a lineage takes a place. -/
theorem room_lt {keys lineage : List SceneId} {scene : SceneId} (listed : scene ∈ keys)
    (apart : scene ∉ lineage) : room keys (lineage ++ [scene]) < room keys lineage := by
  have fewer : (keys.filter fun key => key ∉ lineage ++ [scene]) =
      (keys.filter fun key => key ∉ lineage).filter fun key => key ≠ scene := by
    rw [List.filter_filter]
    refine List.filter_congr fun key _ => ?_
    simp [and_comm]
  rw [room, room, fewer]
  refine List.length_filter_lt_length_iff_exists.mpr ⟨scene, ?_, by simp⟩
  exact List.mem_filter.mpr ⟨listed, by simpa using apart⟩

/-- What a task queues is not due yet, or it is of lower rank than the task. -/
theorem Tame.rank_lt (h : Tame m) {place : Nat} {t : EngineTask} {r : Errand}
    (found : m.handed[place]? = some t) (raises : m.Raises (.move (.run place)) r)
    (due : r.due ≤ m.engine.now) :
    rank m.engine.scenes.scenes.keys m.engine.now.day r.duty <
      rank m.engine.scenes.scenes.keys m.engine.now.day t.body := by
  have handed : t ∈ m.engine.server.queue.tasks ++ m.handed :=
    List.mem_append_right _ (List.mem_of_getElem? found)
  have same {u : EngineTask} (other : m.handed[place]? = some u) : u = t :=
    Option.some.inj (other.symm.trans found)
  cases raises with
  | root outer root => exact outer.elim
  | opened opens => cases opens
  | @sown _ u _ found' sows root =>
    obtain rfl : t = u := (same found').symm
    obtain ⟨-, scene, timed, duty⟩ := root
    cases body : t.body with
    | arrange time =>
      have bound := room_le m.engine.scenes.scenes.keys ([] ++ [scene])
      rw [duty]
      simp only [rank]
      omega
    | act kind lineage =>
      cases kind with
      | enable target => exact absurd body (h.tasks t handed target lineage)
      | _ =>
        rw [body] at sows
        exact sows.elim
    | fire scene lineage timed =>
      rw [body] at sows
      exact sows.elim
  | @next _ u _ found' duty =>
    obtain rfl : t = u := (same found').symm
    have day := Instant.day_le_of_le due
    rw [duty]
    simp only [arrangement, rank, LocalTime.addDays_pos _ Int.one_pos] at day ⊢
    omega
  | @child _ u _ found' child =>
    obtain rfl : t = u := (same found').symm
    generalize t.body = d at child ⊢
    cases child with
    | action loaded listed parent duty =>
      rw [duty]
      exact Nat.lt_succ_self _
    | @firing target _ s _ apart loaded parent duty =>
      have stored := (loadScene_ok.mp loaded).2
      have listed : target ∈ m.engine.scenes.scenes.keys := by
        by_contra absent
        rw [← Table.find?_eq_none_iff, (SceneStore.get?_live_iff.mp stored).1] at absent
        cases absent
      have less := room_lt listed apart
      rw [duty, h.keyed.id_eq stored]
      simp only [rank]
      omega

/-- What is left when an element is taken out and lower ones come in its place is lower. -/
theorem lower_of_replaced {α : Type} {f : α → Nat} {before after rest : List α} {a : α}
    (taken : before.Perm (a :: rest)) (once : after.Nodup)
    (replaced : ∀ b ∈ after, b ∈ rest ∨ f b < f a) :
    Multiset.IsDershowitzMannaLT (after.map f : Multiset Nat) (before.map f : Multiset Nat) := by
  classical
  have within : (after.filter fun b => b ∈ rest : List α).Subperm rest :=
    List.subperm_of_subset (once.filter _) fun b hb => by simpa using (List.mem_filter.mp hb).2
  obtain ⟨gone, parts⟩ := Multiset.le_iff_exists_add.mp (Multiset.coe_le.mpr within)
  let kept : Multiset Nat := (after.filter fun b => b ∈ rest : List α).map f
  let fresh : Multiset Nat := (after.filter fun b => b ∉ rest : List α).map f
  refine ⟨kept, fresh, f a ::ₘ gone.map f, Multiset.cons_ne_zero, ?_, ?_, ?_⟩
  · have all := List.filter_append_perm (fun b => decide (b ∈ rest)) after
    have mapped := (all.map f).symm
    simp only [List.map_append, ← decide_not] at mapped
    exact Multiset.coe_eq_coe.mpr mapped
  · have mapped : (rest.map f : Multiset Nat) = kept + gone.map f := by
      have mapped := congrArg (Multiset.map f) parts
      rwa [Multiset.map_add] at mapped
    have all : (before.map f : Multiset Nat) = f a ::ₘ (rest.map f : Multiset Nat) :=
      Multiset.coe_eq_coe.mpr (taken.map f)
    rw [all, mapped, Multiset.add_cons]
  · intro n hn
    obtain ⟨b, hb, rfl⟩ := List.mem_map.mp hn
    obtain ⟨listed, outside⟩ := List.mem_filter.mp hb
    refine ⟨f a, Multiset.mem_cons_self _ _, ?_⟩
    exact (replaced b listed).resolve_left (by simpa using outside)

def agenda (m : Moment) : Multiset Nat :=
  (m.engine.server.queue.tasks.filter fun t => t.due ≤ m.engine.now).map fun t =>
    rank m.engine.scenes.scenes.keys m.engine.now.day t.body

/-- The engine itself puts no scene on record. -/
theorem keys_lasting (keys : List SceneId) : Lasting fun e => e.scenes.scenes.keys = keys where
  queue h _ _ _ := h
  armed h set := by
    obtain ⟨-, rfl⟩ := SceneStore.setArmed_eq set
    exact (Table.keys_modify _ _ _).trans h
  deleted h gone := by
    obtain rfl := SceneStore.softDelete_eq gone
    exact (Table.keys_modify _ _ _).trans h
  aside h _ _ _ _ := h

/-- Running a task that was just handed out lowers the agenda, and the clock stands still. -/
theorem Tame.agenda_lt (h : Tame m) {place : Nat} {t : EngineTask} {before : List EngineTask}
    (found : m.handed[place]? = some t) (due : t.due ≤ m.engine.now)
    (taken : before.Perm (t :: m.engine.server.queue.tasks)) :
    (m.runAt place).engine.now = m.engine.now ∧ Multiset.IsDershowitzMannaLT (agenda (m.runAt place))
      ((before.filter fun t => t.due ≤ m.engine.now).map fun t =>
        rank m.engine.scenes.scenes.keys m.engine.now.day t.body : List Nat) := by
  have keys : (m.runAt place).engine.scenes.scenes.keys = m.engine.scenes.scenes.keys :=
    (keys_lasting m.engine.scenes.scenes.keys).runAt rfl place
  have still : (m.runAt place).engine.now = m.engine.now :=
    congrArg LocalTime.utc ((clock_lasting m.engine.clock).runAt rfl place)
  have ran := h.consistent.runAt place
  have grown := grown_runAt h.consistent place
  refine ⟨still, ?_⟩
  rw [agenda, keys, still]
  have dueFirst := taken.filter fun t => t.due ≤ m.engine.now
  rw [List.filter_cons_of_pos (by simpa using due)] at dueFirst
  refine lower_of_replaced dueFirst ?_ ?_
  · exact (List.Nodup.of_map Task.id ran.valid.ids_nodup).filter _
  · intro u hu
    obtain ⟨listed, dueNow⟩ := List.mem_filter.mp hu
    rcases grown.tasks u listed with old | ⟨r, i, raises, -, rfl⟩
    · exact .inl (List.mem_filter.mpr ⟨old, dueNow⟩)
    · exact .inr (h.rank_lt found raises (of_decide_eq_true dueNow))

/-- A due task that is taken and run lowers the agenda. -/
theorem Tame.step (h : Tame m) {t : EngineTask} {server : Dispatch.Server Ticket Duty Target}
    (ticked : m.engine.server.tick m.engine.now = (.ready t, server)) :
    ∃ next : Moment, next.engine = ((perform t).run { m.engine with server := server }).2 ∧
      Tame next ∧ next.engine.now = m.engine.now ∧
      Multiset.IsDershowitzMannaLT (agenda next) (agenda m) := by
  let out : Moment := ⟨{ m.engine with server := server }, m.handed ++ [t]⟩
  have handOut : m.handOut = out := by rw [Moment.handOut, ticked]
  have found : out.handed[m.handed.length]? = some t := by simp [out]
  have tame : Tame out := by
    have ticks := h.happen (.move .tick) (by rintro s ⟨⟩)
    simp only [Moment.happen, Moment.apply, handOut] at ticks
    exact ticks
  have look := Dispatch.Server.look_tick h.consistent.valid m.engine.now
  rw [ticked] at look
  cases look with
  | ready valid taken due first =>
    obtain ⟨still, lower⟩ := tame.agenda_lt found due taken
    refine ⟨out.runAt m.handed.length, ?_, ?_, still, lower⟩
    · rw [Moment.runAt, found]
    · exact tame.happen (.move (.run m.handed.length)) (by rintro s ⟨⟩)

/-- Running due tasks comes to an end, and then no task is due. -/
theorem Tame.runDue_ends (h : Tame m) : ∃ ran rest r,
    (∀ limit, ran.length < limit → runDue limit m.engine = ((ran, rest), r)) ∧ rest ≠ .limit ∧
      r.now = m.engine.now ∧ ∀ t ∈ r.server.queue.tasks, r.now < t.due := by
  -- By induction on the agenda, which every task that runs lowers.
  have ends := Multiset.wellFounded_isDershowitzMannaLT.apply (agenda m)
  generalize work : agenda m = ranks at ends
  induction ends generalizing m with
  | intro ranks _ ih =>
  subst work
  have look := Dispatch.Server.look_tick h.consistent.valid m.engine.now
  cases ticked : m.engine.server.tick m.engine.now with
  | mk answer server =>
  rw [ticked] at look
  cases look with
  | idle empty =>
    refine ⟨[], .idle, m.engine, fun limit more => ?_, nofun, rfl, fun t ht => ?_⟩
    · obtain ⟨n, rfl⟩ := Nat.exists_eq_succ_of_ne_zero (Nat.ne_of_gt more)
      simp only [runDue, ticked]
    · rw [empty] at ht
      cases ht
  | @wait nanos server valid same later =>
    refine ⟨[], .wait nanos, { m.engine with server := server }, fun limit more => ?_, nofun, rfl,
      fun t ht => later t (same.mem_iff.mp ht)⟩
    obtain ⟨n, rfl⟩ := Nat.exists_eq_succ_of_ne_zero (Nat.ne_of_gt more)
    simp only [runDue, ticked]
  | @ready t server valid taken due first =>
    obtain ⟨next, engine, tame, still, lower⟩ := h.step ticked
    obtain ⟨ran, rest, r, runs, ends, clock, later⟩ := ih _ lower tame rfl
    refine ⟨⟨t.handle.label, ((perform t).run { m.engine with server := server }).1⟩ :: ran, rest,
      r, fun limit enough => ?_, ends, clock.trans still, later⟩
    obtain ⟨n, rfl⟩ := Nat.exists_eq_succ_of_ne_zero (Nat.ne_zero_of_lt enough)
    have tail := runs n (Nat.lt_of_succ_lt_succ enough)
    rw [engine] at tail
    simp only [runDue, ticked, tail]

/-- Where no scene that is stored arms another, running due tasks comes to an end from every
state that an engine reaches, and then no task is due. -/
theorem runDue_quiesces {settings : Settings} {clock : LocalTime} {scenes : SceneStore}
    {devices : DeviceStore} {network : Network} {journal : Journal Ticket}
    {past : List (Moment × Event)} (stored : scenes.Reached)
    (armsNone : ∀ id s, scenes.get? id false = some s → s.ArmsNone)
    (history : Moment.History (fun _ event => ∀ s, event = .move (.save s) → s.ArmsNone)
      (Moment.fresh settings clock scenes devices network journal) past m) :
    ∃ ran rest r,
      (∀ limit, ran.length < limit → runDue limit m.engine = ((ran, rest), r)) ∧ rest ≠ .limit ∧
        r.now = m.engine.now ∧ ∀ t ∈ r.server.queue.tasks, r.now < t.due := by
  have tame : Tame m := by
    refine history.invariant ?_ fun s event ok h => h.happen event ok
    refine ⟨consistent_fresh _ _ _ _ _ _, stored.keyed, armsNone, ?_⟩
    rintro t ⟨⟩
  exact tame.runDue_ends

theorem relay_armsNone (own next : SceneId) : (relay own next).ArmsNone := by
  intro a listed target
  rw [List.mem_singleton.mp listed]
  nofun

/-- Two scenes that run each other, and arrangements that are days late. -/
theorem runDue_quiesces_circle :
    let a : SceneId := ⟨.ofNat 1⟩
    let b : SceneId := ⟨.ofNat 2⟩
    let events := [.move (.save (relay a b)), .move (.save (relay b a)), .start,
      .move (.addScene (relay a b)), .move (.advance ⟨3, .midnight⟩)]
    let first := Moment.fresh {} ⟨⟨0, .midnight⟩, 0⟩ {} {} default default
    let m := events.foldl Moment.happen first
    m.engine.server.queue.tasks.length = 2 ∧ ∃ ran rest r,
      (∀ limit, ran.length < limit → runDue limit m.engine = ((ran, rest), r)) ∧ rest ≠ .limit ∧
        r.now = m.engine.now ∧ ∀ t ∈ r.server.queue.tasks, r.now < t.due := by
  intro a b events first m
  have ok : ∀ event ∈ events, ∀ s, event = .move (.save s) → s.ArmsNone := by
    rintro event listed s rfl
    simp only [events, List.mem_cons, Event.move.injEq, Move.save.injEq, List.not_mem_nil] at listed
    rcases listed with rfl | rfl | listed
    · exact relay_armsNone a b
    · exact relay_armsNone b a
    · simp at listed
  obtain ⟨past, history⟩ : ∃ past, Moment.History
      (fun _ event => ∀ s, event = .move (.save s) → s.ArmsNone) first past m :=
    Moment.History.begin.append events fun event listed _ => ok event listed
  have queued : m.engine.server.queue.tasks.length = 2 := by decide +kernel
  have quiet := runDue_quiesces (m := m) .empty (fun id s found => nomatch found) history
  exact ⟨queued, quiet⟩

end Engine

end HomeScenes
