import HomeScenes.Proofs.Engine.History
import HomeScenes.Proofs.Engine.Rearming

/-!
# What an event schedules

Timer firings come into the queue in two ways. One scene is scheduled, because it is armed,
restarted or asked for: it gets what is ahead of it today and, late in the day, what it has
tomorrow if it repeats then. Or all live scenes that repeat on a day are scheduled for that day.
What an event queues for timers is told once, in `dues_happen`.
-/

namespace HomeScenes

namespace Moment

/-- Tasks that are queued or were handed out and have not run. -/
def waiting (m : Moment) : List EngineTask :=
  m.engine.server.queue.tasks ++ m.handed

/-- The stores work, and what is asked for from outside is told in the offset of the clock. -/
def OnClock (m : Moment) : Event → Prop
  | .outage _ => False
  | .arrange time => time.offset = m.engine.clock.offset
  | .move (.addForDay day) => day.offset = m.engine.clock.offset
  | _ => True

def Books (m : Moment) (scene : SceneId) (s : Scene) : Event → Prop
  | .move (.addScene given) => given = s ∧ s.id = scene
  | .move (.addById id) => id = scene ∧ m.engine.scenes.get? scene false = some s
  | .move (.restart id) => id = scene ∧ m.engine.scenes.get? scene false = some s
  | .move (.arm id) => id = scene ∧ m.engine.scenes.get? scene false = some s
  | .move (.run place) => m.engine.scenes.get? scene false = some s ∧
      ∃ t lineage, m.handed[place]? = some t ∧ t.body = .act (.enable scene) lineage
  | _ => False

/-- The live scenes that repeat on a day are scheduled for it. -/
def Lists (m : Moment) (day : LocalTime) : Event → Prop
  | .start => day = m.engine.clock
  | .move (.addForDay own) => day = own
  | .move (.run place) => ∃ t time, m.handed[place]? = some t ∧ t.body = .arrange time ∧
      day = time.addDays 1
  | _ => False

/-- A version of a scene is scheduled for a day. -/
inductive Plans (m : Moment) (event : Event) (scene : SceneId) (s : Scene) : LocalTime → Prop where
  | today (books : m.Books scene s event) : Plans m event scene s m.engine.clock
  | tomorrow (books : m.Books scene s event)
      (repeats : s.repeatsOn (m.engine.clock.addDays 1).weekday = true) :
      Plans m event scene s (m.engine.clock.addDays 1)
  | listed {day : LocalTime} (lists : m.Lists day event)
      (stored : m.engine.scenes.get? scene false = some s)
      (repeats : s.repeatsOn day.weekday = true) : Plans m event scene s day

/-- A timer firing of a scene that an event queues may be due at an instant. -/
def Brings (m : Moment) (event : Event) (scene : SceneId) (x : Instant) : Prop :=
  ∃ s day, m.Plans event scene s day ∧
    x ∈ (Engine.timerFirings day m.engine.clock s).map Errand.due

end Moment

namespace Engine

variable {given : Settings} {m : Moment} {e : Engine} {id : SceneId} {x : Instant} {event : Event}

/-- Index and queue agree, the store works and is in order, and the arrangements are those of the
clock. -/
structure Working (given : Settings) (m : Moment) : Prop where
  consistent : Consistent m.engine m.handed
  stored : Stored given (fun _ _ => True) m.engine
  aligned : ∀ t ∈ m.waiting, ∀ time, t.body = .arrange time → time.offset = m.engine.clock.offset

theorem working_fresh (settings : Settings) (clock : LocalTime) {scenes : SceneStore}
    (devices : DeviceStore) (network : Network) (journal : Journal Ticket) (keyed : scenes.Keyed) :
    Working settings (Moment.fresh settings clock scenes devices network journal) where
  consistent := consistent_fresh settings clock scenes devices network journal
  stored := ⟨rfl, rfl, keyed, fun _ _ _ => trivial⟩
  aligned := by rintro t ⟨⟩

/-- A property of stored settings and the clock that every event keeps. -/
theorem Lasting.happen {P : Engine → Prop} (lasting : Lasting P)
    (clock : ∀ {e : Engine} (utc : Instant), P e → P { e with clock := { e.clock with utc := utc } })
    (saved : ∀ {e : Engine} {s : Scene} {scenes : SceneStore}, P e → e.scenes.save s = .ok scenes →
      P { e with scenes := scenes })
    (h : P m.engine) (ok : m.OnClock event) : P (m.happen event).engine := by
  cases event with
  | start =>
    rcases start_cases m.engine with ⟨failure, -, same⟩ | ⟨-, same⟩
    · simpa only [Moment.happen, same] using h
    · simp only [Moment.happen, same]
      exact lasting.queue (lasting.stable.toRooted.enqueueAll h dayFirings_root) _ _ _
  | arrange time => exact lasting.queue h _ _ _
  | outage outages => exact ok.elim
  | move move =>
    by_cases moves : ∃ s, move = .save s
    · obtain ⟨s, rfl⟩ := moves
      simp only [Moment.happen, Moment.apply, saveScene, changeScenes]
      split
      · exact h
      · split
        · exact h
        · rename_i done
          exact saved h done
    · by_cases still : ∃ utc, move = .advance utc
      · obtain ⟨utc, rfl⟩ := still
        exact clock utc h
      · exact lasting.apply h (fun s same => moves ⟨s, same⟩) fun utc same => still ⟨utc, same⟩

theorem Stored.happen (h : Stored given (fun _ _ => True) m.engine) (ok : m.OnClock event) :
    Stored given (fun _ _ => True) (m.happen event).engine :=
  (stored_lasting given _).happen (fun _ h => ⟨h.working, h.settings, h.keyed, h.timings⟩)
    (fun h done => ⟨h.working, h.settings, h.keyed.save done, fun _ _ _ => trivial⟩) h ok

theorem offset_happen (ok : m.OnClock event) :
    (m.happen event).engine.clock.offset = m.engine.clock.offset := by
  have lasting : Lasting fun e : Engine => e.clock.offset = m.engine.clock.offset :=
    ⟨fun h _ _ _ => h, fun h _ => h, fun h _ => h, fun h _ _ _ _ => h⟩
  exact lasting.happen (fun _ h => h) (fun h _ => h) rfl ok

theorem waiting_happen (hc : Consistent m.engine m.handed) {t : EngineTask}
    (ht : t ∈ (m.happen event).waiting) :
    t ∈ m.waiting ∨ ∃ r i, m.Raises event r ∧ t = r.task i := by
  rcases List.mem_append.mp ht with queued | handed
  · rcases (grown_happen hc event).tasks t queued with old | ⟨r, i, raised, -, same⟩
    · exact .inl (List.mem_append_left _ old)
    · exact .inr ⟨r, i, raised, same⟩
  · rcases handed_happen hc event t handed with old | ⟨old, -⟩
    · exact .inl (List.mem_append_right _ old)
    · exact .inl (List.mem_append_left _ old)

theorem Working.arranged_offset (h : Working given m) (ok : m.OnClock event) {r : Errand}
    {time : LocalTime} (raised : m.Raises event r) (duty : r.duty = .arrange time) :
    time.offset = m.engine.clock.offset := by
  have other : r.duty.arrangement? ≠ none := by
    rw [duty]
    exact Option.some_ne_none time
  cases raised with
  | root _ root => exact absurd root.no_arrangement other
  | sown _ _ root => exact absurd root.no_arrangement other
  | child _ child => exact absurd child.plain.2 other
  | opened opens =>
    cases duty
    cases event with
    | start =>
      obtain ⟨_, -, rfl⟩ := Option.map_eq_some_iff.mp opens
      rfl
    | arrange own =>
      cases opens
      exact ok
    | _ => cases opens
  | next found body =>
    cases duty
    rw [LocalTime.addDays_offset]
    exact h.aligned _ (List.mem_append_right _ (List.mem_of_getElem? found)) _ body

theorem Working.happen (h : Working given m) (ok : m.OnClock event) :
    Working given (m.happen event) where
  consistent := h.consistent.happen event
  stored := h.stored.happen ok
  aligned := by
    intro t ht time duty
    rw [offset_happen ok]
    rcases waiting_happen h.consistent ht with old | ⟨r, i, raised, rfl⟩
    · exact h.aligned t old time duty
    · exact h.arranged_offset ok raised duty

/-- Scenes are scheduled for days of the clock. -/
theorem Working.plans_offset (h : Working given m) (ok : m.OnClock event) {s : Scene}
    {day : LocalTime} (plans : m.Plans event id s day) : day.offset = m.engine.clock.offset := by
  cases plans with
  | today books => rfl
  | tomorrow books repeats => exact LocalTime.addDays_offset _ _
  | listed lists stored repeats =>
    cases event with
    | start => exact congrArg LocalTime.offset lists
    | arrange time => exact lists.elim
    | outage outages => exact lists.elim
    | move move =>
      cases move with
      | addForDay own => exact (congrArg LocalTime.offset lists).trans ok
      | run place =>
        obtain ⟨t, time, found, body, rfl⟩ := lists
        rw [LocalTime.addDays_offset]
        exact h.aligned t (List.mem_append_right _ (List.mem_of_getElem? found)) time body
      | _ => exact lists.elim

def Accounted (m : Moment) (event : Event) (id : SceneId) (xs : List Instant) : Prop :=
  ∀ x ∈ xs, x ∈ dues id m.engine.server.queue.tasks ∨ m.Brings event id x

theorem accounted_hereditary : Hereditary (Accounted m event) where
  nil _ _ hx := absurd hx List.not_mem_nil
  perm same h x hx := h x (same.mem_iff.mp hx)
  sublist fewer h x hx := h x (fewer.subset hx)

theorem Accounted.append {xs ys : List Instant} (hx : Accounted m event id xs)
    (hy : Accounted m event id ys) : Accounted m event id (xs ++ ys) :=
  fun x h => (List.mem_append.mp h).elim (hx x) (hy x)

theorem accounted_plans {s : Scene} {day : LocalTime} (plans : m.Plans event id s day) :
    Accounted m event id ((timerFirings day m.engine.clock s).map Errand.due) :=
  fun _ hx => .inr ⟨s, day, plans, hx⟩

theorem accounted_books {s : Scene} (books : m.Books id s event) (automatic : s.automatic = true) :
    Accounted m event id ((sceneFirings m.engine.settings m.engine.clock
      { s with armed := true }).map Errand.due) := by
  rw [sceneFirings_armed automatic, List.map_append]
  refine (accounted_plans (.today books)).append ?_
  split
  · rename_i late
    exact accounted_plans (.tomorrow books late.2)
  · exact fun x hx => absurd hx List.not_mem_nil

/-- After an event, a timer firing is due when an old one was, or when the event brings one. -/
theorem dues_happen (h : Working given m) (event : Event) (id : SceneId) :
    Accounted m event id (dues id (m.happen event).engine.server.queue.tasks) := by
  have hereditary : Hereditary (Accounted m event) := accounted_hereditary
  have before : EachDues (Accounted m event) m.engine := fun id x hx => .inl hx
  suffices after : EachDues (Accounted m event) (m.happen event).engine from after id
  have booked : ∀ scene, (∀ s, m.engine.scenes.get? scene false = some s → m.Books scene s event) →
      ArmedDue (Accounted m event) m.engine scene :=
    fun scene books s found automatic => accounted_books (books s found) automatic
  have listed : ∀ day, m.Lists day event → ∀ id s, m.engine.scenes.get? id false = some s →
      s.repeatsOn day.weekday = true → Accounted m event id (dues id m.engine.server.queue.tasks ++
        (timerFirings day m.engine.clock s).map Errand.due) :=
    fun day lists id s found repeats =>
      (before id).append (accounted_plans (.listed lists found repeats))
  cases event with
  | start => exact before.start hereditary h.stored (listed _ rfl)
  | arrange time => exact before.addArrangement hereditary time
  | outage outages => exact before
  | move move =>
    cases move with
    | addScene s =>
      refine before.addScene hereditary fun automatic => (before s.id).append ?_
      exact hereditary.sceneFirings automatic (accounted_books ⟨rfl, rfl⟩ automatic)
    | addById scene =>
      refine before.addById hereditary h.stored fun s found automatic => (before scene).append ?_
      exact hereditary.sceneFirings automatic (accounted_books ⟨rfl, found⟩ automatic)
    | addForDay day => exact before.addForDay hereditary h.stored (listed day rfl)
    | drop scene => exact before.drop hereditary h.consistent
    | restart scene =>
      exact before.restart hereditary h.consistent h.stored
        (booked scene fun s found => ⟨rfl, found⟩)
    | arm scene =>
      exact before.arm hereditary h.consistent h.stored (booked scene fun s found => ⟨rfl, found⟩)
    | disarm scene => exact before.disarm hereditary h.consistent h.stored
    | change device attr =>
      simp only [Moment.happen, Moment.apply,
        deviceChanged_eq m.engine device attr h.stored.working]
      refine before.enqueueAll hereditary fun r hr => ?_
      obtain ⟨s, -, rfl⟩ := List.mem_map.mp hr
      rfl
    | save s =>
      obtain ⟨scenes, same⟩ := saveScene_frame m.engine s
      simp only [Moment.happen, Moment.apply, same]
      exact before
    | deleteScene scene =>
      simp only [Moment.happen, Moment.apply, deleteScene, changeScenes]
      split
      · exact before
      · split <;> exact before
    | deleteDevice device =>
      simp only [Moment.happen, Moment.apply, deleteDevice]
      split
      · exact before
      · split <;> exact before
    | network network => exact before
    | advance utc => exact before
    | tick => exact before.handOut hereditary h.consistent.valid
    | run place =>
      cases found : m.handed[place]? with
      | none =>
        have same : m.happen (.move (.run place)) = m := runAt_none found
        rw [same]
        exact before
      | some t =>
        refine before.runAt hereditary h.consistent h.stored found (fun scene lineage duty => ?_)
          fun time duty id s stored _ _ repeats => ?_
        · exact booked scene fun s stored => ⟨stored, t, lineage, found, duty⟩
        · exact listed _ ⟨t, time, found, duty, rfl⟩ id s stored repeats

/-- So is a timer firing that waits, queued or handed out. -/
theorem timer_happen (h : Working given m) {t : EngineTask} (ht : t ∈ (m.happen event).waiting)
    (timer : t.body.timer? = some id) :
    (∃ u ∈ m.waiting, u.body.timer? = some id ∧ u.due = t.due) ∨ m.Brings event id t.due := by
  rcases List.mem_append.mp ht with queued | handed
  · rcases dues_happen h event id t.due (mem_dues.mpr ⟨t, queued, timer, rfl⟩) with old | brings
    · obtain ⟨u, hu, own⟩ := mem_dues.mp old
      exact .inl ⟨u, List.mem_append_left _ hu, own⟩
    · exact .inr brings
  · rcases handed_happen h.consistent event t handed with old | ⟨old, -⟩
    · exact .inl ⟨t, List.mem_append_right _ old, timer, rfl⟩
    · exact .inl ⟨t, List.mem_append_left _ old, timer, rfl⟩

end Engine

end HomeScenes
