import HomeScenes.Proofs.Dispatch.Turns

/-!
# Sessions are runs on virtual time

What a session comes to while time passes is a run on virtual time, if nothing has told the loop
to end and the world around it does no more to the server than push, remove and move tasks. So
what holds of all such runs holds of a session.
-/

namespace HomeScenes.Dispatch

variable {σ κ β ω : Type} [BEq κ] [Hashable κ]

/-- What a world may do to its server at one instant. -/
inductive Served (may : Event κ β ω → Prop) (s : Server κ β ω) : Server κ β ω → Prop where
  | refl : Served may s s
  | push {r : Server κ β ω} (before : Served may s r) (t : Task κ β ω) (ok : may (.push t))
      (ordinary : t.due.Ordinary) (fresh : ∀ u ∈ r.queue.tasks, u.id ≠ t.id) :
      Served may s (r.push t)
  | remove {r q : Server κ β ω} {id : κ} {found : Bool} (before : Served may s r)
      (h : r.remove id = (found, q)) (ok : may (.remove id found)) : Served may s q
  | reschedule {r q : Server κ β ω} {id : κ} {due : Instant} {found : Bool}
      (before : Served may s r) (h : r.reschedule id due = (found, q))
      (ok : may (.reschedule id due found)) (ordinary : due.Ordinary) : Served may s q

/-- Work that leaves the clock alone and does to the server what it may, whatever the world is like
after its pauses. -/
def Serves (h : Host σ κ β ω) (may : Event κ β ω → Prop) {α : Type} : Work σ α → σ → Prop
  | .done _, _ => True
  | .look next, w => Serves h may (next w) w
  | .put r next, w => Served may (h.server w) (h.server r) ∧ h.clock r = h.clock w ∧
      Serves h may next r
  | .pause _ next, _ => ∀ w, Serves h may next w

/-- A host whose clock goes with virtual time, and whose tasks and listeners do what they may. -/
structure Host.Lawful (h : Host σ κ β ω) (may : Event κ β ω → Prop) : Prop where
  server_withServer : ∀ s w, h.server (h.withServer s w) = s
  clock_withServer : ∀ s w, h.clock (h.withServer s w) = h.clock w
  server_pass : ∀ n w, h.server (h.pass n w) = h.server w
  clock_pass : ∀ (n : Nat) w, h.clock (h.pass n w) = (h.clock w).shift n
  perform : ∀ t w, Serves h may (h.perform t) w
  server_react : ∀ w, Served may (h.server w) (h.server (h.react w))
  clock_react : ∀ w, h.clock (h.react w) = h.clock w

namespace Session

def stage (h : Host σ κ β ω) (now : Nat) (s : Session σ) : Stage κ β ω :=
  ⟨h.server s.world, s.loop, now⟩

structure Fit (h : Host σ κ β ω) (may : Event κ β ω → Prop) (epoch : Instant) (now : Nat)
    (s : Session σ) : Prop where
  clock : h.clock s.world = Instant.clockFrom epoch now
  paused : ∀ p ∈ s.paused, ∀ w, Serves h may p.rest w
  sound : (s.stage h now).Sound

/-- What happens to a session at one instant is a run, and nothing but a notification comes up
that the loop may go on with. -/
structure Goes (h : Host σ κ β ω) (may : Event κ β ω → Prop) (epoch : Instant) (now : Nat)
    (s r : Session σ) : Prop where
  fit : r.Fit h may epoch now
  run : ∃ es, Timed (fun _ e => e.Inner ∨ may e) (Instant.clockFrom epoch) (s.stage h now) es
    (r.stage h now)
  woken : ∀ cause, cause ≠ .notification → (r.stage h now).Ready cause → (s.stage h now).Ready cause

variable {h : Host σ κ β ω} {may : Event κ β ω → Prop} {epoch : Instant} {now : Nat}
  {s r q : Session σ}

theorem Fit.refl (fit : s.Fit h may epoch now) : Goes h may epoch now s s :=
  ⟨fit, ⟨[], .nil⟩, fun _ _ ready => ready⟩

theorem Goes.trans (first : Goes h may epoch now s r) (second : Goes h may epoch now r q) :
    Goes h may epoch now s q := by
  obtain ⟨es, run⟩ := first.run
  obtain ⟨es', run'⟩ := second.run
  exact ⟨second.fit, ⟨_, run.append run'⟩,
    fun cause other ready => first.woken cause other (second.woken cause other ready)⟩

variable [LawfulBEq κ]

theorem Served.run (he : epoch.Ordinary) {a b : Server κ β ω} (served : Served may a b)
    {l : Option Loop} (sound : (⟨a, l, now⟩ : Stage κ β ω).Sound) :
    (∃ es, Timed (fun _ e => e.Inner ∨ may e) (Instant.clockFrom epoch) ⟨a, l, now⟩ es ⟨b, l, now⟩) ∧
      (⟨b, l, now⟩ : Stage κ β ω).Sound := by
  induction served with
  | refl => exact ⟨⟨[], .nil⟩, sound⟩
  | @push r before t ok ordinary fresh ih =>
    obtain ⟨⟨es, run⟩, sound⟩ := ih
    have step : Step (Instant.clockFrom epoch) ⟨r, l, now⟩ (.push t) ⟨r.push t, l, now⟩ := .push t
    exact ⟨⟨_, run.snoc step trivial (.inr ok)⟩, sound.step he step trivial trivial ordinary fresh⟩
  | @remove r q id found before removed ok ih =>
    obtain ⟨⟨es, run⟩, sound⟩ := ih
    have step : Step (Instant.clockFrom epoch) ⟨r, l, now⟩ (.remove id found) ⟨q, l, now⟩ :=
      .remove removed
    exact ⟨⟨_, run.snoc step trivial (.inr ok)⟩, sound.step he step trivial trivial trivial trivial⟩
  | @reschedule r q id due found before moved ok ordinary ih =>
    obtain ⟨⟨es, run⟩, sound⟩ := ih
    have step : Step (Instant.clockFrom epoch) ⟨r, l, now⟩ (.reschedule id due found) ⟨q, l, now⟩ :=
      .reschedule moved
    exact ⟨⟨_, run.snoc step trivial (.inr ok)⟩, sound.step he step trivial trivial ordinary trivial⟩

/-- The world around the loop does what it may. -/
theorem Fit.world (he : epoch.Ordinary) (fit : s.Fit h may epoch now) {w : σ}
    (served : Served may (h.server s.world) (h.server w)) (clock : h.clock w = h.clock s.world) :
    Goes h may epoch now s { s with world := w } := by
  obtain ⟨run, sound⟩ := Served.run he served fit.sound
  refine ⟨⟨clock.trans fit.clock, fit.paused, sound⟩, run, ?_⟩
  rintro cause other ⟨l, here, ready⟩
  refine ⟨l, here, ?_⟩
  cases cause with
  | notification => exact absurd rfl other
  | signal => exact ready
  | timer => exact ready

theorem Fit.carryOut (he : epoch.Ordinary) (fit : s.Fit h may epoch now) {w : Work σ Unit}
    (serves : Serves h may w s.world) : Goes h may epoch now s (s.carryOut now w) := by
  induction w generalizing s with
  | done a => exact fit.refl
  | look next ih => exact ih s.world fit serves
  | put r next ih =>
    obtain ⟨served, clock, rest⟩ := serves
    have put := fit.world he served clock
    exact put.trans (ih put.fit rest)
  | pause nanos next ih =>
    by_cases short : nanos = 0
    · have same : s.carryOut now (.pause nanos next) = s.carryOut now next := by
        rw [Session.carryOut, Work.advance, if_pos short]
        rfl
      rw [same]
      exact ih fit (serves s.world)
    · have same : s.carryOut now (.pause nanos next) =
          { s with paused := s.paused ++ [⟨now + nanos, next⟩] } := by
        rw [Session.carryOut, Work.advance, if_neg short]
      rw [same]
      refine ⟨⟨fit.clock, fun p hp => ?_, fit.sound⟩, ⟨[], .nil⟩, fun _ _ ready => ready⟩
      rcases List.mem_append.mp hp with old | new
      · exact fit.paused p old
      · rw [List.mem_singleton.mp new]
        exact serves

/-- The loop takes a turn, before the task that it hands out does anything. -/
theorem Fit.turn (he : epoch.Ordinary) (lawful : h.Lawful may)
    (fit : s.Fit h may epoch now) {cause : Cause} {l : Loop} (here : s.loop = some l)
    (ready : l.isReady (h.server s.world) (expiry l.deadline ≤ now) cause = true)
    {after : Loop.Step κ β ω}
    (taken : l.step (h.server s.world) now (h.clock s.world) cause = after) :
    let r : Session σ :=
      { s with world := h.withServer after.server s.world, loop := some after.loop }
    Goes h may epoch now s r ∧ ¬ (r.stage h now).Ready cause ∧
      (cause = .notification → after.dispatched = none) := by
  intro r
  have there : (s.stage h now).Ready cause := ⟨l, here, ready⟩
  have going := fit.sound.going l here
  have stage : r.stage h now = ⟨after.server, some after.loop, now⟩ := by
    rw [Session.stage, lawful.server_withServer]
  have step : Step (Instant.clockFrom epoch) (s.stage h now) (.turn cause after.dispatched)
      (r.stage h now) := by
    rw [fit.clock] at taken
    rw [stage]
    exact .turn cause here (isReady_of_expiry ready) taken
  have turned := going.turned fit.sound.valid step
  have sound := turned.sound he fit.sound going
  refine ⟨⟨⟨?_, fit.paused, sound⟩, ⟨_, .snoc .nil step there (.inl trivial)⟩, ?_⟩, ?_, ?_⟩
  · exact (lawful.clock_withServer _ _).trans fit.clock
  · exact fun next _ still => (turned.ready_of_ready he fit.sound going still).1
  · exact fun still => (turned.ready_of_ready he fit.sound going still).2 rfl
  · rintro rfl
    generalize after.dispatched = handed at turned
    generalize r.stage h now = next at turned
    cases turned
    rfl

/-- The loop goes on with a cause if it is there, and afterwards it is not. -/
theorem Fit.poll (he : epoch.Ordinary) (lawful : h.Lawful may)
    (fit : s.Fit h may epoch now) (cause : Cause) : Goes h may epoch now s (s.poll h now cause) ∧
      ¬ ((s.poll h now cause).stage h now).Ready cause := by
  rw [Session.poll]
  cases here : s.loop with
  | none =>
    refine ⟨fit.refl, ?_⟩
    rintro ⟨l, there, -⟩
    cases here.symm.trans there
  | some l =>
    dsimp only
    split
    · rename_i ready
      obtain ⟨turn, gone, silent⟩ := fit.turn he lawful here ready rfl
      split
      · exact ⟨turn, gone⟩
      · rename_i task handed
        have other : cause ≠ .notification := by
          intro same
          rw [silent same] at handed
          cases handed
        have out := turn.fit.carryOut he (lawful.perform task _)
        exact ⟨turn.trans out, fun still => gone (out.woken cause other still)⟩
    · rename_i unready
      refine ⟨fit.refl, ?_⟩
      rintro ⟨k, there, ready⟩
      cases here.symm.trans there
      exact unready ready

/-- Tasks whose pause is over go on. -/
theorem Fit.resume (he : epoch.Ordinary) (fit : s.Fit h may epoch now) :
    Goes h may epoch now s (s.resume now) := by
  suffices each : ∀ (ps : List (Paused σ)), (∀ p ∈ ps, ∀ w, Serves h may p.rest w) →
      ∀ {r : Session σ}, r.Fit h may epoch now →
        Goes h may epoch now r (ps.foldl (fun s p => s.carryOut now p.rest) r) by
    have left : ({ s with paused := s.paused.filter fun p => !(expiry p.wakes ≤ now) } :
        Session σ).Fit h may epoch now :=
      ⟨fit.clock, fun p hp => fit.paused p (List.mem_filter.mp hp).1, fit.sound⟩
    have first : Goes h may epoch now s
        { s with paused := s.paused.filter fun p => !(expiry p.wakes ≤ now) } :=
      ⟨left, ⟨[], .nil⟩, fun _ _ ready => ready⟩
    exact first.trans (each _ (fun p hp => fit.paused p (List.mem_filter.mp hp).1) left)
  intro ps
  induction ps with
  | nil => exact fun _ r fit => fit.refl
  | cons p ps ih =>
    intro all r fit
    have out := fit.carryOut he (all p List.mem_cons_self r.world)
    exact out.trans (ih (fun q hq => all q (List.mem_cons_of_mem p hq)) out.fit)

/-- All that happens at one instant leaves nothing for the loop to go on with. -/
theorem Fit.settle (he : epoch.Ordinary) (lawful : h.Lawful may)
    (fit : s.Fit h may epoch now) : Goes h may epoch now s (s.settle h now) ∧
      ∀ cause, ¬ ((s.settle h now).stage h now).Ready cause := by
  obtain ⟨first, -⟩ := fit.poll he lawful .signal
  obtain ⟨second, -⟩ := first.fit.poll he lawful .notification
  obtain ⟨third, timer⟩ := second.fit.poll he lawful .timer
  have fourth := third.fit.resume he
  have fifth := fourth.fit.world he (lawful.server_react _) (lawful.clock_react _)
  obtain ⟨sixth, signal⟩ := fifth.fit.poll he lawful .signal
  obtain ⟨last, notification⟩ := sixth.fit.poll he lawful .notification
  have later := ((fourth.trans fifth).trans sixth).trans last
  refine ⟨((first.trans second).trans third).trans later, ?_⟩
  intro cause ready
  cases cause with
  | signal => exact signal (last.woken _ (by decide) ready)
  | notification => exact notification ready
  | timer => exact timer (later.woken _ (by decide) ready)

omit [BEq κ] [Hashable κ] [LawfulBEq κ] in
/-- The next event lies ahead, and no timer goes off before it. -/
theorem nextEvent_spec {target : Nat} (ahead : now < target) (s : Session σ) :
    now < s.nextEvent now target ∧ s.nextEvent now target ≤ target ∧
      ∀ t ∈ s.timers, now < t → s.nextEvent now target ≤ t := by
  suffices fold : ∀ (ts : List Nat) (target : Nat), now < target → (∀ t ∈ ts, now < t) →
      now < ts.foldl min target ∧ ts.foldl min target ≤ target ∧
        ∀ t ∈ ts, ts.foldl min target ≤ t by
    obtain ⟨later, within, first⟩ := fold (s.timers.filter (now < ·)) target ahead
      fun t ht => of_decide_eq_true (List.mem_filter.mp ht).2
    exact ⟨later, within, fun t ht after => first t (List.mem_filter.mpr ⟨ht, decide_eq_true after⟩)⟩
  intro ts
  induction ts with
  | nil =>
    intro target ahead _
    exact ⟨ahead, Nat.le_refl _, by rintro t ⟨⟩⟩
  | cons t ts ih =>
    intro target ahead all
    have near := all t List.mem_cons_self
    obtain ⟨later, within, first⟩ := ih (min target t) (by omega)
      fun u hu => all u (List.mem_cons_of_mem t hu)
    rw [List.foldl_cons]
    refine ⟨later, by omega, fun u hu => ?_⟩
    rcases List.mem_cons.mp hu with rfl | hu
    · omega
    · exact first u hu

/-- Time may pass up to the next event when nothing is left to go on with. -/
theorem Fit.pass (he : epoch.Ordinary) (lawful : h.Lawful may)
    (fit : s.Fit h may epoch now) (idle : ∀ cause, ¬ (s.stage h now).Ready cause) {target : Nat}
    (ahead : now < target) :
    let next := s.nextEvent now target
    let r : Session σ := { s with world := h.pass (next - now) s.world }
    r.Fit h may epoch next ∧ ∃ es, Timed (fun _ e => e.Inner ∨ may e) (Instant.clockFrom epoch)
      (s.stage h now) es (r.stage h next) := by
  intro next r
  obtain ⟨later, -, first⟩ := s.nextEvent_spec ahead
  have whole : now + (next - now) = next := by omega
  have stage : r.stage h next = { s.stage h now with now := now + (next - now) } := by
    rw [whole, Session.stage, lawful.server_pass]
    rfl
  have timely : (.pass (next - now) : Event κ β ω).Timely (s.stage h now) := by
    refine ⟨idle, fun l here running => ?_⟩
    have asleep : now < expiry l.deadline := by
      by_contra elapsed
      refine idle .timer ⟨l, here, ?_⟩
      simp only [Loop.isReady, running, Bool.not_false, Bool.true_and, decide_eq_true_eq]
      exact Nat.not_lt.mp elapsed
    have listed : expiry l.deadline ∈ s.timers := by
      have here : s.loop = some l := here
      rw [Session.timers, here]
      simp [running]
    have bound := first _ listed asleep
    change now + (next - now) ≤ expiry l.deadline
    omega
  have step : Step (Instant.clockFrom epoch) (s.stage h now) (.pass (next - now))
      (r.stage h next) := by
    rw [stage]
    exact .pass _
  refine ⟨⟨?_, fit.paused, fit.sound.step he step timely trivial trivial trivial⟩, _,
    .snoc .nil step timely (.inl trivial)⟩
  rw [← whole, ← Instant.shift_clockFrom he, ← fit.clock]
  exact lawful.clock_pass _ _

/-- Letting time pass in a session is a run on virtual time up to the instant that it is to reach,
at which the loop has nothing left to go on with. -/
theorem Fit.advance (he : epoch.Ordinary) (lawful : h.Lawful may)
    (fit : s.Fit h may epoch now) (idle : ∀ cause, ¬ (s.stage h now).Ready cause) {target : Nat}
    (le : now ≤ target) :
    (s.advance h now target).Fit h may epoch target ∧
      (∀ cause, ¬ ((s.advance h now target).stage h target).Ready cause) ∧
      ∃ es, Timed (fun _ e => e.Inner ∨ may e) (Instant.clockFrom epoch) (s.stage h now) es
        ((s.advance h now target).stage h target) := by
  induction left : target - now using Nat.strongRecOn generalizing now s with
  | ind n ih =>
    rw [Session.advance]
    by_cases ahead : now < target
    · obtain ⟨later, within, -⟩ := s.nextEvent_spec ahead
      obtain ⟨passed, es, run⟩ := fit.pass he lawful idle ahead
      obtain ⟨settled, quiet⟩ := passed.settle he lawful
      obtain ⟨es', run'⟩ := settled.run
      obtain ⟨done, still, es'', run''⟩ := ih _ (by omega) settled.fit quiet within rfl
      rw [dif_pos ahead, dif_pos later]
      exact ⟨done, still, _, (run.append run').append run''⟩
    · obtain rfl : now = target := by omega
      rw [dif_neg ahead]
      exact ⟨fit, idle, [], .nil⟩

theorem Fit.start (he : epoch.Ordinary) (fit : s.Fit h may epoch now) (absent : s.loop = none)
    (ok : may (.start (.holding false))) : (s.start now false).Fit h may epoch now ∧
      ∃ es, Timed (fun _ e => e.Inner ∨ may e) (Instant.clockFrom epoch) (s.stage h now) es
        ((s.start now false).stage h now) := by
  have step : Step (Instant.clockFrom epoch) (s.stage h now) (.start (.holding false))
      ((s.start now false).stage h now) := .start _ absent
  exact ⟨⟨fit.clock, fit.paused, fit.sound.step he step trivial rfl trivial trivial⟩, _,
    .snoc .nil step trivial (.inr ok)⟩

theorem Fit.touch (he : epoch.Ordinary) (fit : s.Fit h may epoch now) (ok : may (.write false)) :
    (s.write false).2.Fit h may epoch now ∧
      ∃ es, Timed (fun _ e => e.Inner ∨ may e) (Instant.clockFrom epoch) (s.stage h now) es
        ((s.write false).2.stage h now) := by
  cases here : s.loop with
  | none =>
    rw [Session.write, here]
    exact ⟨fit, [], .nil⟩
  | some l =>
    have going := fit.sound.going l here
    have written : (s.write false).2 =
        { s with loop := some { l with signal := l.signal.write false } } := by
      rw [Session.write, here]
      simp only [going.running, Bool.false_eq_true, if_false]
    have step : Step (Instant.clockFrom epoch) (s.stage h now) (.write false)
        (Session.stage h now { s with loop := some { l with signal := l.signal.write false } }) :=
      .write false here going.held
    rw [written]
    exact ⟨⟨fit.clock, fit.paused, fit.sound.step he step trivial rfl trivial trivial⟩, _,
      .snoc .nil step trivial (.inr ok)⟩

/-- Sessions that are come to: the world changes, the loop is started, the signal is touched, and
time passes. -/
inductive Played (h : Host σ κ β ω) (may : Event κ β ω → Prop) (epoch : Instant) :
    Nat → Session σ → Prop where
  | begin (w : σ) (server : h.server w = .empty) (clock : h.clock w = Instant.clockFrom epoch 0) :
      Played h may epoch 0 (.ofWorld w)
  | world {now : Nat} {s : Session σ} (before : Played h may epoch now s) {w : σ}
      (served : Served may (h.server s.world) (h.server w)) (clock : h.clock w = h.clock s.world) :
      Played h may epoch now { s with world := w }
  | start {now : Nat} {s : Session σ} (before : Played h may epoch now s) (absent : s.loop = none)
      (ok : may (.start (.holding false))) : Played h may epoch now (s.start now false)
  | touch {now : Nat} {s : Session σ} (before : Played h may epoch now s)
      (ok : may (.write false)) : Played h may epoch now (s.write false).2
  | sleep {now target : Nat} {s : Session σ} (before : Played h may epoch now s)
      (le : now ≤ target) : Played h may epoch target ((s.settle h now).advance h now target)

/-- Whatever a session comes to is what a run on virtual time comes to, from the beginning. -/
theorem Played.run (he : epoch.Ordinary) (lawful : h.Lawful may) (played : Played h may epoch now s) :
    s.Fit h may epoch now ∧ ∃ es, Timed (fun _ e => e.Inner ∨ may e) (Instant.clockFrom epoch)
      .empty es (s.stage h now) := by
  induction played with
  | begin w server clock =>
    have stage : (Session.ofWorld w).stage h 0 = Stage.empty := by
      rw [Session.stage, Session.ofWorld, server]
      rfl
    have sound : ((Session.ofWorld w).stage h 0).Sound := by
      rw [stage]
      exact .empty
    refine ⟨⟨clock, by rintro p ⟨⟩, sound⟩, [], ?_⟩
    rw [stage]
    exact .nil
  | world before served clock ih =>
    obtain ⟨fit, es, run⟩ := ih
    have goes := fit.world he served clock
    obtain ⟨es', run'⟩ := goes.run
    exact ⟨goes.fit, _, run.append run'⟩
  | start before absent ok ih =>
    obtain ⟨fit, es, run⟩ := ih
    obtain ⟨fit, es', run'⟩ := fit.start he absent ok
    exact ⟨fit, _, run.append run'⟩
  | touch before ok ih =>
    obtain ⟨fit, es, run⟩ := ih
    obtain ⟨fit, es', run'⟩ := fit.touch he ok
    exact ⟨fit, _, run.append run'⟩
  | sleep before le ih =>
    obtain ⟨fit, es, run⟩ := ih
    obtain ⟨settled, idle⟩ := fit.settle he lawful
    obtain ⟨es', run'⟩ := settled.run
    obtain ⟨fit, -, es'', run''⟩ := settled.fit.advance he lawful idle le
    exact ⟨fit, _, (run.append run').append run''⟩

end Session

def plainHost (epoch : Instant) : Host (Server κ β ω × Nat) κ β ω where
  server w := w.1
  withServer s w := (s, w.2)
  clock w := Instant.clockFrom epoch w.2
  pass n w := (w.1, w.2 + n)
  perform _ := .done ()
  react w := w

theorem plainHost_lawful {epoch : Instant} (he : epoch.Ordinary) (may : Event κ β ω → Prop) :
    (plainHost epoch : Host (Server κ β ω × Nat) κ β ω).Lawful may where
  server_withServer _ _ := rfl
  clock_withServer _ _ := rfl
  server_pass _ _ := rfl
  clock_pass n w := (Instant.shift_clockFrom he w.2 n).symm
  perform _ _ := trivial
  server_react _ := .refl
  clock_react _ := rfl

end HomeScenes.Dispatch
