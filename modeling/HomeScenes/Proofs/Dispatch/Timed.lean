import HomeScenes.Dispatch.Session
import HomeScenes.Proofs.Calendar.Clock
import HomeScenes.Proofs.Dispatch.Ledger

/-!
# Runs on virtual time

Virtual time goes on only while the loop has nothing to go on with, and never past the
instant at which the timer of its sleep goes off. A timer goes off at the first step of the
resolution that is not before its deadline. All else is as in any run: pushes, removals and
moves happen at any moment, and of several causes that are there together the loop may take
up any.
-/

namespace HomeScenes.Dispatch

theorem le_expiry (deadline : Nat) : deadline ≤ expiry deadline := by
  simp only [expiry, resolution]
  omega

/-- No step of the resolution lies between a deadline and its timer. -/
theorem expiry_le {a b : Nat} (h : a ≤ expiry b) : expiry a ≤ expiry b := by
  simp only [expiry, resolution] at h ⊢
  omega

theorem expiry_mono {a b : Nat} (h : a ≤ b) : expiry a ≤ expiry b :=
  expiry_le (Nat.le_trans h (le_expiry b))

variable {κ β ω : Type} [BEq κ] [Hashable κ]

/-- A cause is there for the loop to go on with, on virtual time. -/
def Stage.Ready (s : Stage κ β ω) (cause : Cause) : Prop :=
  ∃ l, s.loop = some l ∧ l.isReady s.server (expiry l.deadline ≤ s.now) cause = true

def Event.Timely (s : Stage κ β ω) : Event κ β ω → Prop
  | .pass nanos => (∀ cause, ¬ s.Ready cause) ∧
      ∀ l, s.loop = some l → l.ended = false → s.now + nanos ≤ expiry l.deadline
  | .turn cause _ => s.Ready cause
  | _ => True

/-- Events on virtual time, each of them allowed where it happens. -/
inductive Timed (allowed : Stage κ β ω → Event κ β ω → Prop) (clock : Nat → Instant)
    (s : Stage κ β ω) : List (Event κ β ω) → Stage κ β ω → Prop where
  | nil : Timed allowed clock s [] s
  | snoc {es : List (Event κ β ω)} {e : Event κ β ω} {r r' : Stage κ β ω}
      (before : Timed allowed clock s es r) (last : Step clock r e r') (timely : e.Timely r)
      (ok : allowed r e) : Timed allowed clock s (es ++ [e]) r'

/-- Nothing is pushed, removed, moved or told to the loop. -/
def Event.Inner : Event κ β ω → Prop
  | .pass _ => True
  | .turn .. => True
  | _ => False

def Event.Unstopped : Event κ β ω → Prop
  | .start signal => signal = .holding false
  | .write stop => stop = false
  | .drop => False
  | _ => True

/-- The stop signal says no at the start, and is neither written nor dropped. -/
def Event.Unsignaled : Event κ β ω → Prop
  | .start signal => signal = .holding false
  | .write _ => False
  | .drop => False
  | _ => True

def Event.Ordinary : Event κ β ω → Prop
  | .push t => t.due.Ordinary
  | .reschedule _ due _ => due.Ordinary
  | _ => True

variable {allowed may : Stage κ β ω → Event κ β ω → Prop} {clock : Nat → Instant}
  {s r s' : Stage κ β ω} {es es' : List (Event κ β ω)} {e : Event κ β ω} {l : Loop}

omit [BEq κ] [Hashable κ] in
theorem Event.Unsignaled.unstopped (unsignaled : e.Unsignaled) : e.Unstopped := by
  cases e with
  | start signal => exact unsignaled
  | write stop => exact unsignaled.elim
  | drop => exact unsignaled.elim
  | _ => trivial

omit [BEq κ] [Hashable κ] in
theorem Event.Inner.unsignaled (inner : e.Inner) : e.Unsignaled := by
  cases e with
  | pass nanos => trivial
  | turn cause handed => trivial
  | _ => exact inner.elim

theorem Timed.run (run : Timed allowed clock s es s') : Run clock s es s' := by
  induction run with
  | nil => exact .nil
  | snoc before last timely ok ih => exact ih.snoc last

theorem Timed.append (run : Timed allowed clock s es r) (more : Timed allowed clock r es' s') :
    Timed allowed clock s (es ++ es') s' := by
  induction more with
  | nil =>
    rw [List.append_nil]
    exact run
  | snoc before last timely ok ih =>
    rw [← List.append_assoc]
    exact ih.snoc last timely ok

theorem Timed.mono (run : Timed allowed clock s es s') (h : ∀ r e, allowed r e → may r e) :
    Timed may clock s es s' := by
  induction run with
  | nil => exact .nil
  | snoc before last timely ok ih => exact ih.snoc last timely (h _ _ ok)

def Event.nanos : Event κ β ω → Nat
  | .pass nanos => nanos
  | _ => 0

def Event.handed? : Event κ β ω → Option (Task κ β ω)
  | .turn _ handed => handed
  | _ => none

def stamped (now : Nat) : List (Event κ β ω) → List (Nat × Event κ β ω)
  | [] => []
  | e :: es => (now, e) :: stamped (now + e.nanos) es

/-- The tasks that are dispatched, with the instants at which they are. -/
def dispatches (now : Nat) (es : List (Event κ β ω)) : List (Nat × Task κ β ω) :=
  (stamped now es).filterMap fun p => p.2.handed?.map fun t => (p.1, t)

theorem step_now (h : Step clock s e s') : s'.now = s.now + e.nanos := by
  cases h <;> rfl

theorem Run.stamped_snoc (run : Run clock s es r) (e : Event κ β ω) :
    stamped s.now (es ++ [e]) = stamped s.now es ++ [(r.now, e)] := by
  suffices general : ∀ (es : List (Event κ β ω)) (now : Nat),
      stamped now (es ++ [e]) = stamped now es ++ [(now + (es.map Event.nanos).sum, e)] by
    suffices total : r.now = s.now + (es.map Event.nanos).sum by
      rw [general, total]
    induction run with
    | nil => rfl
    | snoc before last ih =>
      rw [step_now last, ih, List.map_append, List.sum_append]
      simp [Nat.add_assoc]
  intro es
  induction es with
  | nil => exact fun now => rfl
  | cons e' es ih =>
    intro now
    simp [stamped, ih, Nat.add_assoc]

theorem Run.dispatches_snoc (run : Run clock s es r) (e : Event κ β ω) :
    dispatches s.now (es ++ [e]) =
      dispatches s.now es ++ (e.handed?.map fun t => (r.now, t)).toList := by
  rw [dispatches, run.stamped_snoc, List.filterMap_append, dispatches]
  cases h : e.handed? <;> simp [h]

end HomeScenes.Dispatch
