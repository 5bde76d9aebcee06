import HomeScenes.Work
import Mathlib.Logic.Relation

/-!
# Work between pauses

What can be said of work that is carried out from pause to pause, while others change the state in
its pauses: how it may end, that each change it makes itself or each answer is of some kind, or that
it does the same on any two states that are related.
-/

namespace HomeScenes.Work

variable {σ α β : Type}

/-- Work that goes on with other work gets to its first pause, or to that of the other work. -/
theorem advance_bind (w : Work σ α) (f : α → Work σ β) (s : σ) :
    (w.bind f).advance s = match w.advance s with
      | (.finished a, r) => (f a).advance r
      | (.paused nanos rest, r) => (.paused nanos (rest.bind f), r) := by
  induction w generalizing s with
  | done a => rfl
  | look next ih => exact ih s s
  | put r next ih => exact ih r
  | pause nanos next ih =>
    rw [bind, advance, advance]
    split
    · exact ih s
    · rfl

/-- Every change that the work makes from a state on is related by `G`. After a pause it finds any
state at all. -/
def Within (G : σ → σ → Prop) : Work σ α → σ → Prop
  | done _, _ => True
  | look next, s => (next s).Within G s
  | put r next, s => G s r ∧ next.Within G r
  | pause _ next, _ => ∀ r, next.Within G r

variable {G : σ → σ → Prop} {w : Work σ α} {f : α → Work σ β} {s : σ}

/-- Every answer that the work may come to is of some kind, whatever it finds after its pauses. -/
def Answers (P : α → Prop) : Work σ α → Prop
  | done a => P a
  | look next => ∀ s, (next s).Answers P
  | put _ next => next.Answers P
  | pause _ next => next.Answers P

variable {P : α → Prop} {Q : β → Prop}

theorem answers_true (w : Work σ α) : w.Answers fun _ => True := by
  induction w with
  | done a => trivial
  | look next ih => exact ih
  | put r next ih => exact ih
  | pause nanos next ih => exact ih

theorem Answers.bind (h : w.Answers P) (hf : ∀ a, P a → (f a).Answers Q) :
    (w.bind f).Answers Q := by
  induction w with
  | done a => exact hf a h
  | look next ih => exact fun s => ih s (h s)
  | put r next ih => exact ih h
  | pause nanos next ih => exact ih h

/-- Work that goes on with other work, which depends on the answer. -/
theorem Within.bind_of (h : w.Within G s) (answers : w.Answers P)
    (hf : ∀ a, P a → ∀ r, (f a).Within G r) : (w.bind f).Within G s := by
  induction w generalizing s with
  | done a => exact hf a answers s
  | look next ih => exact ih s h (answers s)
  | put r next ih => exact ⟨h.1, ih h.2 answers⟩
  | pause nanos next ih => exact fun r => ih (h r) answers

theorem Within.bind (h : w.Within G s) (hf : ∀ a r, (f a).Within G r) : (w.bind f).Within G s :=
  h.bind_of (answers_true w) fun a _ => hf a

/-- Work of that kind that is carried out at once makes a change of that kind. -/
theorem Within.run (refl : ∀ s, G s s) (trans : ∀ a b c, G a b → G b c → G a c)
    (h : w.Within G s) : G s (w.run s).2 := by
  induction w generalizing s with
  | done a => exact refl s
  | look next ih => exact ih s h
  | put r next ih => exact trans _ _ _ h.1 (ih h.2)
  | pause nanos next ih => exact ih (h s)

/-- Work of that kind gets to its pause by a change of that kind, and goes on like that. -/
theorem Within.advance (refl : ∀ s, G s s) (trans : ∀ a b c, G a b → G b c → G a c)
    (h : w.Within G s) : G s (w.advance s).2 ∧
      ∀ nanos rest, (w.advance s).1 = .paused nanos rest → ∀ r, rest.Within G r := by
  induction w generalizing s with
  | done a =>
    refine ⟨refl s, ?_⟩
    rintro nanos rest ⟨⟩
  | look next ih => exact ih s h
  | put r next ih =>
    obtain ⟨changed, goesOn⟩ := ih h.2
    exact ⟨trans _ _ _ h.1 changed, goesOn⟩
  | pause nanos next ih =>
    rw [Work.advance]
    split
    · exact ih (h s)
    · refine ⟨refl s, ?_⟩
      rintro _ rest ⟨⟩
      exact h

/-- Work that is carried out from a state on may end with an answer in a state, when others change
the state in each of its pauses as they may. -/
inductive Ends (others : σ → σ → Prop) : Work σ α → σ → α → σ → Prop where
  | done (a : α) (s : σ) : Ends others (done a) s a s
  | look {next : σ → Work σ α} {s r : σ} {a : α} (rest : Ends others (next s) s a r) :
      Ends others (look next) s a r
  | put {next : Work σ α} {s s' r : σ} {a : α} (rest : Ends others next s' a r) :
      Ends others (put s' next) s a r
  | pause {nanos : Nat} {next : Work σ α} {s s' r : σ} {a : α} (change : others s s')
      (rest : Ends others next s' a r) : Ends others (pause nanos next) s a r

variable {others : σ → σ → Prop} {a : α} {r : σ}

@[simp] theorem ends_done {b : α} : (done b).Ends others s a r ↔ a = b ∧ r = s := by
  constructor
  · rintro ⟨⟩
    exact ⟨rfl, rfl⟩
  · rintro ⟨rfl, rfl⟩
    exact .done a r

@[simp] theorem ends_look {next : σ → Work σ α} :
    (look next).Ends others s a r ↔ (next s).Ends others s a r := by
  constructor
  · rintro ⟨⟩
    assumption
  · exact .look

@[simp] theorem ends_put {next : Work σ α} {s' : σ} :
    (put s' next).Ends others s a r ↔ next.Ends others s' a r := by
  constructor
  · rintro ⟨⟩
    assumption
  · exact .put

/-- Carried out at once, work ends as if others changed nothing. -/
theorem ends_run (w : Work σ α) (s : σ) : w.Ends Eq s (w.run s).1 (w.run s).2 := by
  induction w generalizing s with
  | done a => exact .done a s
  | look next ih => exact .look (ih s s)
  | put r next ih => exact .put (ih r)
  | pause nanos next ih => exact .pause rfl (ih s)

/-- Work that goes on with other work ends if it ends itself and then the other does. -/
theorem Ends.of_bind {b : β} (h : (w.bind f).Ends others s b r) :
    ∃ a m, w.Ends others s a m ∧ (f a).Ends others m b r := by
  induction w generalizing s with
  | done a => exact ⟨a, s, .done a s, h⟩
  | look next ih =>
    obtain ⟨a, m, first, second⟩ := ih s (ends_look.mp h)
    exact ⟨a, m, .look first, second⟩
  | put s' next ih =>
    obtain ⟨a, m, first, second⟩ := ih (ends_put.mp h)
    exact ⟨a, m, .put first, second⟩
  | pause nanos next ih =>
    cases h with
    | pause change rest =>
      obtain ⟨a, m, first, second⟩ := ih rest
      exact ⟨a, m, .pause change first, second⟩

/-- When work that changes nothing ends, others have made all the changes. -/
theorem Ends.by_others (h : w.Ends others s a r) (quiet : w.Within Eq s) :
    Relation.ReflTransGen others s r := by
  induction h with
  | done a s => exact .refl
  | look rest ih => exact ih quiet
  | put rest ih =>
    obtain ⟨rfl, quiet⟩ := quiet
    exact ih quiet
  | pause change rest ih => exact .head change (ih (quiet _))

/-- Works that do the same when they start on states that are related, and find related states
after each of their pauses. -/
inductive Alike (R : σ → σ → Prop) : Work σ α → Work σ α → Prop where
  | done (a : α) : Alike R (done a) (done a)
  | look {f g : σ → Work σ α} (next : ∀ s r, R s r → Alike R (f s) (g r)) :
      Alike R (look f) (look g)
  | put {s r : σ} {v w : Work σ α} (states : R s r) (next : Alike R v w) :
      Alike R (put s v) (put r w)
  | pause (nanos : Nat) {v w : Work σ α} (next : Alike R v w) :
      Alike R (pause nanos v) (pause nanos w)

inductive Progress.Alike (R : σ → σ → Prop) : Progress σ α → Progress σ α → Prop where
  | finished (a : α) : Progress.Alike R (.finished a) (.finished a)
  | paused (nanos : Nat) {v w : Work σ α} (rest : v.Alike R w) :
      Progress.Alike R (.paused nanos v) (.paused nanos w)

variable {R : σ → σ → Prop} {v : Work σ α}

theorem Alike.bind (h : v.Alike R w) {g : α → Work σ β} (hf : ∀ a, (f a).Alike R (g a)) :
    (v.bind f).Alike R (w.bind g) := by
  induction h with
  | done a => exact hf a
  | look next ih => exact .look ih
  | put states next ih => exact .put states ih
  | pause nanos next ih => exact .pause nanos ih

theorem Alike.advance (h : v.Alike R w) (states : R s r) :
    (v.advance s).1.Alike R (w.advance r).1 ∧ R (v.advance s).2 (w.advance r).2 := by
  induction h generalizing s r with
  | done a => exact ⟨.finished a, states⟩
  | look next ih => exact ih s r states states
  | put changed next ih => exact ih changed
  | pause nanos next ih =>
    rw [Work.advance, Work.advance]
    split
    · exact ih states
    · exact ⟨.paused nanos next, states⟩

end HomeScenes.Work
