/-!
# Work that may pause

A course of actions on a state of type `σ`: it looks at the state, changes it, and may
pause for a while, in which others can change the state. Work can be carried out at
once, with no time passing in its pauses, or up to its next pause.
-/

namespace HomeScenes

inductive Work (σ α : Type) where
  | done (a : α)
  | look (next : σ → Work σ α)
  | put (s : σ) (next : Work σ α)
  /-- Let some nanoseconds pass. -/
  | pause (nanos : Nat) (next : Work σ α)

namespace Work

variable {σ α β : Type}

def bind (w : Work σ α) (f : α → Work σ β) : Work σ β :=
  match w with
  | done a => f a
  | look next => look fun s => (next s).bind f
  | put s next => put s (next.bind f)
  | pause nanos next => pause nanos (next.bind f)

instance : Monad (Work σ) where
  pure := done
  bind := bind

/-- A change of state that takes no time. -/
def change (f : σ → α × σ) : Work σ α :=
  look fun s => put (f s).2 (done (f s).1)

/-- Something read off the state. -/
def ask (f : σ → α) : Work σ α :=
  look fun s => done (f s)

def wait (nanos : Nat) : Work σ Unit :=
  pause nanos (done ())

/-- Carry out the work at once. -/
def run : Work σ α → σ → α × σ
  | done a, s => (a, s)
  | look next, s => (next s).run s
  | put s next, _ => next.run s
  | pause _ next, s => next.run s

/-- How far work has come. -/
inductive Progress (σ α : Type) where
  | finished (a : α)
  | paused (nanos : Nat) (rest : Work σ α)

/-- Carry out the work up to its next pause that takes time. -/
def advance : Work σ α → σ → Progress σ α × σ
  | done a, s => (.finished a, s)
  | look next, s => (next s).advance s
  | put s next, _ => next.advance s
  | pause nanos next, s => if nanos = 0 then next.advance s else (.paused nanos next, s)

end Work

end HomeScenes
