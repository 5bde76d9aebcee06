import Std.Data.HashMap
import HomeScenes.Task

/-!
# The due queue

A binary heap of tasks by due instant, with an index from id to place, so that a task
can be taken out or moved by its id. Tasks due at the same instant come out in the
order that the moves within the heap leave them in: only a strictly earlier task
passes another one.
-/

namespace HomeScenes

structure DueQueue (κ β ω : Type) [BEq κ] [Hashable κ] where
  items : Array (Task κ β ω)
  positions : Std.HashMap κ Nat

namespace DueQueue

variable {κ β ω : Type} [BEq κ] [Hashable κ]

def empty : DueQueue κ β ω := ⟨#[], ∅⟩

instance : Inhabited (DueQueue κ β ω) := ⟨empty⟩

def size (q : DueQueue κ β ω) : Nat := q.items.size

def isEmpty (q : DueQueue κ β ω) : Bool := q.items.isEmpty

def contains (q : DueQueue κ β ω) (id : κ) : Bool := q.positions.contains id

/-- Exchange the tasks at two places and note their new places. -/
def swap (q : DueQueue κ β ω) (a b : Nat) (ha : a < q.items.size) (hb : b < q.items.size) :
    DueQueue κ β ω :=
  if a = b then q
  else
    { items := q.items.swap a b ha hb
      positions := (q.positions.insert q.items[b].id a).insert q.items[a].id b }

theorem size_swap (q : DueQueue κ β ω) {a b : Nat} (ha : a < q.items.size)
    (hb : b < q.items.size) : (q.swap a b ha hb).items.size = q.items.size := by
  unfold swap
  split <;> simp

/-- Move a task towards the root while it is due before its parent. -/
def siftUp (q : DueQueue κ β ω) (i : Nat) : DueQueue κ β ω :=
  if h : 0 < i ∧ i < q.items.size then
    let parent := (i - 1) / 2
    have hp : parent < q.items.size := by omega
    if q.items[i].due < q.items[parent].due then
      siftUp (q.swap i parent h.2 hp) parent
    else q
  else q
termination_by i

/-- The child of a place that is due first, the left one of two that are due together. -/
def earlierChild? (q : DueQueue κ β ω) (i : Nat) : Option Nat :=
  let left := 2 * i + 1
  let right := left + 1
  if hl : left < q.items.size then
    if hr : right < q.items.size then
      if q.items[right].due < q.items[left].due then some right else some left
    else some left
  else none

theorem earlierChild?_bounds {q : DueQueue κ β ω} {i c : Nat}
    (h : q.earlierChild? i = some c) : i < c ∧ c < q.items.size := by
  simp only [earlierChild?] at h
  split at h
  · split at h
    · split at h <;> (cases h; omega)
    · cases h; omega
  · cases h

/-- Move a task away from the root while a child is due before it; its last place comes with the
queue. -/
def siftDown (q : DueQueue κ β ω) (i : Nat) : DueQueue κ β ω × Nat :=
  match hc : q.earlierChild? i with
  | none => (q, i)
  | some child =>
    have hb := earlierChild?_bounds hc
    have hi : i < q.items.size := Nat.lt_trans hb.1 hb.2
    if q.items[child].due < q.items[i].due then
      siftDown (q.swap i child hi hb.2) child
    else (q, i)
termination_by q.items.size - i
decreasing_by
  rw [size_swap]
  omega

/-- Restore the heap order around one place: down, and up only if that moved nothing. -/
def fix (q : DueQueue κ β ω) (i : Nat) : DueQueue κ β ω :=
  let (q', j) := q.siftDown i
  if i < j then q' else q'.siftUp i

def push (q : DueQueue κ β ω) (t : Task κ β ω) : DueQueue κ β ω :=
  siftUp ⟨q.items.push t, q.positions.insert t.id q.items.size⟩ q.items.size

/-- The task that is due first. -/
def peek? (q : DueQueue κ β ω) : Option (Task κ β ω) := q.items[0]?

/-- Take out the task at a place: it changes places with the last one, and the order is restored
around the one that came. -/
def removeAt? (q : DueQueue κ β ω) (i : Nat) : Option (Task κ β ω × DueQueue κ β ω) :=
  if h : i < q.items.size then
    let swapped := q.swap i (q.items.size - 1) h (by omega)
    let task := q.items[i]
    let rest : DueQueue κ β ω := ⟨swapped.items.pop, swapped.positions.erase task.id⟩
    some (task, if i < rest.items.size then rest.fix i else rest)
  else none

def pop? (q : DueQueue κ β ω) : Option (Task κ β ω × DueQueue κ β ω) :=
  q.removeAt? 0

def remove? (q : DueQueue κ β ω) (id : κ) : Option (Task κ β ω × DueQueue κ β ω) :=
  match q.positions[id]? with
  | some i => q.removeAt? i
  | none => none

/-- Move a task to another due instant; nothing when it is not queued. -/
def update? (q : DueQueue κ β ω) (id : κ) (due : Instant) : Option (DueQueue κ β ω) :=
  match q.positions[id]? with
  | some i => some (fix ⟨q.items.modify i fun t => t.withDue due, q.positions⟩ i)
  | none => none

/-- Handles of all tasks by due instant; those due together keep the order of the heap. -/
def snapshot (q : DueQueue κ β ω) : List (Handle κ) :=
  (q.items.toList.map (·.handle)).mergeSort fun a b => a.due ≤ b.due

/-- Take out a number of tasks, earliest first. -/
def drain : Nat → DueQueue κ β ω → List (Task κ β ω) × DueQueue κ β ω
  | 0, q => ([], q)
  | n + 1, q =>
    match q.pop? with
    | none => ([], q)
    | some (t, q) =>
      let (ts, q) := drain n q
      (t :: ts, q)

end DueQueue

end HomeScenes
