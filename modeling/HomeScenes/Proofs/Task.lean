import HomeScenes.Task
import Mathlib.Data.List.Induction

/-!
# Tasks inside their wrappers

What happens when a task runs that was given parents, labels, due instants and wrappers in any
order. The wrappers looked at here note when they are entered and left and run what is inside them
once, with the handle that they were given; what else they do with the result is left open, and so
is everything that the body does. The wrapper that was added last is entered first and left last,
and the body runs once in between, with the handle that the task had come to have.
-/

namespace HomeScenes.Task

variable {κ β ω τ : Type}

/-- What a task may be given before it runs. -/
inductive Change (κ ω : Type) where
  | parent (id : κ)
  | label (text : String)
  | due (at_ : Instant)
  | wrapper (w : ω)

namespace Change

def parent? : Change κ ω → Option κ
  | parent id => some id
  | _ => none

def label? : Change κ ω → Option String
  | label text => some text
  | _ => none

def due? : Change κ ω → Option Instant
  | due at_ => some at_
  | _ => none

def wrapper? : Change κ ω → Option ω
  | wrapper w => some w
  | _ => none

end Change

def change (t : Task κ β ω) : Change κ ω → Task κ β ω
  | .parent id => t.withParent id
  | .label text => t.withLabel text
  | .due at_ => t.withDue at_
  | .wrapper w => t.withWrapper w

def changed (t : Task κ β ω) (changes : List (Change κ ω)) : Task κ β ω :=
  changes.foldl change t

/-- The handle of a new task after all changes: the first parent counts, and the last label and due
instant. -/
def lastHandle (id : κ) (due : Instant) (changes : List (Change κ ω)) : Handle κ where
  id := id
  parent := (changes.filterMap Change.parent?).head?
  due := (changes.filterMap Change.due?).getLastD due
  label := (changes.filterMap Change.label?).getLastD ""

/-- Each change counts for its own part of the task only. -/
theorem changed_dueAt (id : κ) (due : Instant) (body : β) (changes : List (Change κ ω)) :
    (dueAt id due body).changed changes =
      ⟨lastHandle id due changes, body, changes.filterMap Change.wrapper?⟩ := by
  induction changes using List.reverseRecOn with
  | nil => rfl
  | append_singleton changes c ih =>
    rw [changed] at ih ⊢
    rw [List.foldl_append, ih]
    simp only [List.foldl_cons, List.foldl_nil, lastHandle, List.filterMap_append]
    cases c with
    | parent id =>
      simp [change, withParent, Change.parent?, Change.due?, Change.label?, Change.wrapper?,
        List.filterMap_cons]
    | label text =>
      simp [change, withLabel, Change.parent?, Change.due?, Change.label?, Change.wrapper?,
        List.filterMap_cons]
    | due at_ =>
      simp [change, withDue, Change.parent?, Change.due?, Change.label?, Change.wrapper?,
        List.filterMap_cons]
    | wrapper w =>
      simp [change, withWrapper, Change.parent?, Change.due?, Change.label?, Change.wrapper?,
        List.filterMap_cons]

variable {m : Type → Type} [Monad m] [LawfulMonad m]

def note (mark : τ) : StateT (List τ) m Unit :=
  modify (· ++ [mark])

/-- The wrapper notes that it is entered, runs once what is inside with the handle that it was
given, notes that it is left, and answers. -/
def Brackets (enter leave : Handle κ → τ) (answer : Handle κ → TaskResult → m TaskResult)
    (wrapper : Run (StateT (List τ) m) κ → Run (StateT (List τ) m) κ) : Prop :=
  ∀ inner h, wrapper inner h = do
    note (enter h)
    let result ← inner h
    note (leave h)
    answer h result

variable {enter leave : ω → Handle κ → τ} {answer : ω → Handle κ → TaskResult → m TaskResult}
  {wrapper : ω → Run (StateT (List τ) m) κ → Run (StateT (List τ) m) κ}

theorem Brackets.run {w : ω} (h : Brackets (enter w) (leave w) (answer w) (wrapper w))
    (inner : Run (StateT (List τ) m) κ) (handle : Handle κ) (notes : List τ) :
    (wrapper w inner handle).run notes = do
      let (result, notes) ← (inner handle).run (notes ++ [enter w handle])
      let result ← answer w handle result
      return (result, notes ++ [leave w handle]) := by
  rw [h inner handle]
  simp [note]

theorem run_wrapped (inner : Run (StateT (List τ) m) κ) (ws : List ω)
    (h : ∀ w ∈ ws, Brackets (enter w) (leave w) (answer w) (wrapper w)) (handle : Handle κ)
    (notes : List τ) :
    (ws.foldl (fun inner w => wrapper w inner) inner handle).run notes = do
      let (result, notes) ← (inner handle).run (notes ++ ws.reverse.map (enter · handle))
      let result ← ws.foldlM (fun result w => answer w handle result) result
      return (result, notes ++ ws.map (leave · handle)) := by
  induction ws using List.reverseRecOn generalizing notes with
  | nil => simp
  | append_singleton ws w ih =>
    rw [List.foldl_append, List.foldl_cons, List.foldl_nil, (h w (by simp)).run,
      ih fun w own => h w (List.mem_append_left _ own)]
    simp

def marking (mark : Handle κ → τ) (act : Handle κ → m TaskResult) :
    Run (StateT (List τ) m) κ := fun h => do
  note (mark h)
  act h

theorem marking_run (mark : Handle κ → τ) (act : Handle κ → m TaskResult) (h : Handle κ)
    (notes : List τ) : (marking mark act h).run notes = do
      let result ← act h
      return (result, notes ++ [mark h]) := by
  simp [marking, note]

def passing (enter leave : Handle κ → τ) (inner : Run (StateT (List τ) m) κ) :
    Run (StateT (List τ) m) κ := fun h => do
  note (enter h)
  let result ← inner h
  note (leave h)
  return result

theorem brackets_passing (enter leave : Handle κ → τ) :
    Brackets enter leave (fun _ result => (pure result : m TaskResult))
      (passing enter leave) := by
  intro inner h
  simp [passing]

theorem foldlM_passed {ws : List ω} {h : Handle κ}
    (passed : ∀ w ∈ ws, ∀ result, answer w h result = pure result) (result : TaskResult) :
    ws.foldlM (fun result w => answer w h result) result = pure result := by
  induction ws with
  | nil => rfl
  | cons w ws ih =>
    rw [List.foldlM_cons, passed w List.mem_cons_self, pure_bind]
    exact ih fun w own => passed w (List.mem_cons_of_mem _ own)

/-- The task runs its body once, inside its wrappers and with the handle that it came to have: the
wrappers are entered from the last to the first that was added, then the body runs, and then they
are left from the first to the last, each answering to what is inside it, so that the task ends with
what the last one answers. If all wrappers pass the result on, it ends with that of the body. A body
that makes one note makes it in the middle. -/
theorem wrappers_nest (id : κ) (due : Instant) (b : β) (changes : List (Change κ ω))
    (brackets : ∀ w ∈ changes.filterMap Change.wrapper?,
      Brackets (enter w) (leave w) (answer w) (wrapper w)) (notes : List τ) :
    let t := (dueAt id due b).changed changes
    let handle := lastHandle id due changes
    let ws := changes.filterMap Change.wrapper?
    (∀ body : β → Run (StateT (List τ) m) κ,
      (t.run body wrapper).run notes = (do
        let (result, notes) ← (body b handle).run (notes ++ ws.reverse.map (enter · handle))
        let result ← ws.foldlM (fun result w => answer w handle result) result
        return (result, notes ++ ws.map (leave · handle))) ∧
      ((∀ w ∈ ws, ∀ result, answer w handle result = pure result) →
        (t.run body wrapper).run notes = (do
          let (result, notes) ← (body b handle).run (notes ++ ws.reverse.map (enter · handle))
          return (result, notes ++ ws.map (leave · handle))))) ∧
    ∀ (mark : Handle κ → τ) (act : β → Handle κ → m TaskResult),
      (t.run (fun b => marking mark (act b)) wrapper).run notes = (do
        let result ← act b handle
        let result ← ws.foldlM (fun result w => answer w handle result) result
        return (result, notes ++ ws.reverse.map (enter · handle) ++ [mark handle] ++
          ws.map (leave · handle))) := by
  intro t handle ws
  have whole (body : β → Run (StateT (List τ) m) κ) : (t.run body wrapper).run notes = (do
      let (result, notes) ← (body b handle).run (notes ++ ws.reverse.map (enter · handle))
      let result ← ws.foldlM (fun result w => answer w handle result) result
      return (result, notes ++ ws.map (leave · handle))) := by
    simp only [t, changed_dueAt, Task.run]
    exact run_wrapped (body b) ws brackets handle notes
  refine ⟨fun body => ⟨whole body, fun passed => ?_⟩, fun mark act => ?_⟩
  · rw [whole]
    simp only [foldlM_passed passed, pure_bind]
  · rw [whole, marking_run]
    simp only [bind_assoc, pure_bind]

/-- Two wrappers of a task whose parent, label and due instant were set twice. -/
theorem wrappers_nest_second_outermost :
    let changes : List (Change Nat String) :=
      [.label "old", .due (.ofMicros 5), .wrapper "first", .parent 4, .parent 6,
        .due (.ofMicros 8), .wrapper "second", .label "new"]
    let wrapper (w : String) :
        Run (StateT (List (String × Handle Nat)) Id) Nat →
          Run (StateT (List (String × Handle Nat)) Id) Nat :=
      passing (fun h => (w ++ ":before", h)) fun h => (w ++ ":after", h)
    let handle : Handle Nat := ⟨7, some 4, .ofMicros 8, "new"⟩
    (∀ w ∈ changes.filterMap Change.wrapper?, Brackets (fun h => (w ++ ":before", h))
      (fun h => (w ++ ":after", h)) (fun _ result => pure result) (wrapper w)) ∧
    (((dueAt 7 (.ofMicros 0) ()).changed changes).run
      (fun _ => marking (fun h => ("body", h)) fun _ => pure (.ok ())) wrapper).run [] =
        (.ok (), [("second:before", handle), ("first:before", handle), ("body", handle),
          ("first:after", handle), ("second:after", handle)]) := by
  intro changes wrapper handle
  have brackets (w : String) (_ : w ∈ changes.filterMap Change.wrapper?) :
      Brackets (fun h => (w ++ ":before", h)) (fun h => (w ++ ":after", h))
        (fun _ result => pure result) (wrapper w) :=
    brackets_passing _ _
  obtain ⟨-, traced⟩ := wrappers_nest 7 (.ofMicros 0) () changes brackets []
  exact ⟨brackets, (traced (fun h => ("body", h)) fun _ _ => pure (.ok ())).trans rfl⟩

end HomeScenes.Task
