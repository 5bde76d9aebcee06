/-!
# Reading texts from the front

A reading takes something off the front of a text and leaves the rest. Rows of parts
are read by repetition, which ends where no further part can be read.
-/

namespace HomeScenes.Text

/-- What a text starts with, and the rest of it. -/
abbrev Reading (α : Type) := List Char → Option (α × List Char)

/-- One given character. -/
def readMark? (mark : Char) : List Char → Option (List Char)
  | [] => none
  | c :: cs => if c = mark then some cs else none

/-- Given characters in a row. -/
def readWord? : List Char → List Char → Option (List Char)
  | [], cs => some cs
  | mark :: marks, cs => (readMark? mark cs).bind (readWord? marks)

/-- As many parts as there are. A part that leaves the text as long as it was ends the row. -/
def many {α : Type} (part : Reading α) (cs : List Char) : List α × List Char :=
  match part cs with
  | none => ([], cs)
  | some (a, rest) =>
    if rest.length < cs.length then
      let (as, rest) := many part rest
      (a :: as, rest)
    else ([], cs)
termination_by cs.length

/-- One or more parts with a mark between them. -/
def separated? {α : Type} (mark : Char) (part : Reading α) : Reading (List α) := fun cs =>
  (part cs).map fun (a, rest) =>
    let (as, rest) := many (fun cs => (readMark? mark cs).bind part) rest
    (a :: as, rest)

end HomeScenes.Text
