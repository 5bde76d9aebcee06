import HomeScenes.Toml.Scalar
import HomeScenes.Toml.Text

/-!
# Reading TOML documents

A document is a row of lines: blanks and comments, headers of tables, and keys with
their values. A line is read on its own; whether the lines go together is decided when
the tables are made of them.
-/

namespace HomeScenes.Toml

open HomeScenes.Text (Reading many separated? readMark? readWord?)

/-- Arrays and tables in braces that may be open at once. -/
def deepest : Nat := 79

/-- Parts that a dotted key may have. -/
def longestKey : Nat := 79

/-- A comment without the end of its line. -/
def skipComment? : List Char → Option (List Char)
  | '#' :: cs => some (cs.dropWhile isPlain)
  | _ => none

/-- What may stand around the values of an array: a blank, a line end, or a comment. -/
def readSpace? : Reading Unit
  | [] => none
  | c :: cs =>
    if isBlank c then some ((), cs)
    else
      let rest := (skipComment? (c :: cs)).getD (c :: cs)
      (newline? rest).map fun rest => ((), rest)

def skipSpace (cs : List Char) : List Char :=
  (many readSpace? cs).2

def isKeyChar (c : Char) : Bool :=
  c.isAlphanum || c == '_' || c == '-'

/-- One part of a key: a text on one line or a row of letters, digits, underscores and hyphens. -/
def readSimpleKey? : Reading String := fun cs =>
  match readShortText? cs with
  | some r => some r
  | none =>
    let name := cs.takeWhile isKeyChar
    if name.isEmpty then none else some (String.ofList name, cs.dropWhile isKeyChar)

def readKeyPart? : Reading String := fun cs =>
  (readSimpleKey? (skipBlanks cs)).map fun (key, rest) => (key, skipBlanks rest)

/-- A key with the blanks around its parts. -/
def readKey? : Reading (List String) := fun cs =>
  (separated? '.' readKeyPart? cs).filter fun r => r.1.length ≤ longestKey

/-- A key and its value. -/
def readPair? (value : Reading Item) : Reading (List String × Item) := fun cs => do
  let (path, cs) ← readKey? cs
  let cs ← readMark? '=' cs
  let (item, cs) ← value (skipBlanks cs)
  return ((path, item), skipBlanks cs)

def readElement? (value : Reading Item) : Reading Item := fun cs =>
  (value (skipSpace cs)).map fun (item, rest) => (item, skipSpace rest)

/-- An array after its opening bracket; a comma may follow the last value. -/
def readArray? (value : Reading Item) : Reading Item := fun cs => do
  let (items, rest) := match separated? ',' (readElement? value) cs with
    | some (items, rest) => (items, (readMark? ',' rest).getD rest)
    | none => ([], cs)
  let rest ← readMark? ']' (skipSpace rest)
  return (.array items, rest)

/-- The table that pairs in braces make. -/
def ofPairs? (pairs : List (List String × Item)) : Option Item :=
  (pairs.foldlM
    (fun ms (p : List String × Item) =>
      match p.1.getLast? with
      | none => none
      | some key => Members.assign? p.1.dropLast key p.2 ms)
    []).map fun ms => .table .braces ms

/-- A table after its opening brace. -/
def readBraces? (value : Reading Item) : Reading Item := fun cs => do
  let (pairs, rest) := (separated? ',' (readPair? value) cs).getD ([], cs)
  let rest ← readMark? '\x7d' (skipBlanks rest)
  let item ← ofPairs? pairs
  return (item, rest)

def readScalar? : Reading Item :=
  firstOf? [fun cs => (readText? cs).map fun (s, rest) => (.text s, rest), readMoment?,
    readFloat?, readInt?, readBool?]

/-- A value with at most so many containers open at once. -/
def readValue? : Nat → Reading Item
  | 0 => readScalar?
  | depth + 1 => fun cs =>
    match cs with
    | '[' :: cs => readArray? (readValue? depth) cs
    | '\x7b' :: cs => readBraces? (readValue? depth) cs
    | cs => readScalar? cs

/-- The end of a line or of the document. -/
def endOfLine? : List Char → Option (List Char)
  | [] => some []
  | cs => newline? cs

/-- The end of a line with the blanks and the comment before it. -/
def skipTrailing? (cs : List Char) : Option (List Char) :=
  let cs := skipBlanks cs
  endOfLine? ((skipComment? cs).getD cs)

/-- A line of blanks or a comment only. -/
def readBlankLine? : Reading Line := fun cs =>
  match skipComment? cs with
  | some rest => (endOfLine? rest).map fun rest => (.blank, rest)
  | none => (newline? cs).map fun rest => (.blank, rest)

def readHeader? : Reading Line
  | '[' :: '[' :: cs => do
    let (path, cs) ← readKey? cs
    let cs ← readWord? [']', ']'] cs
    let rest ← skipTrailing? cs
    return (.row path, rest)
  | '[' :: cs => do
    let (path, cs) ← readKey? cs
    let cs ← readMark? ']' cs
    let rest ← skipTrailing? cs
    return (.header path, rest)
  | _ => none

def readAssignment? : Reading Line := fun cs => do
  let ((path, item), cs) ← readPair? (readValue? deepest) cs
  let rest ← skipTrailing? cs
  return (.assign path item, rest)

/-- A line and the blanks that the next one starts with. -/
def readLine? : Reading Line := fun cs =>
  (firstOf? [readBlankLine?, readHeader?, readAssignment?] cs).map fun (line, rest) =>
    (line, skipBlanks rest)

/-- The lines of a document. A byte-order mark at its start is dropped. -/
def linesOfChars? (cs : List Char) : Option (List Line) :=
  let cs := (readMark? '\ufeff' cs).getD cs
  match many readLine? (skipBlanks cs) with
  | (lines, []) => some lines
  | _ => none

/-- The table that a document is. -/
def ofText? (s : String) : Option Item :=
  ((linesOfChars? s.toList).bind ofLines?).map fun ms => .table .header ms

end HomeScenes.Toml
