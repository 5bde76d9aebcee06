import HomeScenes.Text.Reading
import HomeScenes.Uuid

/-!
# Texts in TOML

Four forms: between quotes with escapes or between apostrophes without any, each on
one line or, with the mark three times, on several. A long text drops a line end that
comes first; line ends inside are line feeds, and a backslash at the end of a line of
quoted text drops all blanks up to the next character.
-/

namespace HomeScenes.Toml

open HomeScenes.Text (Reading many readMark? readWord?)

/-- Characters that stand for themselves: tab and everything but the controls. -/
def isPlain (c : Char) : Bool :=
  c == '\t' || (0x20 ≤ c.toNat && c.toNat != 0x7F)

def isBlank (c : Char) : Bool :=
  c == ' ' || c == '\t'

def skipBlanks (cs : List Char) : List Char :=
  cs.dropWhile isBlank

/-- A line feed, alone or after a carriage return. -/
def newline? : List Char → Option (List Char)
  | '\n' :: cs => some cs
  | '\r' :: '\n' :: cs => some cs
  | _ => none

/-- A plain character other than those given. -/
def readPlain? (others : List Char) : Reading (List Char)
  | [] => none
  | c :: cs => if isPlain c ∧ ¬ others.contains c then some ([c], cs) else none

def readNewline? : Reading (List Char) := fun cs =>
  (newline? cs).map fun rest => (['\n'], rest)

/-- The character of an escape of one letter. -/
def shortEscape? : Char → Option Char
  | 'b' => some '\x08'
  | 't' => some '\t'
  | 'n' => some '\n'
  | 'f' => some '\x0c'
  | 'r' => some '\r'
  | '"' => some '"'
  | '\\' => some '\\'
  | _ => none

/-- A character by the given number of hexadecimal digits. -/
def readCode? (width : Nat) : Reading (List Char) := fun cs => do
  let ds := cs.take width
  if ds.length = width then
    let n ← ds.foldlM (fun n d => (Uuid.hexValue? d).map (16 * n + ·)) 0
    if n.isValidChar then some ([Char.ofNat n], cs.drop width) else none
  else none

def readEscape? : Reading (List Char)
  | '\\' :: 'u' :: cs => readCode? 4 cs
  | '\\' :: 'U' :: cs => readCode? 8 cs
  | '\\' :: c :: cs => (shortEscape? c).map fun e => ([e], cs)
  | _ => none

/-- A blank or a line end, which is dropped. -/
def readGap? : Reading (List Char)
  | [] => none
  | c :: cs => if isBlank c then some ([], cs) else (newline? (c :: cs)).map fun rest => ([], rest)

/-- A backslash at the end of a line with all the blanks after it. -/
def readContinuation? : Reading (List Char)
  | '\\' :: cs => (newline? (skipBlanks cs)).map fun rest => ([], (many readGap? rest).2)
  | _ => none

/-- A mark that does not end a long text, for it does not stand three times. -/
def readLoneMark? (mark : Char) : Reading (List Char) := fun cs =>
  match readWord? [mark, mark, mark] cs with
  | some _ => none
  | none => (readMark? mark cs).map fun rest => ([mark], rest)

/-- The end of a long text: the mark three times, after up to two that belong to the text. -/
def readLongEnd? (mark : Char) : Reading (List Char) := fun cs => do
  let rest ← readWord? [mark, mark, mark] cs
  match readWord? [mark, mark] rest with
  | some rest => some ([mark, mark], rest)
  | none =>
    match readMark? mark rest with
    | some rest => some ([mark], rest)
    | none => some ([], rest)

/-- The first of several readings that there is. -/
def firstOf? {α : Type} (readings : List (Reading α)) : Reading α := fun cs =>
  readings.findSome? fun read => read cs

def quotedPart? : Reading (List Char) :=
  firstOf? [readPlain? ['"', '\\'], readEscape?]

def longQuotedPart? : Reading (List Char) :=
  firstOf? [readPlain? ['"', '\\'], readContinuation?, readEscape?, readNewline?,
    readLoneMark? '"']

def rawPart? : Reading (List Char) :=
  readPlain? ['\'']

def longRawPart? : Reading (List Char) :=
  firstOf? [readPlain? ['\''], readNewline?, readLoneMark? '\'']

/-- A text on one line after its first mark. -/
def readShort? (mark : Char) (part : Reading (List Char)) : Reading String := fun cs =>
  let (parts, rest) := many part cs
  (readMark? mark rest).map fun rest => (String.ofList parts.flatten, rest)

/-- A text on several lines after its first three marks. -/
def readLong? (mark : Char) (part : Reading (List Char)) : Reading String := fun cs =>
  let (parts, rest) := many part ((newline? cs).getD cs)
  (readLongEnd? mark rest).map fun (last, rest) => (String.ofList (parts.flatten ++ last), rest)

/-- A text in any of the four forms. -/
def readText? : Reading String
  | '"' :: '"' :: '"' :: cs => readLong? '"' longQuotedPart? cs
  | '"' :: cs => readShort? '"' quotedPart? cs
  | '\'' :: '\'' :: '\'' :: cs => readLong? '\'' longRawPart? cs
  | '\'' :: cs => readShort? '\'' rawPart? cs
  | _ => none

/-- A text on one line, as it may stand for a key. -/
def readShortText? : Reading String
  | '"' :: cs => readShort? '"' quotedPart? cs
  | '\'' :: cs => readShort? '\'' rawPart? cs
  | _ => none

end HomeScenes.Toml
