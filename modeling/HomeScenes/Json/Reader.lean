import HomeScenes.Json.Numeral

/-!
# Reading JSON text

A machine that takes the text character by character. Its state says what may come
next and keeps the containers that are still open. What it builds is the text as it
stands: members in order, also repeated ones, a text with a lone half of a surrogate
pair and a number out of range marked as having no value. Whether those matter is
for the reader of the tree to decide.
-/

namespace HomeScenes.Json

/-- JSON text as it stands. -/
inductive Raw where
  | null
  | bool (b : Bool)
  | number (n : Option Numeral)
  | text (s : Option String)
  | array (items : List Raw)
  | object (members : List (Option String × Raw))
deriving Inhabited

namespace Reader

/-- A container that is still open, with what it holds so far in reverse. -/
inductive Frame where
  | array (done : List Raw)
  /-- Between two members. -/
  | members (done : List (Option String × Raw))
  /-- After the key of a member. -/
  | member (done : List (Option String × Raw)) (key : Option String)

/-- Where the machine stands within an escape. -/
inductive Escape where
  | none
  | slash
  /-- Digits of a code point still owed, and the value so far. -/
  | code (owed : Nat) (value : Nat)
  /-- After the first half of a surrogate pair. -/
  | half (high : Nat)
  | halfSlash (high : Nat)
  | halfCode (high : Nat) (owed : Nat) (value : Nat)

/-- A text being read, its characters in reverse. -/
structure Piece where
  chars : List Char
  broken : Bool
  escape : Escape

def Piece.start : Piece := ⟨[], false, .none⟩

def Piece.value (p : Piece) : Option String :=
  if p.broken then none else some (String.ofList p.chars.reverse)

def Piece.push (p : Piece) (c : Char) : Piece :=
  ⟨c :: p.chars, p.broken, .none⟩

/-- The character of an escape of one letter. -/
def shortEscape? : Char → Option Char
  | '"' => some '"'
  | '\\' => some '\\'
  | '/' => some '/'
  | 'b' => some '\x08'
  | 'f' => some '\x0c'
  | 'n' => some '\n'
  | 'r' => some '\r'
  | 't' => some '\t'
  | _ => none

def hexValue? (c : Char) : Option Nat :=
  if '0' ≤ c && c ≤ '9' then some (c.toNat - '0'.toNat)
  else if 'a' ≤ c && c ≤ 'f' then some (c.toNat - 'a'.toNat + 10)
  else if 'A' ≤ c && c ≤ 'F' then some (c.toNat - 'A'.toNat + 10)
  else none

/-- A code unit of 16 bits that stands alone: a character, or the first or second half of a pair. -/
def Piece.unit (p : Piece) (n : Nat) : Piece :=
  if 0xD800 ≤ n ∧ n < 0xDC00 then { p with escape := .half n }
  else if 0xDC00 ≤ n ∧ n < 0xE000 then { p with broken := true, escape := .none }
  else p.push (Char.ofNat n)

/-- A code unit that follows the first half of a pair. -/
def Piece.pair (p : Piece) (high low : Nat) : Piece :=
  if 0xDC00 ≤ low ∧ low < 0xE000 then
    p.push (Char.ofNat (0x10000 + (high - 0xD800) * 0x400 + (low - 0xDC00)))
  else { p with broken := true, escape := .none }

/-- Outcome of one character of a text. -/
inductive PieceStep where
  | more (p : Piece)
  | finished (p : Piece)
  | refused

/-- A character outside escapes. -/
def Piece.plain (p : Piece) (c : Char) : PieceStep :=
  if c = '"' then .finished { p with escape := .none }
  else if c = '\\' then .more { p with escape := .slash }
  else if c.toNat < 32 then .refused
  else .more (p.push c)

/-- The character after a backslash. -/
def Piece.escaped (p : Piece) (c : Char) : PieceStep :=
  if c = 'u' then .more { p with escape := .code 4 0 }
  else match shortEscape? c with
    | some e => .more (p.push e)
    | none => .refused

def Piece.step (p : Piece) (c : Char) : PieceStep :=
  match p.escape with
  | .none => p.plain c
  | .slash => p.escaped c
  | .code owed value =>
    match hexValue? c with
    | none => .refused
    | some d =>
      if owed ≤ 1 then .more (p.unit (16 * value + d))
      else .more { p with escape := .code (owed - 1) (16 * value + d) }
  | .half high =>
    if c = '\\' then .more { p with escape := .halfSlash high }
    else { p with broken := true }.plain c
  | .halfSlash high =>
    if c = 'u' then .more { p with escape := .halfCode high 4 0 }
    else { p with broken := true }.escaped c
  | .halfCode high owed value =>
    match hexValue? c with
    | none => .refused
    | some d =>
      if owed ≤ 1 then .more (p.pair high (16 * value + d))
      else .more { p with escape := .halfCode high (owed - 1) (16 * value + d) }

/-- What may come next. -/
inductive Mode where
  /-- A value, or the end of an array that has just been opened. -/
  | value (mayClose : Bool)
  /-- A key, or the end of an object that has just been opened. -/
  | key (mayClose : Bool)
  | colon
  /-- A comma or the end of the innermost container. -/
  | after
  | piece (isKey : Bool) (p : Piece)
  /-- Characters of a number, in reverse. -/
  | numeral (cs : List Char)
  /-- Letters still owed by a word, and its value. -/
  | word (owed : List Char) (v : Raw)
  /-- The whole text has been read. -/
  | done (v : Raw)

structure State where
  mode : Mode
  stack : List Frame

def State.start : State := ⟨.value false, []⟩

/-- A value is complete: it goes into the innermost open container. -/
def place (v : Raw) : List Frame → Option State
  | [] => some ⟨.done v, []⟩
  | .array done :: s => some ⟨.after, .array (v :: done) :: s⟩
  | .member done key :: s => some ⟨.after, .members ((key, v) :: done) :: s⟩
  | .members _ :: _ => none

def closeArray : List Frame → Option State
  | .array done :: s => place (.array done.reverse) s
  | _ => none

def closeObject : List Frame → Option State
  | .members done :: s => place (.object done.reverse) s
  | _ => none

def isSpace (c : Char) : Bool :=
  c == ' ' || c == '\n' || c == '\t' || c == '\r'

def isNumeralChar (c : Char) : Bool :=
  Text.isDigit c || c == '-' || c == '+' || c == '.' || c == 'e' || c == 'E'

def stepValue (mayClose : Bool) (stack : List Frame) (c : Char) : Option State :=
  if isSpace c then some ⟨.value mayClose, stack⟩
  else match c with
    | '"' => some ⟨.piece false .start, stack⟩
    | '[' => some ⟨.value true, .array [] :: stack⟩
    | ']' => if mayClose then closeArray stack else none
    | '\x7b' => some ⟨.key true, .members [] :: stack⟩
    | 't' => some ⟨.word ['r', 'u', 'e'] (.bool true), stack⟩
    | 'f' => some ⟨.word ['a', 'l', 's', 'e'] (.bool false), stack⟩
    | 'n' => some ⟨.word ['u', 'l', 'l'] .null, stack⟩
    | c => if c = '-' ∨ Text.isDigit c then some ⟨.numeral [c], stack⟩ else none

def stepKey (mayClose : Bool) (stack : List Frame) (c : Char) : Option State :=
  if isSpace c then some ⟨.key mayClose, stack⟩
  else if c = '"' then some ⟨.piece true .start, stack⟩
  else if c = '\x7d' ∧ mayClose then closeObject stack
  else none

def stepAfter (stack : List Frame) (c : Char) : Option State :=
  if isSpace c then some ⟨.after, stack⟩
  else match c, stack with
    | ',', .array _ :: _ => some ⟨.value false, stack⟩
    | ',', .members _ :: _ => some ⟨.key false, stack⟩
    | ']', _ => closeArray stack
    | '\x7d', _ => closeObject stack
    | _, _ => none

def stepPiece (isKey : Bool) (stack : List Frame) : PieceStep → Option State
  | .refused => none
  | .more p => some ⟨.piece isKey p, stack⟩
  | .finished p =>
    if isKey then
      match stack with
      | .members done :: s => some ⟨.colon, .member done p.value :: s⟩
      | _ => none
    else place (.text p.value) stack

/-- A character after the end of a value. -/
def stepEnded (s : State) (c : Char) : Option State :=
  match s.mode with
  | .after => stepAfter s.stack c
  | .done v => if isSpace c then some ⟨.done v, []⟩ else none
  | _ => none

def finishNumeral (cs : List Char) (stack : List Frame) : Option State :=
  match Numeral.ofChars? cs.reverse with
  | some n => place (.number n) stack
  | none => none

def step (s : State) (c : Char) : Option State :=
  match s.mode with
  | .value mayClose => stepValue mayClose s.stack c
  | .key mayClose => stepKey mayClose s.stack c
  | .colon =>
    if isSpace c then some s
    else if c = ':' then some ⟨.value false, s.stack⟩
    else none
  | .piece isKey p => stepPiece isKey s.stack (p.step c)
  | .numeral cs =>
    if isNumeralChar c then some ⟨.numeral (c :: cs), s.stack⟩
    else (finishNumeral cs s.stack).bind (stepEnded · c)
  | .word owed v =>
    match owed with
    | [] => none
    | [l] => if c = l then place v s.stack else none
    | l :: ls => if c = l then some ⟨.word ls v, s.stack⟩ else none
  | .after => stepAfter s.stack c
  | .done v => if isSpace c then some ⟨.done v, []⟩ else none

/-- The tree of a text that ends in the given state. -/
def finish (s : State) : Option Raw :=
  match s.mode with
  | .done v => some v
  | .numeral cs =>
    match finishNumeral cs s.stack with
    | some ⟨.done v, _⟩ => some v
    | _ => none
  | _ => none

end Reader

def Raw.ofChars? (cs : List Char) : Option Raw :=
  (cs.foldlM Reader.step Reader.State.start).bind Reader.finish

end HomeScenes.Json
