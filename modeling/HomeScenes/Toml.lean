import HomeScenes.Double

/-!
# TOML documents

Values, and tables of named items. How a table came about decides what may be added to
it later: a table of a header takes keys below its header only, one that dotted keys
made takes further dotted keys only, and one in braces is complete.
-/

namespace HomeScenes.Toml

/-- How a table came about. -/
inductive Origin where
  | header
  /-- It lies on the way to the table of a header. -/
  | implied
  /-- It lies on the way of a dotted key. -/
  | dotted
  | braces
deriving DecidableEq, Inhabited

inductive Item where
  | text (s : String)
  | int (i : Int)
  | float (d : Double)
  | bool (b : Bool)
  /-- A date, a time of day, or both. -/
  | moment
  | array (items : List Item)
  | table (origin : Origin) (members : List (String × Item))
  /-- The tables of all headers in double brackets with the same path. -/
  | tables (rows : List (List (String × Item)))
deriving Inhabited

abbrev Members := List (String × Item)

namespace Members

def find? (ms : Members) (key : String) : Option Item :=
  (List.find? (fun m => m.1 = key) ms).map Prod.snd

/-- Give a key an item; a new key comes last. -/
def put (ms : Members) (key : String) (item : Item) : Members :=
  if (find? ms key).isSome then ms.map fun m => if m.1 = key then (key, item) else m
  else ms ++ [(key, item)]

/-- Change the table at the end of a path. Tables on the way that are missing are made; of tables
in a row the last one is meant. Dotted keys pass through no table of a header, and nothing
passes through a table in braces or what is no table. -/
def changeAt? (dotted : Bool) (change : Origin → Members → Option Members) :
    List String → Origin → Members → Option Members
  | [], origin, ms => change origin ms
  | key :: path, _, ms =>
    match find? ms key with
    | none =>
      let origin : Origin := if dotted then .dotted else .implied
      (changeAt? dotted change path origin []).map fun child => put ms key (.table origin child)
    | some (.table origin child) =>
      if origin = .braces ∨ (dotted ∧ origin = .header) then none
      else (changeAt? dotted change path origin child).map fun child =>
        put ms key (.table origin child)
    | some (.tables rows) =>
      match rows.getLast? with
      | none => none
      | some row => (changeAt? dotted change path .header row).map fun row =>
        put ms key (.tables (rows.dropLast ++ [row]))
    | some _ => none

/-- Put a new key into a table. -/
def addNew? (ms : Members) (key : String) (item : Item) : Option Members :=
  if (find? ms key).isSome then none else some (ms ++ [(key, item)])

/-- Give a key, which may be dotted, its value. A dotted key ends in a table of dotted keys. -/
def assign? (path : List String) (key : String) (item : Item) (ms : Members) : Option Members :=
  changeAt? true
    (fun origin ms =>
      if (origin = .dotted) = (path = []) then none else addNew? ms key item)
    path .header ms

/-- Open the table of a header. It must be new or lie on the way of earlier headers only. -/
def openTable? (key : String) (ms : Members) : Option Members :=
  match find? ms key with
  | none => some (put ms key (.table .header []))
  | some (.table .implied members) => some (put ms key (.table .header members))
  | some _ => none

/-- Open one more table in a row of tables. -/
def openRow? (key : String) (ms : Members) : Option Members :=
  match find? ms key with
  | none => some (put ms key (.tables [[]]))
  | some (.tables rows) => some (put ms key (.tables (rows ++ [[]])))
  | some _ => none

end Members

/-- A line of a document. Paths hold the last key at their end. -/
inductive Line where
  | blank
  | header (path : List String)
  | row (path : List String)
  | assign (path : List String) (item : Item)
deriving Inhabited

/-- A document up to some line: all tables, and the path of the table that is open. -/
structure Draft where
  root : Members
  current : List String
deriving Inhabited

namespace Draft

/-- Change the table that holds the last key of a path. -/
def changeParent? (dr : Draft) (path : List String)
    (change : String → Members → Option Members) : Option Members :=
  match path.getLast? with
  | none => none
  | some key => Members.changeAt? false (fun _ ms => change key ms) path.dropLast .header dr.root

def add? (dr : Draft) : Line → Option Draft
  | .blank => some dr
  | .header path => (dr.changeParent? path Members.openTable?).map fun root => ⟨root, path⟩
  | .row path => (dr.changeParent? path Members.openRow?).map fun root => ⟨root, path⟩
  | .assign path item =>
    match path.getLast? with
    | none => none
    | some key =>
      (Members.changeAt? false (fun _ ms => Members.assign? path.dropLast key item ms)
        dr.current .header dr.root).map fun root => { dr with root := root }

end Draft

/-- The tables that the lines of a document make. -/
def ofLines? (lines : List Line) : Option Members :=
  (lines.foldlM Draft.add? ⟨[], []⟩).map (·.root)

end HomeScenes.Toml
