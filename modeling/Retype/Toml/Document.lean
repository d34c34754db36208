import Retype.Config.Setting
/-! # Building a TOML document

The tables of a document while its lines are read. A line may open tables on
the way to its key, but a table that has been declared may not be declared
again, a value may not be opened like a table, and what was written as one
value, an inline table or an array, may not be added to.
-/

namespace Retype.Toml

/-- A dotted key, its parts in order. -/
abbrev Key := List String

/-- What a document knows about a key besides its value. -/
inductive Mark where
  /-- The table has been declared. -/
  | declared
  /-- The value, and all that is in it, is written in one piece. -/
  | frozen
  deriving DecidableEq, Repr

/-- Marks by key. -/
abbrev Marks := List (Key × Mark)

namespace Marks

def isDeclared (marks : Marks) (key : Key) : Bool := marks.contains (key, .declared)

/-- A key is frozen with every key it is inside of. -/
def isFrozen (marks : Marks) (key : Key) : Bool :=
  marks.any fun (k, m) => m = .frozen ∧ !k.isEmpty ∧ k.isPrefixOf key

def add (marks : Marks) (key : Key) (m : Mark) : Marks := (key, m) :: marks

/-- Forgets the marks of a key and of all keys inside it. -/
def forget (marks : Marks) (key : Key) : Marks := marks.filter fun (k, _) => !key.isPrefixOf k

end Marks

/-- Changes the table at a key, opening the tables on the way. Where
`entersLists` says so, a list stands for its last table. None if a value is in
the way. -/
def changeTable (entersLists : Bool) (change : Table → Option Table) : Key → Table → Option Table
  | [], table => change table
  | k :: ks, table =>
    match (table.get? k).getD (.table []) with
    | .table inner => do
      return table.set k (.table (← changeTable entersLists change ks inner))
    | .list items =>
      if entersLists then
        match items.getLast? with
        | some (.table inner) => do
          return table.set k
            (.list (items.dropLast ++ [.table (← changeTable entersLists change ks inner)]))
        | _ => none
      else none
    | _ => none

/-- Gives the last part of a key a value in its table; none if it has one. -/
def insertNew (entersLists : Bool) (key : Key) (value : Setting) (table : Table) : Option Table :=
  match key.getLast? with
  | none => none
  | some last =>
    changeTable entersLists
      (fun t => if (t.get? last).isSome then none else some (t.set last value)) key.dropLast table

/-- Adds a table to the list under a key. -/
def appendTable (key : Key) (table : Table) : Option Table :=
  match key.getLast? with
  | none => none
  | some last =>
    changeTable true
      (fun t =>
        match t.get? last with
        | none => some (t.set last (.list [.table []]))
        | some (.list items) => some (t.set last (.list (items ++ [.table []])))
        | some _ => none)
      key.dropLast table

/-- A document that is being read: its tables, the marks in force, those that
come into force with the next header, and the key of the last header. -/
structure Document where
  tables : Table := []
  marks : Marks := []
  pending : Marks := []
  header : Key := []

namespace Document

/-- Puts the pending marks in force. -/
def settle (d : Document) : Document := { d with marks := d.pending ++ d.marks, pending := [] }

/-- `[key]`. -/
def declareTable (d : Document) (key : Key) : Option Document :=
  let d := d.settle
  if d.marks.isDeclared key || d.marks.isFrozen key then none
  else do
    let tables ← changeTable true some key d.tables
    return { d with tables := tables, marks := d.marks.add key .declared, header := key }

/-- `[[key]]`. The names inside the list are free again for its new table. -/
def declareList (d : Document) (key : Key) : Option Document :=
  let d := d.settle
  if d.marks.isFrozen key then none
  else do
    let tables ← appendTable key d.tables
    return { d with
      tables := tables, marks := (d.marks.forget key).add key .declared, header := key }

/-- The proper beginnings of a key that are not empty. -/
def beginnings (key : Key) : List Key :=
  (List.range key.length).filterMap fun n => if n = 0 then none else some (key.take n)

/-- Whether a value was written in one piece. -/
def isCompound : Setting → Bool
  | .list _ => true
  | .table _ => true
  | _ => false

/-- `key = value` below the last header. -/
def assign (d : Document) (key : Key) (value : Setting) : Option Document :=
  let opened := (beginnings key).map (d.header ++ ·)
  if opened.any d.marks.isDeclared then none
  else if d.marks.isFrozen (d.header ++ key.dropLast) then none
  else do
    let tables ← insertNew true (d.header ++ key) value d.tables
    return { d with
      tables := tables
      pending := opened.map (·, Mark.declared) ++ d.pending
      marks := if isCompound value then d.marks.add (d.header ++ key) .frozen else d.marks }

end Document

end Retype.Toml
