import Retype.Json.Text
import Retype.Source.Path
import Retype.Text.Numeral
/-! # Locations

Positions and spans in source files. A node of a tree carries its span under
`loc`; a node without a usable one has no location. The numbers of a position
may be any value that denotes a whole number: a missing one is zero, a
fraction is cut off, text is read as a numeral.
-/

namespace Retype

/-- A place in a file: lines count from one, columns from zero. -/
structure Position where
  line : Int
  column : Int
  deriving DecidableEq, Repr, Inhabited

/-- A span inside one file. -/
structure Location where
  path : String
  start : Position
  stop : Position
  deriving DecidableEq, Repr, Inhabited

/-- Why a position is none. -/
inductive PositionError where
  /-- The value denotes no number. -/
  | notANumber
  /-- The value is an infinity. -/
  | unbounded
  deriving DecidableEq, Repr

namespace Position

/-- The whole number that a value denotes. -/
def wholeNumber : Json → Except PositionError Int
  | .bool b => .ok (if b then 1 else 0)
  | .int i => .ok i
  | .double x =>
    if x.isInfinite then .error .unbounded
    else if x.isNaN then .error .notANumber
    else .ok x.trunc
  | .str s =>
    match Numeral.int? s with
    | some i => .ok i
    | none => .error .notANumber
  | _ => .error .notANumber

/-- A number of a position; a missing one is zero. -/
def field (j : Json) (key : String) : Except PositionError Int :=
  match j.get? key with
  | some v => wholeNumber v
  | none => .ok 0

def ofJson (j : Json) : Except PositionError Position := do
  let line ← field j "line"
  let column ← field j "column"
  return ⟨line, column⟩

/-- Positions are ordered by line, then by column. -/
def le (a b : Position) : Bool :=
  a.line < b.line || (a.line == b.line && a.column ≤ b.column)

end Position

namespace Location

/-- The object under a key. -/
def objectAt? (j : Json) (key : String) : Option Json :=
  match j.get? key with
  | some (.obj entries) => some (.obj entries)
  | _ => none

/-- The location of a node, if it carries a span with two ends. -/
def ofNode? (path : String) (node : Json) : Except PositionError (Option Location) :=
  match objectAt? node "loc" with
  | none => .ok none
  | some loc =>
    match objectAt? loc "start", objectAt? loc "end" with
    | some start, some stop => do
      let start ← Position.ofJson start
      let stop ← Position.ofJson stop
      return some ⟨path, start, stop⟩
    | _, _ => .ok none

/-- The location that stands for a node without one. -/
def unknown (path : String) : Location := ⟨path, ⟨0, 0⟩, ⟨0, 0⟩⟩

/-- The location of a node, or the unknown one. -/
def ofNode (path : String) (node : Json) : Except PositionError Location := do
  return (← ofNode? path node).getD (unknown path)

/-- Locations are ordered by path, then by start, then by end. -/
def le (a b : Location) : Bool :=
  a.path < b.path || (a.path == b.path &&
    ((a.start != b.start && a.start.le b.start) || (a.start == b.start && a.stop.le b.stop)))

/-- A location as it is shown to a reader who stands in `cwd`. -/
def display (l : Location) (cwd : String) : String :=
  Path.display l.path cwd ++ ":" ++ toString l.start.line ++ ":" ++ toString l.start.column

end Location

end Retype
