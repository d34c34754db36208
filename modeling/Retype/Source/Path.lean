import Retype.Text.Blank
/-! # Paths

File paths with forward slashes. A path keeps its components except the empty
ones and `.`; a component `..` is only removed where a path is compared with
another one. The last component is the name, and its suffix begins at its
last dot, unless the dot stands first or last in the name.
-/

namespace Retype

/-- A path: what it starts with (`/`, `//` or nothing), and its components. -/
structure Path where
  root : String
  parts : List String
  deriving DecidableEq, Repr, Inhabited

namespace Path

/-- Exactly two leading slashes are a root of their own. -/
def rootOf (s : String) : String :=
  match s.toList.takeWhile (· == '/') with
  | [] => ""
  | ['/', '/'] => "//"
  | _ => "/"

/-- The components of a text that are neither empty nor `.`. -/
def componentsOf (s : String) : List String :=
  (Text.split s '/').filter fun part => part ≠ "" ∧ part ≠ "."

def parse (s : String) : Path := ⟨rootOf s, componentsOf s⟩

/-- The text of a path; a path without root and components is `.`. -/
def toText (p : Path) : String :=
  let s := p.root ++ String.intercalate "/" p.parts
  if s = "" then "." else s

def isAbsolute (p : Path) : Bool := p.root ≠ ""

/-- The components, with the root of an absolute path as the first one. -/
def pieces (p : Path) : List String := if p.isAbsolute then p.root :: p.parts else p.parts

/-- The path `q` seen from the directory `p`. -/
def join (p q : Path) : Path := if q.isAbsolute then q else ⟨p.root, p.parts ++ q.parts⟩

/-- The last component; a bare root has none. -/
def name (p : Path) : String := p.parts.getLastD ""

/-- A name cut before its suffix. -/
def splitName (name : String) : String × String :=
  let cs := name.toList
  let ending := (cs.reverse.takeWhile (· ≠ '.')).reverse
  let start := cs.length - ending.length - 1
  if ending.length < cs.length ∧ 0 < start ∧ !ending.isEmpty then
    (String.ofList (cs.take start), String.ofList (cs.drop start))
  else (name, "")

def suffix (p : Path) : String := (splitName p.name).2

/-- The path with another suffix; a path without a name has none to change. -/
def withSuffix? (p : Path) (suffix : String) : Option Path :=
  if p.name = "" then none
  else some ⟨p.root, p.parts.dropLast ++ [(splitName p.name).1 ++ suffix]⟩

/-- Components with each `..` applied, and how many of them lead out of the
beginning. -/
def normalize (parts : List String) : Nat × List String :=
  parts.foldl
    (fun (ups, done) part =>
      if part = ".." then
        match done with
        | [] => (ups + 1, [])
        | _ :: _ => (ups, done.dropLast)
      else (ups, done ++ [part]))
    (0, [])

/-- The absolute path that a path stands for in a current directory. -/
def absolute (cwd p : Path) : Path :=
  let q := cwd.join p
  ⟨q.root, (normalize q.parts).2⟩

/-- Two lists without their longest common beginning. -/
def dropCommon : List String → List String → List String × List String
  | a :: as, b :: bs => if a = b then dropCommon as bs else (a :: as, b :: bs)
  | as, bs => (as, bs)

/-- The components of the absolute path that a path stands for, under a
current directory of the given depth whose names are unknown. The unknown
names are slashes, which no component is. -/
def absoluteParts (depth : Nat) (p : Path) : List String :=
  let (ups, rest) := normalize p.parts
  if p.isAbsolute then rest else (List.replicate (depth - ups) "/") ++ rest

/-- The path from one directory to a path. Both are absolute, or both are
relative to one place. -/
def relativeTo (p start : Path) : String :=
  let depth := max (normalize p.parts).1 (normalize start.parts).1
  let (up, down) := dropCommon (start.absoluteParts depth) (p.absoluteParts depth)
  let parts := List.replicate up.length ".." ++ down
  if parts.isEmpty then "." else String.intercalate "/" parts

/-- A path as it is shown to a reader who stands in `cwd`. No path is shown as
it is. -/
def display (path cwd : String) : String :=
  if path = "" then "" else (parse path).relativeTo (parse cwd)

end Path

end Retype
