import Retype.Config.Scalar
import Retype.Report.Render
import Retype.Source.Files
/-! # Loading allowlists

The table of allowlists names for each category either its reviewed entries or
a file with one entry on each line. In a file a `#` begins a comment and blank
lines do not count. What the table says about unknown categories is ignored
with a warning. Loading fails where a file cannot be read, or an entry cannot be
written out.
-/

namespace Retype

namespace Allowlists

/-- The entry on a line, which may be empty. -/
def lineEntry (line : String) : String :=
  Text.trim (String.ofList (line.toList.takeWhile (· ≠ '#')))

/-- The entries of a file. -/
def entriesOfText (s : String) : List String :=
  ((Text.lines s).map lineEntry).filter (· ≠ "")

/-- Why allowlists cannot be loaded. -/
inductive LoadError where
  | file (cause : FileError) (path : String)
  /-- An entry cannot be written out. -/
  | entry (cause : ConfigError)
  deriving DecidableEq, Repr

/-- The entries of a list of settings. -/
def entriesOfItems (levels : Nat) (items : List Setting) : Except LoadError (List String) :=
  match items.mapM (·.writtenOut levels) with
  | .ok texts => .ok ((texts.map Text.trim).filter (· ≠ ""))
  | .error cause => .error (.entry cause)

/-- Allowlists that have been loaded, and the warnings on the way. -/
structure Loading where
  warnings : List String
  result : Except LoadError Allowlists

/-- The entries of the file at a path. -/
def entriesOfFile (files : Files) (path : Path) : Except LoadError (List String) :=
  match files.readText path with
  | .ok s => .ok (entriesOfText s)
  | .error cause => .error (.file cause path.toText)

/-- The reviewed entries of a category, or none if the setting gives none. -/
def entriesOf (levels : Nat) (files : Files) (root : Path) :
    Setting → Option (Except LoadError (List String))
  | .text name => some (entriesOfFile files (root.join (Path.parse name)))
  | .list items => some (entriesOfItems levels items)
  | _ => none

/-- Loads the entries of a table one after the other. -/
def load (levels : Nat) (files : Files) (root : Path) : Table → Loading
  | [] => ⟨[], .ok []⟩
  | (key, value) :: rest =>
    let more := load levels files root rest
    match Category.ofName? key with
    | none =>
      { more with warnings :=
          ("Ignoring allowlist for unknown finding category " ++ Quoted.text key) :: more.warnings }
    | some category =>
      match entriesOf levels files root value with
      | none =>
        { more with warnings :=
            ("Ignoring malformed allowlist for " ++ Quoted.text key) :: more.warnings }
      | some (.error e) => ⟨[], .error e⟩
      | some (.ok entries) =>
        { more with result := more.result.map ((category, entries.eraseDups) :: ·) }

end Allowlists

end Retype
