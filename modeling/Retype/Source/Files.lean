import Retype.Source.Path
import Retype.Text.Quoted
import Retype.Text.Utf8
/-! # Files

A set of files by absolute path, and the directories that hold them. Reading,
writing and removing follow a path from the root down; `..` leads back up from
a directory that exists.
-/

namespace Retype

/-- Why a file operation fails. -/
inductive FileError where
  | notFound
  | isDirectory
  | notDirectory
  /-- The bytes of the file are no text. -/
  | notText
  deriving DecidableEq, Repr

/-- The message for an operation on a path that fails. -/
def FileError.message (path : String) : FileError → String
  | notFound => "[Errno 2] No such file or directory: " ++ Quoted.text path
  | isDirectory => "[Errno 21] Is a directory: " ++ Quoted.text path
  | notDirectory => "[Errno 20] Not a directory: " ++ Quoted.text path
  | notText => "not valid UTF-8: " ++ Quoted.text path

/-- The components of an absolute path without `..`. -/
abbrev Trail := List String

/-- Files with their bytes, and the directories. -/
structure Files where
  files : List (Trail × List UInt8)
  directories : List Trail
  deriving Inhabited

namespace Files

/-- All directories on the way to a path. -/
def parents (t : Trail) : List Trail := (List.range t.length).map t.take

/-- Files, and the directories that hold them. -/
def ofList (files : List (Trail × List UInt8)) : Files :=
  ⟨files, ([] :: files.flatMap fun f => parents f.1).eraseDups⟩

def get? (fs : Files) (t : Trail) : Option (List UInt8) := fs.files.lookup t

def isDirectory (fs : Files) (t : Trail) : Bool := fs.directories.contains t

/-- What a path leads to, step by step from a directory. The last component
need not exist. -/
def resolveFrom (fs : Files) : Trail → List String → Except FileError Trail
  | here, [] => .ok here
  | here, part :: rest =>
    if fs.isDirectory here then
      if part = ".." then resolveFrom fs here.dropLast rest
      else resolveFrom fs (here ++ [part]) rest
    else if (fs.get? here).isSome then .error .notDirectory
    else .error .notFound

/-- What a path leads to. Relative paths start in an unknown directory: all that
is known of them is that there are directories above it. -/
def resolve (fs : Files) (path : Path) : Except FileError Trail :=
  if path.isAbsolute then resolveFrom fs [] path.parts
  else if path.parts.all (· = "..") then .error .isDirectory
  else .error .notFound

/-- The bytes of the file at a path. -/
def read (fs : Files) (path : Path) : Except FileError (List UInt8) := do
  let t ← fs.resolve path
  match fs.get? t with
  | some bytes => return bytes
  | none => .error (if fs.isDirectory t then .isDirectory else .notFound)

/-- The text of the file at a path. -/
def readText (fs : Files) (path : Path) : Except FileError String := do
  match Utf8.decode? (← fs.read path) with
  | some s => return s
  | none => .error .notText

/-- Files in which the file at a trail has the given bytes; a new file comes
last. -/
def put (fs : Files) (t : Trail) (bytes : List UInt8) : Files :=
  if (fs.get? t).isSome then
    { fs with files := fs.files.map fun f => if f.1 = t then (t, bytes) else f }
  else { fs with files := fs.files ++ [(t, bytes)] }

/-- Writes the file at a path, whose directory exists. -/
def write (fs : Files) (path : Path) (bytes : List UInt8) : Except FileError Files := do
  let t ← fs.resolve path
  if fs.isDirectory t then .error .isDirectory
  else if fs.isDirectory t.dropLast then return fs.put t bytes
  else .error .notFound

/-- Removes the file at a path. One that is not there is no error. -/
def remove (fs : Files) (path : Path) : Except FileError Files :=
  match fs.resolve path with
  | .ok t =>
    if fs.isDirectory t then .error .isDirectory
    else .ok { fs with files := fs.files.filter fun f => f.1 ≠ t }
  | .error .notFound => .ok fs
  | .error e => .error e

end Files

end Retype
