import Retype.Source.Path
import Retype.Text.Blank
import Retype.Text.Quoted
import Retype.Text.Utf8
/-! # Discovery

The files that are to be migrated: those that the listing of the repository
names, that have one of the wanted suffixes, and that are in none of the
ignored directories.

The version control program lists the files of a repository, each name ended
by a zero byte. The listing arrives in pieces that may end anywhere, also
inside a character; names are complete as soon as their zero byte is there. A
listing that ends inside a name is an error.
-/

namespace Retype.Discovery

/-! ## The listing -/

/-- Why the files of a repository are not known. -/
inductive DiscoveryError where
  | notStarted (root reason : String)
  /-- The listing ends inside a name. -/
  | cutOff (rest : List UInt8)
  | failed (status : Int) (detail : String)
  deriving DecidableEq, Repr

def DiscoveryError.message : DiscoveryError → String
  | notStarted root reason => "could not run git in " ++ root ++ ": " ++ reason
  | cutOff rest => "git ls-files output ended mid-entry: " ++ Quoted.bytes rest
  | failed status detail => "git ls-files failed (exit " ++ toString status ++ "): " ++ detail

/-- The names that are complete, and the bytes of the one that is not. -/
structure Listing where
  names : List (List UInt8)
  rest : List UInt8
  deriving Repr

namespace Listing

def empty : Listing := ⟨[], []⟩

/-- A listing with one more byte. A name without bytes is none. -/
def push (l : Listing) (b : UInt8) : Listing :=
  if b = 0 then ⟨if l.rest.isEmpty then l.names else l.names ++ [l.rest], []⟩
  else ⟨l.names, l.rest ++ [b]⟩

/-- A listing with one more piece. -/
def append (l : Listing) (piece : List UInt8) : Listing := piece.foldl push l

/-- The listing that arrives in some pieces. -/
def ofPieces (pieces : List (List UInt8)) : Listing := pieces.foldl append empty

/-- The complete names as text. -/
def entries (l : Listing) : List String := l.names.map Utf8.decodeLossy

/-- What is wrong with a listing that has come to its end. -/
def failure? (l : Listing) : Option DiscoveryError :=
  if l.rest.isEmpty then none else some (.cutOff l.rest)

end Listing

/-! ## The files -/

/-- The command that lists the files. -/
def commandLine (command : List String) : List String := command ++ ["ls-files", "-z"]

/-- How the command ended. -/
inductive ListingEnd where
  | notStarted (reason : String)
  /-- What the reads of its output gave, its status, and its errors. -/
  | exited (reads : List (List UInt8)) (status : Int) (errors : List UInt8)

/-- Text without the slashes at its ends. -/
def trimSlashes (s : String) : String := String.ofList (Text.trimList (· == '/') s.toList)

/-- Whether a path is one of the ignored directories, or inside one. -/
def isIgnored (ignoredDirs : List String) (path : String) : Bool :=
  ignoredDirs.any fun dir =>
    let parts := (Path.parse (trimSlashes dir)).pieces
    !parts.isEmpty && parts.isPrefixOf (Path.parse path).pieces

/-- Whether a path, seen from the root of the repository, is to be migrated. -/
def isWanted (extensions ignoredDirs : List String) (path : String) : Bool :=
  extensions.contains (Path.parse path).suffix && !isIgnored ignoredDirs path

/-- The path of an entry of the listing. -/
def pathIn (root entry : String) : String := ((Path.parse root).join (Path.parse entry)).toText

/-- The files that are to be migrated, in the order of the listing. An empty
read is the end of the output. -/
def filesOf (root : String) (extensions ignoredDirs : List String) :
    ListingEnd → Except DiscoveryError (List String)
  | .notStarted reason => .error (.notStarted (Path.parse root).toText reason)
  | .exited reads status errors =>
    let listing := Listing.ofPieces (reads.takeWhile fun piece => !piece.isEmpty)
    match listing.failure? with
    | some e => .error e
    | none =>
      if status = 0 then
        .ok ((listing.entries.filter (isWanted extensions ignoredDirs)).map (pathIn root))
      else .error (.failed status (Text.trim (Utf8.decodeLossy errors)))

end Retype.Discovery
