import Retype.Command.Arguments
/-! # What a command line asks for

The commands and their options. Arguments that are not in order ask for
nothing.
-/

namespace Retype.Command

/-- What a command line asks for. -/
inductive Request where
  /-- A whole repository is migrated. -/
  | run (root : String) (config : Option String) (overrides : Table)
  /-- One file is migrated. -/
  | migrateFile (path root : String) (config : Option String) (toOutput withoutChecker : Bool)
  deriving Inhabited

/-- What the command line of a worker asks for. -/
structure WorkerRequest where
  root : String
  config : Option String
  deriving DecidableEq, Repr

namespace Request

def runOptions : List OptionSpec :=
  [⟨"--config", true⟩, ⟨"--workers", true⟩, ⟨"--batch-size", true⟩, ⟨"--stall-seconds", true⟩,
    ⟨"--keep-originals", false⟩]

def migrateFileOptions : List OptionSpec :=
  [⟨"--root", true⟩, ⟨"--config", true⟩, ⟨"--stdout", false⟩, ⟨"--no-oracle", false⟩]

/-- The shortest time after which a batch may count as stalled. -/
def leastStall : Double := Double.ofDecimal false 1 (-3)

/-- The current directory, as a path. -/
def here : String := "."

def readRun (args : List String) : Option Request := do
  let a ← Arguments.read runOptions args
  let root ←
    match a.operands with
    | [] => some here
    | [root] => some root
    | _ => none
  let workers ← a.positiveInt "--workers"
  let batchSize ← a.positiveInt "--batch-size"
  let stall ← a.boundedDouble "--stall-seconds" leastStall
  let delete := if a.has "--keep-originals" then Setting.bool false else .null
  return run root (a.value? "--config")
    [("workers", workers), ("batch_size", batchSize), ("stall_seconds", stall),
      ("delete_originals", delete)]

def readMigrateFile (args : List String) : Option Request := do
  let a ← Arguments.read migrateFileOptions args
  match a.operands with
  | [path] =>
    return migrateFile path ((a.value? "--root").getD here) (a.value? "--config")
      (a.has "--stdout") (a.has "--no-oracle")
  | _ => none

/-- What a command line asks for. -/
def read : List String → Option Request
  | "--" :: args => readCommand args
  | args => readCommand args
where
  /-- The command is the first argument. -/
  readCommand : List String → Option Request
    | "run" :: args => readRun args
    | "migrate-file" :: args => readMigrateFile args
    | _ => none

end Request

def WorkerRequest.options : List OptionSpec := [⟨"--root", true⟩, ⟨"--config", true⟩]

def WorkerRequest.read (args : List String) : Option WorkerRequest := do
  let a ← Arguments.read options args
  let root ← a.value? "--root"
  if a.operands.isEmpty then return ⟨root, a.value? "--config"⟩ else none

end Retype.Command
