import Retype.Command.Request
import Retype.Run.Fleet
import Retype.Run.Migration
/-! # The program

What each command does with the files, what it writes, and how it ends. An
error that a person can do something about is one line; any other one breaks
the program off. A command line that is not in order changes nothing.
-/

namespace Retype.Command

open Batch (Loop LogEntry Failure MigratedFile Done)

/-- Why a command fails. -/
inductive CommandError where
  | config (cause : ConfigError)
  | run (cause : RunError)
  | file (cause : Failure)
  | protocol (cause : ProtocolError)
  deriving DecidableEq, Repr

namespace CommandError

/-- Whether an error of the file system is one that a person can do something
about: everything but bytes that are no text. -/
def isFileTrouble : FileError → Bool
  | .notText => false
  | _ => true

/-- Whether an error of the dispatch is one that a person can do something
about. -/
def isDispatchTrouble : Dispatch.DispatchError → Bool
  | .emptyBatches => false
  | .deadlineTooFar => false
  | .unreadable cause => cause.isOfProtocol
  | _ => true

/-- Whether the error is reported in one line. -/
def isReported : CommandError → Bool
  | config _ => false
  | run (.file cause _) => isFileTrouble cause
  | run (.dispatch cause) => isDispatchTrouble cause
  | run (.entry _) => false
  | run _ => true
  | file (.file cause _) => isFileTrouble cause
  | file (.bridge (.malformed cause)) => cause.isOfProtocol
  | file (.bridge _) => true
  | file (.refused (.unsupported ..)) => true
  | file _ => false
  | protocol cause => cause.isOfProtocol

def message : CommandError → String
  | config cause => cause.message
  | run cause => cause.message
  | file cause => cause.message
  | protocol cause => cause.message

end CommandError

/-- What a command writes for a person besides its output. -/
inductive Notice where
  | line (s : String)
  | entry (e : LogEntry)
  | broken (cause : WorkerFailure)

/-- The lines of a log entry; paths are seen from the root. -/
def entryLines (root : String) : LogEntry → List String
  | .asked q => [Inference.dim (Inference.logText root q)]
  | .parsed _ => []
  | .failed path cause => ["Failed to migrate " ++ path ++ ":", cause.message]

def Notice.lines (root : String) : Notice → List String
  | line s => [s]
  | entry e => entryLines root e
  | broken (.config cause) => [(CommandError.config cause).message]
  | broken (.protocol cause) => [(CommandError.protocol cause).message]

/-- How a command ends. -/
inductive Ending where
  | done
  /-- The error is reported. -/
  | failed (cause : CommandError)
  /-- The program breaks off. -/
  | brokeOff (cause : CommandError)
  /-- The command line is not in order. -/
  | misused
  deriving DecidableEq, Repr

/-- What a person is told about the end of a program that breaks off. -/
def Ending.lines : Ending → List String
  | brokeOff cause => [cause.message]
  | misused => ["the command line is not in order"]
  | _ => []

/-- The status of the process. -/
def Ending.status : Ending → Nat
  | done => 0
  | failed _ => 1
  | brokeOff _ => 1
  | misused => 2

/-- What has come of a command. -/
structure Outcome where
  ending : Ending
  output : String
  notices : List Notice
  files : Files

namespace Outcome

def misuse (files : Files) : Outcome := ⟨.misused, "", [], files⟩

/-- A command that fails after it has written something. -/
def failure (output : String) (notices : List Notice) (files : Files) (cause : CommandError) :
    Outcome :=
  if cause.isReported then
    ⟨.failed cause, output, notices ++ [.line ("flowshift: " ++ cause.message)], files⟩
  else ⟨.brokeOff cause, output, notices, files⟩

end Outcome

/-- Lines as output. -/
def unlines (lines : List String) : String := String.join (lines.map (· ++ "\n"))

/-- The absolute path of a path on the command line. -/
def absolutePath (e : Environment) (path : String) : String :=
  ((Path.parse e.cwd).absolute (Path.parse path)).toText

def WorkerNotice.toNotice : WorkerNotice → Notice
  | .entry entry => .entry entry
  | .broken cause => .broken cause

/-! ## A repository -/

/-- The files, with the workers of the fleet around them. -/
def fleetSite (e : Environment) (pace : Fleet.Pace) (root : String) (config : Option String) :
    Site Fleet where
  toSurroundings := Fleet.surroundings e pace root config
  levels := e.nesting.shown
  files := Fleet.files
  unlink := fun f path =>
    match f.files.remove (Path.parse path) with
    | .ok files => ({ f with files := files }, none)
    | .error cause => (f, some cause)

/-- Migrates the repository of a configuration. -/
def migrateRepository (e : Environment) (c : Config) (files : Files)
    (found : Except Discovery.DiscoveryError (List String)) : RunResult Fleet :=
  runMigration (fleetSite e .atOnce c.root c.configPath) c e.shuffle (roundsNeeded found) found
    (Fleet.ofFiles files)

/-- The files that the listing of the repository names. -/
def discover (e : Environment) (c : Config) : Except Discovery.DiscoveryError (List String) :=
  Discovery.filesOf c.root c.migrate.extensions c.migrate.ignoredDirs (e.listing c.root)

def runCommand (e : Environment) (files : Files) (root : String) (config : Option String)
    (overrides : Table) : Outcome :=
  match e.config files e.cwd (absolutePath e root) config overrides with
  | .error cause => .failure "" [] files (.config cause)
  | .ok c =>
    let r := migrateRepository e c files (discover e c)
    let output := unlines r.lines
    let notices := r.surroundings.notices.map WorkerNotice.toNotice
    match r.result with
    | .ok _ => ⟨.done, output, notices, r.surroundings.files⟩
    | .error cause => .failure output notices r.surroundings.files (.run cause)

/-! ## One file -/

/-- Whether a path names a file that is there. -/
def isFile (e : Environment) (files : Files) (path : String) : Bool :=
  match files.read ((Path.parse e.cwd).join (Path.parse path)) with
  | .ok _ => true
  | .error _ => false

/-- Prints the report of one file. -/
def printFileReport (e : Environment) (c : Config) (files : Files) (output : String)
    (notices : List Notice) (report : Report) : Outcome :=
  let loading := Allowlists.load e.nesting.shown files (Path.parse c.root) c.allowlists
  let notices := notices ++ loading.warnings.map .line
  match loading.result with
  | .error cause => .failure output notices files (.run (.ofLoad cause))
  | .ok lists => ⟨.done, output, notices ++ (report.render lists c.root).map .line, files⟩

/-- Puts a migrated file where it is wanted. -/
def deliver (e : Environment) (c : Config) (toOutput : Bool) (notices : List Notice)
    (report : Report) (files : Files) (m : MigratedFile) : Outcome :=
  if toOutput then printFileReport e c files m.text notices report
  else
    match m.write files with
    | .error cause => .failure "" notices files (.file cause)
    | .ok files => printFileReport e c files "" (notices ++ [.line ("Wrote " ++ m.target)]) report

/-- Migrates one file. -/
def migrateOne (e : Environment) (c : Config) (toOutput : Bool) (files : Files) (path : String) :
    Outcome :=
  let tools := e.toolchain 0 c
  let loop := ((Loop.ofFiles files).alone tools (.file path)).close tools
  let notices := loop.log.map Notice.entry
  match loop.result with
  | some (.error cause) => .failure "" notices files (.file cause)
  | some (.ok (.file m)) => deliver e c toOutput notices loop.report files m
  | _ => printFileReport e c files "" notices loop.report

/-- A configuration under which nobody is asked for types. -/
def withoutChecker (c : Config) : Config :=
  { c with inference := { c.inference with enabled := false } }

def migrateFileCommand (e : Environment) (files : Files) (path root : String)
    (config : Option String) (toOutput noChecker : Bool) : Outcome :=
  if isFile e files path then
    match e.config files e.cwd (absolutePath e root) config [] with
    | .error cause => .failure "" [] files (.config cause)
    | .ok c =>
      migrateOne e (if noChecker then withoutChecker c else c) toOutput files (absolutePath e path)
  else .misuse files

/-- Runs a command line. -/
def program (e : Environment) (files : Files) (args : List String) : Outcome :=
  match Request.read args with
  | none => .misuse files
  | some (.run root config overrides) => runCommand e files root config overrides
  | some (.migrateFile path root config toOutput noChecker) =>
    migrateFileCommand e files path root config toOutput noChecker

/-! ## A worker -/

/-- What has come of a worker: how it ended, its replies, what it wrote
besides, and the files. -/
structure WorkerOutcome where
  ending : Ending
  replies : List Message
  log : List LogEntry
  files : Files

/-- Serves the messages in an input under a configuration. -/
def serveInput (e : Environment) (c : Config) (files : Files) (input : ByteStream) :
    WorkerOutcome :=
  let tools := e.toolchain 0 c
  let served := Worker.serve (Worker.migrating tools) (Loop.ofFiles files) input
  let loop := served.state.close tools
  let ending :=
    match served.failure with
    | none => Ending.done
    | some cause => .brokeOff (.protocol cause)
  ⟨ending, served.replies, loop.log, loop.files⟩

/-- Runs the command line of a worker. -/
def workerProgram (e : Environment) (files : Files) (args : List String) (input : ByteStream) :
    WorkerOutcome :=
  match WorkerRequest.read args with
  | none => ⟨.misused, [], [], files⟩
  | some r =>
    match e.config files e.cwd (absolutePath e r.root) r.config [] with
    | .error cause => ⟨.brokeOff (.config cause), [], [], files⟩
    | .ok c => serveInput e c files input

end Retype.Command
