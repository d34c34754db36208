import Retype.Config.Basic
import Retype.Dispatch.Orchestrator
import Retype.Discovery.Basic
import Retype.Report.Allowlist
/-! # Migrating a repository

A whole run: the files are found, the workers migrate them, their reports are
merged, the originals of the migrated files are deleted, and the report is
printed. Nothing is deleted before every worker has reported; the allowlists
are read after the deletion.
-/

namespace Retype

open Dispatch (Surroundings RunState RunEnd DispatchError)
open Discovery (DiscoveryError)

/-- Why a run fails. -/
inductive RunError where
  | discovery (cause : DiscoveryError)
  | dispatch (cause : DispatchError)
  /-- The workers have not come to an end. -/
  | unfinished
  | file (cause : FileError) (path : String)
  /-- An entry of the allowlists cannot be written out. -/
  | entry (cause : ConfigError)
  deriving DecidableEq, Repr

def RunError.message : RunError → String
  | discovery cause => cause.message
  | dispatch cause => cause.message
  | unfinished => "the workers have not come to an end"
  | file cause path => cause.message path
  | entry cause => cause.message

/-- Why a run fails whose allowlists cannot be loaded. -/
def RunError.ofLoad : Allowlists.LoadError → RunError
  | .file cause path => file cause path
  | .entry cause => entry cause

/-- Surroundings in which there are files. -/
structure Site (σ : Type) extends Surroundings σ where
  /-- How deep the entries of allowlists may be nested. -/
  levels : Nat
  files : σ → Files
  /-- Removes the file at a path; why that fails, if it does. -/
  unlink : σ → String → σ × Option FileError

/-- What has come of a run: the lines it printed, the state of its
surroundings, and the merged report or what went wrong. -/
structure RunResult (σ : Type) where
  lines : List String
  surroundings : σ
  result : Except RunError Report

/-- Deletes the files that are not to be kept, one after the other. -/
def deleteOriginals (site : Site σ) (keep : List String) : List String → σ → σ × Option RunError
  | [], s => (s, none)
  | path :: rest, s =>
    if keep.contains path then deleteOriginals site keep rest s
    else
      match site.unlink s path with
      | (s, none) => deleteOriginals site keep rest s
      | (s, some cause) => (s, some (.file cause path))

namespace Dispatch

/-- The line that an event prints. -/
def Event.line? : Event → Option String
  | .printed line => some line
  | _ => none

/-- What the primary depends on, under some settings. -/
def Settings.ofConfig (c : Config) : Settings :=
  ⟨c.migrate.workers, c.migrate.batchSize.toNat, c.migrate.stallSeconds, c.root⟩

end Dispatch

namespace RunResult

variable {σ : Type}

/-- A run that goes on after some lines. -/
def after (lines : List String) (r : RunResult σ) : RunResult σ :=
  { r with lines := lines ++ r.lines }

end RunResult

/-- The lines of the merged report, under the allowlists. -/
def printReport (site : Site σ) (c : Config) (s : σ) (merged : Report) : RunResult σ :=
  let loading := Allowlists.load site.levels (site.files s) (Path.parse c.root) c.allowlists
  match loading.result with
  | .error cause => ⟨loading.warnings, s, .error (.ofLoad cause)⟩
  | .ok lists => ⟨loading.warnings ++ merged.render lists c.root, s, .ok merged⟩

/-- Deletes the originals of the migrated files, if that is wanted, and prints
the report. -/
def concludeRun (site : Site σ) (c : Config) (files : List String) (s : σ) (merged : Report) :
    RunResult σ :=
  if c.migrate.deleteOriginals then
    let (s, failure) := deleteOriginals site merged.unmigrated files s
    let line := "Deleting all the old files."
    match failure with
    | some e => ⟨[line], s, .error e⟩
    | none => (printReport site c s merged).after [line]
  else printReport site c s merged

/-- Migrates some files. -/
def migrateFiles (site : Site σ) (c : Config) (shuffle : List String → List String)
    (maxRounds : Nat) (files : List String) (s : σ) : RunResult σ :=
  let (runEnd, run) :=
    (RunState.ofFiles s (shuffle files)).run site.toSurroundings (.ofConfig c) maxRounds
  let lines := run.events.filterMap Dispatch.Event.line?
  match runEnd with
  | .failed cause => ⟨lines, run.surroundings, .error (.dispatch cause)⟩
  | .unfinished => ⟨lines, run.surroundings, .error .unfinished⟩
  | .finished =>
    (concludeRun site c files run.surroundings (Report.merge run.reports)).after
      (lines ++ ["Merging reports from " ++ toString run.reports.length ++ " workers."])

/-- Migrates the files that were found. -/
def runMigration (site : Site σ) (c : Config) (shuffle : List String → List String)
    (maxRounds : Nat) (found : Except DiscoveryError (List String)) (s : σ) : RunResult σ :=
  match found with
  | .error cause => ⟨[], s, .error (.discovery cause)⟩
  | .ok files => migrateFiles site c shuffle maxRounds files s

/-- A bound on the rounds that workers need who answer at once: one for each
batch, and one for each report. -/
def roundsNeeded : Except DiscoveryError (List String) → Nat
  | .error _ => 0
  | .ok files => 2 * files.length + 2

end Retype
