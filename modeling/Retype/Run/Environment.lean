import Retype.Batch.Loop
import Retype.Discovery.Basic
import Retype.Worker.Serve
/-! # The surroundings of a program run

What a run finds around it: the other programs that it calls, the number of
processors, the current directory. With a configuration it becomes the tools
that files are migrated with, and a worker. Each worker has a bridge and a
checker of its own, and so has the program itself, under the number 0.
-/

namespace Retype

open Batch (Toolchain Checker Loop)

/-- What a run finds around it. -/
structure Environment where
  cwd : String
  processors : Option Nat
  /-- Where the script of the bundled bridge lies. -/
  bridgeScript : String
  /-- What becomes of a request to the bridge that a command starts, after the
  earlier requests to it. -/
  react : Nat → List String → List Json → Json → Bridge.Reaction
  /-- How a command ends that asks the checker, after the earlier questions. -/
  check : Nat → List String → List Inference.Query → Inference.Query → Inference.CommandEnd
  /-- How deep values of a configuration may be nested. -/
  nesting : Nesting
  /-- How the listing of the repository at a root ends. -/
  listing : String → Discovery.ListingEnd
  /-- The order in which files are put into the queue. -/
  shuffle : List String → List String

namespace Environment

/-- The configuration at a root, read from a current directory. -/
def config (e : Environment) (files : Files) (cwd root : String) (configPath : Option String)
    (overrides : Table) : Except ConfigError Config :=
  Config.resolve e.nesting files cwd root configPath e.processors e.bridgeScript overrides

/-- The bridge of a worker under a configuration. -/
def bridge (e : Environment) (number : Nat) (c : Config) : Bridge :=
  ⟨c.bridgeCommand, c.printer, e.react number c.bridgeCommand⟩

/-- Whoever a worker asks for types under some settings, if it asks anybody. -/
def checker (e : Environment) (number : Nat) (s : InferenceSettings) : Option Checker :=
  if s.enabled then
    some ⟨s.maxTypeLength, fun earlier q =>
      (Inference.answerOf s.command q (e.check number s.command earlier q)).toOption⟩
  else none

/-- The tools of a worker under a configuration. -/
def toolchain (e : Environment) (number : Nat) (c : Config) : Toolchain :=
  ⟨c.migrate, e.bridge number c, e.checker number c.inference⟩

end Environment

/-- The report of everything that a loop has found. -/
def Batch.Loop.report (s : Loop) : Report := Report.ofFindings s.findings

/-- A worker migrates each batch in one loop, and reports all it has found so
far. -/
def Worker.migrating (t : Toolchain) : Worker.Handler Loop where
  handle := fun s paths => s.batch t paths
  report := Loop.report

end Retype
