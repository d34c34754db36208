import Retype.Migration.Type
/-! # Rewriting a file

The state of the rewriting of one file, and its options. The state holds the
findings, the parameters that wait for an inferred type, whether a checked
cast was inserted, and whether the file has markup in it. A refusal keeps the
state.
-/

namespace Retype.Migration

/-- The module of the helpers that rewritten files import. -/
def defaultUtilsModule : String := "client_server_shared/u"

/-- What the rewriting of one file depends on besides its tree. -/
structure FileOptions where
  path : String
  isTestFile : Bool := false
  helpers : String := "h"
  utilsModule : String := defaultUtilsModule
  utilsBinding : String := "u"
  /-- Whether somebody can be asked for the types of parameters. -/
  infers : Bool := false

def FileOptions.types (o : FileOptions) : TypeContext := ⟨o.path, o.helpers⟩

/-- What the rewriting of a file has produced besides its tree. -/
structure Progress where
  findings : List Finding := []
  /-- The locations of the parameters that wait for an inferred type. -/
  waiting : List (Result Location) := []
  usesHelper : Bool := false
  hasJsx : Bool := false

/-- A step of the rewriting of a file. -/
abbrev Rewrite := ExceptT Refusal (StateM Progress)

namespace Rewrite

variable {α : Type}

def refuse (e : Refusal) : Rewrite α := throw e

def ofResult : Result α → Rewrite α
  | .ok a => pure a
  | .error e => throw e

/-- A recorded result as a step: its findings come after those before it. -/
def ofRecorded (r : Recorded α) : Rewrite α := do
  modify fun p => { p with findings := p.findings ++ r.findings }
  ofResult r.result

end Rewrite

end Retype.Migration
