import Retype.Config.Scalar
import Retype.Migration.Rewrite
import Retype.Source.Files
import Retype.Toml.Reader
/-! # Configuration

The settings of a run. They come from a file at the root, which need not be
there, and from the command line, which comes first. A file that is no TOML
counts as empty.
-/

namespace Retype

/-- Settings of the migration itself. -/
structure MigrateSettings where
  batchSize : Int
  workers : Int
  stallSeconds : Double
  maxFileBytes : Int
  extensions : List String
  ignoredDirs : List String
  deleteOriginals : Bool
  testFileSuffix : String
  utilsModule : String
  utilsBinding : String
  helpersNamespace : String
  deriving DecidableEq, Repr

/-- Settings of the inference of types. -/
structure InferenceSettings where
  enabled : Bool
  command : List String
  maxTypeLength : Int
  deriving DecidableEq, Repr

/-- Options of the printer. -/
structure PrinterOptions where
  quote : String
  trailingComma : Bool
  objectCurlySpacing : Bool
  deriving DecidableEq, Repr

/-- The settings of a run. -/
structure Config where
  root : String
  migrate : MigrateSettings
  inference : InferenceSettings
  bridgeCommand : List String
  printer : PrinterOptions
  allowlists : Table
  configPath : Option String

namespace Config

/-- The name of the file at the root. -/
def fileName : String := "flowshift.toml"

/-- The number of workers where none is given: one for each processor. -/
def defaultWorkers (processors : Option Nat) : Int :=
  match processors with
  | some (n + 1) => (n + 1 : Nat)
  | _ => 1

def defaultMigrate (processors : Option Nat) : MigrateSettings :=
  { batchSize := 50
    workers := defaultWorkers processors
    stallSeconds := Double.ofInt 120
    maxFileBytes := 1000000
    extensions := [".js"]
    ignoredDirs := []
    deleteOriginals := true
    testFileSuffix := ".test.js"
    utilsModule := Migration.defaultUtilsModule
    utilsBinding := "u"
    helpersNamespace := "h" }

def defaultInference : InferenceSettings := ⟨true, ["flow"], 100⟩

def defaultPrinter : PrinterOptions := ⟨"single", true, false⟩

/-- The section of the migration, over the defaults. -/
def migrateSettings (nesting : Nesting) (processors : Option Nat) (t : Table) :
    Except ConfigError MigrateSettings := do
  let d := defaultMigrate processors
  let extensions := (t.value "extensions").asNames
  let batchSize ← (t.value "batch_size").asPositiveInt d.batchSize
  let workers ← (t.value "workers").asPositiveInt d.workers
  let stallSeconds ← (t.value "stall_seconds").asPositiveDouble d.stallSeconds
  let maxFileBytes ← (t.value "max_file_bytes").asPositiveInt d.maxFileBytes
  let testFileSuffix ← (t.value "test_file_suffix").asText nesting.shown d.testFileSuffix
  let utilsModule ← (t.value "utils_module").asText nesting.shown d.utilsModule
  let utilsBinding ← (t.value "utils_binding").asText nesting.shown d.utilsBinding
  let helpersNamespace ← (t.value "helpers_namespace").asText nesting.shown d.helpersNamespace
  return {
    batchSize := batchSize
    workers := workers
    stallSeconds := stallSeconds
    maxFileBytes := maxFileBytes
    extensions := if extensions.isEmpty then d.extensions else extensions
    ignoredDirs := (t.value "ignored_dirs").asNames
    deleteOriginals := (t.value "delete_originals").asBool d.deleteOriginals
    testFileSuffix := testFileSuffix
    utilsModule := utilsModule
    utilsBinding := utilsBinding
    helpersNamespace := helpersNamespace }

/-- The section of the inference, over the defaults. -/
def inferenceSettings (t : Table) : Except ConfigError InferenceSettings := do
  let d := defaultInference
  let maxTypeLength ← (t.value "max_type_length").asPositiveInt d.maxTypeLength
  return ⟨(t.value "enabled").asBool d.enabled,
    (t.value "command").asCommand d.command, maxTypeLength⟩

/-- The quotes that the printer knows. -/
def quotes : List String := ["single", "double", "auto"]

/-- The section of the printer, over the defaults. -/
def printerOptions (t : Table) : PrinterOptions :=
  let d := defaultPrinter
  { quote := match t.value "quote" with
      | .text q => if quotes.contains q then q else d.quote
      | _ => d.quote
    trailingComma := (t.value "trailing_comma").asBool d.trailingComma
    objectCurlySpacing := (t.value "object_curly_spacing").asBool d.objectCurlySpacing }

/-- The section with a name; what is no table counts as empty. -/
def section? (t : Table) (name : String) : Table := (t.value name).entries

/-- The table of a configuration file. Only a file that is no text, a number
with too many digits and values nested too deep are errors. -/
def tableOf (nesting : Nesting) (file : Except FileError String) : Except ConfigError Table :=
  match file with
  | .ok s =>
    match Toml.read nesting.read s with
    | .ok t => .ok t
    | .error (.text .malformed) => .ok []
    | .error (.text .tooManyDigits) => .error .tooManyDigits
    | .error .tooDeep => .error .tooDeep
  | .error .notText => .error .notText
  | .error _ => .ok []

/-- The settings of a table, with those of the command line over it. -/
def ofTable (nesting : Nesting) (root : String) (configPath : Option String)
    (processors : Option Nat) (bridgeScript : String) (overrides t : Table) :
    Except ConfigError Config := do
  let migrate ← migrateSettings nesting processors ((section? t "migrate").override overrides)
  let inference ← inferenceSettings (section? t "oracle")
  return {
    root := root
    migrate := migrate
    inference := inference
    bridgeCommand := ((section? t "bridge").value "command").asCommand ["node", bridgeScript]
    printer := printerOptions (section? t "printer")
    allowlists := section? t "allowlists"
    configPath := configPath }

/-- The path of the configuration file of a run at a root: the one named, seen
from the current directory, or the one at the root. -/
def filePath (cwd root : String) (configPath : Option String) : Path :=
  match configPath with
  | some path => (Path.parse cwd).join (Path.parse path)
  | none => (Path.parse root).join (Path.parse fileName)

/-- The configuration of a run at a root. -/
def resolve (nesting : Nesting) (files : Files) (cwd root : String) (configPath : Option String)
    (processors : Option Nat) (bridgeScript : String) (overrides : Table) :
    Except ConfigError Config := do
  let t ← tableOf nesting (files.readText (filePath cwd root configPath))
  ofTable nesting root configPath processors bridgeScript overrides t

end Config

end Retype
