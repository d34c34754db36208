import Retype.Config.Basic
/-! # Settings as JSON

The settings of a run as JSON values, under the keys that they have in a
configuration file.
-/

namespace Retype

def Json.ofTexts (xs : List String) : Json := .arr (xs.map Json.str)

/-- The entries of the section of the migration. -/
def MigrateSettings.entries (s : MigrateSettings) : Entries :=
  [("batch_size", .int s.batchSize), ("workers", .int s.workers),
    ("stall_seconds", .double s.stallSeconds), ("max_file_bytes", .int s.maxFileBytes),
    ("extensions", .ofTexts s.extensions), ("ignored_dirs", .ofTexts s.ignoredDirs),
    ("delete_originals", .bool s.deleteOriginals), ("test_file_suffix", .str s.testFileSuffix),
    ("utils_module", .str s.utilsModule), ("utils_binding", .str s.utilsBinding),
    ("helpers_namespace", .str s.helpersNamespace)]

/-- The entries of the section of the inference. -/
def InferenceSettings.entries (s : InferenceSettings) : Entries :=
  [("enabled", .bool s.enabled), ("command", .ofTexts s.command),
    ("max_type_length", .int s.maxTypeLength)]

/-- The entries of the section of the printer. -/
def PrinterOptions.entries (o : PrinterOptions) : Entries :=
  [("quote", .str o.quote), ("trailing_comma", .bool o.trailingComma),
    ("object_curly_spacing", .bool o.objectCurlySpacing)]

/-- A table as JSON. -/
def Table.toJson (t : Table) : Json := (Setting.table t).toJson

end Retype
