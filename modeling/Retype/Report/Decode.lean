import Retype.Json.Basic
import Retype.Report.Basic
import Retype.Text.PlainNumeral
/-! # Reading reports

The report that an object stands for. A missing category is empty and an
unknown one does not count. Numbers may be given in other forms that denote
the same whole number: a double without a fraction, a truth value, text.
-/

namespace Retype

/-- Results of reading; what cannot be read has no further cause. -/
abbrev Validated (α : Type) := Option α

namespace Validated

/-- Doubles beyond this are not taken for whole numbers. -/
def wordBound : Int := (1 <<< 63 : Nat)

/-- A whole number in any of its forms. -/
def int : Json → Validated Int
  | .int i => some i
  | .bool b => some (if b then 1 else 0)
  | .double x => if x.isWhole ∧ x.trunc.natAbs < wordBound.natAbs then some x.trunc else none
  | .str s => PlainNumeral.int? s
  | _ => none

def text : Json → Validated String
  | .str s => some s
  | _ => none

def list {α : Type} (item : Json → Validated α) : Json → Validated (List α)
  | .arr items => items.mapM item
  | _ => none

/-- The value of a key that must be there. -/
def field {α : Type} (read : Json → Validated α) (j : Json) (key : String) : Validated α :=
  (j.get? key).bind read

/-- The value of a key, or a default if it is missing. -/
def fieldOr {α : Type} (default : α) (read : Json → Validated α) (j : Json) (key : String) :
    Validated α :=
  match j.get? key with
  | some v => read v
  | none => some default

end Validated

def Position.ofJson? (j : Json) : Validated Position := do
  let line ← Validated.field Validated.int j "line"
  let column ← Validated.field Validated.int j "column"
  return ⟨line, column⟩

def Location.ofJson? (j : Json) : Validated Location := do
  let path ← Validated.field Validated.text j "path"
  let start ← Validated.field Position.ofJson? j "start"
  let stop ← Validated.field Position.ofJson? j "end"
  return ⟨path, start, stop⟩

namespace Report

/-- Counts by name. -/
def countsOfJson? : Json → Validated (List (String × Int))
  | .obj entries => entries.mapM fun (name, v) => do return (name, ← Validated.int v)
  | _ => none

def ofJson? : Json → Validated Report
  | .obj entries => do
    let j := Json.obj entries
    let text := fun c : Category => Validated.fieldOr [] (Validated.list Validated.text) j c.name
    let locations := fun c : PlaceCategory =>
      Validated.fieldOr [] (Validated.list Location.ofJson?) j (Category.place c).name
    let skipped ← text (.path .skippedLargeFiles)
    let failed ← text (.path .failedFiles)
    let variance ← locations .typeParameterWithVariance
    let internal ← locations .objectPropertyWithInternalName
    let minus ← locations .objectPropertyWithMinusVariance
    let casts ← locations .unsupportedTypeCast
    let unannotated ← locations .unannotatedParameter
    let usage ← Validated.fieldOr [] countsOfJson? j Category.anyAliasUsage.name
    let utilities ← text .unrecognizedUtilityTypes
    return {
      files := fun
        | .skippedLargeFiles => skipped
        | .failedFiles => failed
      places := fun
        | .typeParameterWithVariance => variance
        | .objectPropertyWithInternalName => internal
        | .objectPropertyWithMinusVariance => minus
        | .unsupportedTypeCast => casts
        | .unannotatedParameter => unannotated
      aliasUsage := usage
      utilityTypes := utilities }
  | _ => none

end Report

end Retype
