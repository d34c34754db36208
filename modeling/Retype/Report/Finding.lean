import Retype.Source.Location
/-! # Findings

What a migration has to tell a person: files it left alone, places where the
source says more than the result, and names it had to fall back on. Findings
fall into nine categories with a fixed order.
-/

namespace Retype

/-- Categories of findings that are files. -/
inductive PathCategory where
  | skippedLargeFiles
  | failedFiles
  deriving DecidableEq, Repr

/-- Categories of findings that are places. -/
inductive PlaceCategory where
  | typeParameterWithVariance
  | objectPropertyWithInternalName
  | objectPropertyWithMinusVariance
  | unsupportedTypeCast
  | unannotatedParameter
  deriving DecidableEq, Repr

/-- The categories of a report. -/
inductive Category where
  | path (c : PathCategory)
  | place (c : PlaceCategory)
  | anyAliasUsage
  | unrecognizedUtilityTypes
  deriving DecidableEq, Repr

namespace Category

/-- The categories in the order in which they are printed. -/
def all : List Category :=
  [path .skippedLargeFiles, path .failedFiles, place .typeParameterWithVariance,
    place .objectPropertyWithInternalName, place .objectPropertyWithMinusVariance,
    place .unsupportedTypeCast, place .unannotatedParameter, anyAliasUsage,
    unrecognizedUtilityTypes]

/-- The name of a category in reports and settings. -/
def name : Category → String
  | path .skippedLargeFiles => "skipped_large_files"
  | path .failedFiles => "failed_files"
  | place .typeParameterWithVariance => "type_parameter_with_variance"
  | place .objectPropertyWithInternalName => "object_property_with_internal_name"
  | place .objectPropertyWithMinusVariance => "object_property_with_minus_variance"
  | place .unsupportedTypeCast => "unsupported_type_cast"
  | place .unannotatedParameter => "unannotated_parameter"
  | anyAliasUsage => "any_alias_usage"
  | unrecognizedUtilityTypes => "unrecognized_utility_types"

/-- The heading under which the entries of a category are printed. -/
def title : Category → String
  | path .skippedLargeFiles => "Skipped large files:"
  | path .failedFiles => "Failed to migrate files:"
  | place .typeParameterWithVariance => "Type parameter with variance:"
  | place .objectPropertyWithInternalName => "Object property with an internal name:"
  | place .objectPropertyWithMinusVariance => "Object property with negative variance:"
  | place .unsupportedTypeCast => "Unsupported type cast:"
  | place .unannotatedParameter => "Parameter left without an inferred type:"
  | anyAliasUsage => "Unsound type aliases inserted:"
  | unrecognizedUtilityTypes => "Unrecognized Flow utility types:"

def ofName? (s : String) : Option Category := all.find? fun c => c.name = s

end Category

/-- One finding. -/
inductive Finding where
  /-- A file, by its path. -/
  | file (category : PathCategory) (path : String)
  /-- A place. -/
  | place (category : PlaceCategory) (location : Location)
  /-- An alias of `any` was inserted. -/
  | anyAlias (name : String)
  /-- A utility type without a known counterpart was kept. -/
  | utilityType (name : String)
  deriving DecidableEq, Repr

end Retype
