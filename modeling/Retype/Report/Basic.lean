import Retype.Report.Finding
/-! # Reports

What was found, by category. A report is made from findings in the order in
which they were made. Reports of several workers are merged into one whose
lists are sorted, so that the order of the workers does not show.
-/

namespace Retype

/-- Findings by category. -/
structure Report where
  /-- The paths in each category of files. -/
  files : PathCategory → List String
  /-- The locations in each category of places. -/
  places : PlaceCategory → List Location
  /-- How often each alias of `any` was inserted. -/
  aliasUsage : List (String × Int)
  /-- The utility types that were kept. -/
  utilityTypes : List String

namespace Report

/-- Text in order of code points. -/
def sortText (xs : List String) : List String := xs.mergeSort fun a b => decide (a ≤ b)

def sortLocations (ls : List Location) : List Location := ls.mergeSort Location.le

def empty : Report := ⟨fun _ => [], fun _ => [], [], []⟩

instance : Inhabited Report := ⟨empty⟩

def pathIn? (c : PathCategory) : Finding → Option String
  | .file c' path => if c' = c then some path else none
  | _ => none

def locationIn? (c : PlaceCategory) : Finding → Option Location
  | .place c' location => if c' = c then some location else none
  | _ => none

def aliasIn? : Finding → Option String
  | .anyAlias name => some name
  | _ => none

def utilityIn? : Finding → Option String
  | .utilityType name => some name
  | _ => none

/-- The report of some findings. -/
def ofFindings (fs : List Finding) : Report :=
  let aliases := fs.filterMap aliasIn?
  { files := fun c => fs.filterMap (pathIn? c)
    places := fun c => fs.filterMap (locationIn? c)
    aliasUsage := aliases.eraseDups.map fun name => (name, (aliases.count name : Int))
    utilityTypes := sortText (fs.filterMap utilityIn?).eraseDups }

/-- The sum of the counts of a name in several reports. -/
def totalUsage (reports : List Report) (name : String) : Int :=
  ((reports.flatMap (·.aliasUsage)).filter (·.1 = name)).foldl (fun n e => n + e.2) 0

/-- One report for several: lists are joined and sorted, counts are added up,
sets are united. -/
def merge (reports : List Report) : Report :=
  let names := sortText ((reports.flatMap (·.aliasUsage)).map (·.1)).eraseDups
  { files := fun c => sortText (reports.flatMap (·.files c))
    places := fun c => sortLocations (reports.flatMap (·.places c))
    aliasUsage := names.map fun name => (name, totalUsage reports name)
    utilityTypes := sortText (reports.flatMap (·.utilityTypes)).eraseDups }

/-- The files that a report says have not been migrated. -/
def unmigrated (r : Report) : List String :=
  r.files .failedFiles ++ r.files .skippedLargeFiles

end Report

end Retype
