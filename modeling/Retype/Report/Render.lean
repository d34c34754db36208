import Retype.Report.Basic
/-! # Printing a report

A report is printed category by category under headings. Entries that have
been reviewed are listed in allowlists and left out; a category without
entries left is not printed. Paths are shown from a current directory.
-/

namespace Retype

/-- The reviewed entries of each category. -/
abbrev Allowlists := List (Category × List String)

/-- The reviewed entries of a category. -/
def Allowlists.allowed (lists : Allowlists) (c : Category) : List String :=
  (lists.filter (·.1 = c)).flatMap (·.2)

namespace Report

/-- The alias counts, the highest first, equal ones by name. -/
def rankedUsage (r : Report) : List (String × Int) :=
  r.aliasUsage.mergeSort fun a b => decide (b.2 < a.2) || (a.2 == b.2 && decide (a.1 ≤ b.1))

/-- The entries of a category as they are shown. -/
def entries (r : Report) (cwd : String) : Category → List String
  | .path c => (r.files c).map fun path => Path.display path cwd
  | .place c => (r.places c).map fun location => location.display cwd
  | .anyAliasUsage => r.rankedUsage.map (·.1)
  | .unrecognizedUtilityTypes => r.utilityTypes

/-- The count of an alias. -/
def usageOf (r : Report) (name : String) : Int := (r.aliasUsage.lookup name).getD 0

/-- The line of an entry. -/
def entryLine (r : Report) (c : Category) (entry : String) : String :=
  match c with
  | .anyAliasUsage => "• " ++ entry ++ ": " ++ toString (r.usageOf entry) ++ " time(s)"
  | _ => "• " ++ entry

/-- The entries of a category that have not been reviewed. -/
def openEntries (r : Report) (lists : Allowlists) (cwd : String) (c : Category) : List String :=
  (r.entries cwd c).filter fun e => !(lists.allowed c).contains e

/-- The lines of a category. -/
def categoryLines (r : Report) (lists : Allowlists) (cwd : String) (c : Category) : List String :=
  match r.openEntries lists cwd c with
  | [] => []
  | entries => "" :: c.title :: entries.map (r.entryLine c)

/-- The lines of a report. -/
def render (r : Report) (lists : Allowlists) (cwd : String) : List String :=
  Category.all.flatMap (r.categoryLines lists cwd)

end Report

end Retype
