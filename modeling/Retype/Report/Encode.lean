import Retype.Json.Basic
import Retype.Report.Basic
/-! # Reports as JSON

The object that stands for a report in a message: one key for each category,
in their order.
-/

namespace Retype

def Position.toJson (p : Position) : Json := .obj [("line", .int p.line), ("column", .int p.column)]

def Location.toJson (l : Location) : Json :=
  .obj [("path", .str l.path), ("start", l.start.toJson), ("end", l.stop.toJson)]

namespace Report

/-- The value of a category. -/
def categoryJson (r : Report) : Category → Json
  | .path c => .arr ((r.files c).map Json.str)
  | .place c => .arr ((r.places c).map Location.toJson)
  | .anyAliasUsage => .obj (r.aliasUsage.map fun (name, count) => (name, Json.int count))
  | .unrecognizedUtilityTypes => .arr (r.utilityTypes.map Json.str)

def toJson (r : Report) : Json :=
  .obj (Category.all.map fun c => (c.name, r.categoryJson c))

end Report

end Retype
