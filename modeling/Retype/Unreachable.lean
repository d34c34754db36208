import Retype.Json.Text
/-! # Places that are never reached

The message that is given where a place is reached that should not be: the
reason, and the values that were at hand.
-/

namespace Retype.Unreachable

/-- The message for a reason and some named values. -/
def message (reason : String) (values : Entries) : String :=
  let detail := Json.commaSeparated (values.map fun (name, v) => name ++ "=" ++ v.quoted)
  let reason := if reason = "" then "never() marker reached" else reason
  if values.isEmpty then reason else reason ++ " [" ++ detail ++ "]"

end Retype.Unreachable
