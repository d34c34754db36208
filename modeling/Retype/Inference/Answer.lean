import Retype.Text.Blank
/-! # Answers of the checker

The usable text in what the checker prints for a position: its first line,
without the remark whether the type was written or inferred. An unknown type
is no answer, and neither is one longer than a person would write.
-/

namespace Retype.Inference

/-- The remarks that may end an answer. -/
def qualifiers : List (List Char) := [" (implicit)".toList, " (explicit)".toList]

/-- Text without one remark at its end. -/
def dropQualifier (line : List Char) : List Char :=
  match qualifiers.find? (·.isSuffixOf line) with
  | some q => line.take (line.length - q.length)
  | none => line

/-- The usable text of an answer. -/
def sanitize (maxLength : Int) (output : String) : Option String :=
  let line := output.toList.takeWhile (· ≠ '\n')
  let text := dropQualifier line
  if text = "(unknown)".toList ∨ maxLength ≤ (text.length : Int) then none
  else some (String.ofList text)

end Retype.Inference
