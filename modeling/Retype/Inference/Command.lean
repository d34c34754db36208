import Retype.Source.Location
import Retype.Text.Quoted
import Retype.Text.Utf8
/-! # Asking the checker

The command that asks the checker for the type at a position, the line that is
logged for it, and what its ending means. The checker counts columns from one.
-/

namespace Retype.Inference

/-- A question: the type at a place in a file. -/
structure Query where
  path : String
  location : Location
  deriving DecidableEq, Repr, Inhabited

/-- Why there is no answer. -/
inductive Unavailable where
  | notStarted (program reason : String)
  | failed (status : Int) (detail : String)
  deriving DecidableEq, Repr

def Unavailable.message : Unavailable → String
  | notStarted program reason => "could not run " ++ Quoted.text program ++ ": " ++ reason
  | failed status detail =>
    "flow type-at-pos failed (exit " ++ toString status ++ "): " ++ detail

/-- How the command ended: it was not started, or it has a status and output. -/
inductive CommandEnd where
  | notStarted (reason : String)
  | exited (status : Int) (output errors : List UInt8)

/-- The arguments of the command. -/
def commandLine (command : List String) (q : Query) : List String :=
  command ++ ["type-at-pos", q.path, toString q.location.start.line,
    toString (q.location.start.column + 1), "--no-auto-start"]

/-- Characters that a path may have without being quoted in the log. -/
def isPlain (c : Char) : Bool := c.isAlphanum || c == '.' || c == '/' || c == '_'

/-- The command as it is logged, its path seen from the root. -/
def logText (root : String) (q : Query) : String :=
  let shown := Path.display q.path root
  let shown := if shown.toList.all isPlain then shown else "\"" ++ shown ++ "\""
  "flow type-at-pos " ++ shown ++ " " ++ toString q.location.start.line ++ " "
    ++ toString (q.location.start.column + 1)

/-- A line in faint letters. -/
def dim (s : String) : String := "\x1b[2m" ++ s ++ "\x1b[0m"

/-- What the ending of the command means. -/
def answerOf (command : List String) (q : Query) : CommandEnd → Except Unavailable String
  | .notStarted reason =>
    .error (.notStarted ((commandLine command q).headD "") reason)
  | .exited status output errors =>
    if status = 0 then .ok (Utf8.decodeLossy output)
    else .error (.failed status (Text.trim (Utf8.decodeLossy errors)))

end Retype.Inference
