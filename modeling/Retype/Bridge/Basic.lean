import Retype.Config.Basic
import Retype.Frame.Reader
/-! # The bridge

Source text is parsed and printed by another program, which takes requests and
gives responses. This file holds the requests, what can come of sending one,
and what is read out of a response. A type is parsed as the right side of an
alias.
-/

namespace Retype

/-- What comes of sending a request to the bridge. -/
inductive Exchange where
  /-- The program cannot be started. -/
  | notStarted (reason : String)
  /-- The request cannot be sent. -/
  | notSent (reason : String)
  /-- What comes back is no frame. -/
  | malformed (cause : FrameError)
  /-- The program has ended. -/
  | ended
  | response (content : Json)

/-- Why the bridge gives no tree or no text. -/
inductive BridgeError where
  | notStarted (command : List String) (reason : String)
  | notSent (reason : String)
  | malformed (cause : FrameError)
  | ended
  /-- The bridge itself reports an error. -/
  | reported (message : String)
  | noTree
  | noCode
  | notOneStatement
  | notAnAlias
  | noRightSide
  deriving DecidableEq, Repr

def BridgeError.message : BridgeError → String
  | notStarted command reason =>
    "could not start bridge " ++ (Json.arr (command.map Json.str)).quoted ++ ": " ++ reason
  | notSent reason => "bridge transport failed: " ++ reason
  | malformed cause => "bridge transport failed: " ++ cause.message
  | ended => "bridge process exited"
  | reported message => message
  | noTree => "bridge returned no tree"
  | noCode => "bridge returned no code"
  | notOneStatement => "expected exactly one statement in type source"
  | notAnAlias => "expected a type alias statement"
  | noRightSide => "type alias without a right-hand side"

namespace Bridge

/-- The request to parse a text. -/
def parseRequest (source : String) : Json :=
  .obj [("op", .str "parse"), ("source", .str source)]

/-- The options of the printer in a request. -/
def printerPayload (o : PrinterOptions) : Json :=
  .obj [("quote", .str o.quote), ("trailingComma", .bool o.trailingComma),
    ("objectCurlySpacing", .bool o.objectCurlySpacing)]

/-- The request to print a tree that was parsed from a text. -/
def printRequest (o : PrinterOptions) (tree : Json) (source : String) : Json :=
  .obj [("op", .str "print"), ("source", .str source), ("tree", tree),
    ("options", printerPayload o)]

/-- The response, unless there is none or it reports an error. -/
def responseOf (command : List String) : Exchange → Except BridgeError Json
  | .notStarted reason => .error (.notStarted command reason)
  | .notSent reason => .error (.notSent reason)
  | .malformed cause => .error (.malformed cause)
  | .ended => .error .ended
  | .response r => if r.holds "error" then .error (.reported (r.textAt "error")) else .ok r

/-- The tree in a response. -/
def treeOf (response : Json) : Except BridgeError Json :=
  match response.get? "tree" with
  | some (.obj entries) => .ok (.obj entries)
  | _ => .error .noTree

/-- The text in a response. -/
def codeOf (response : Json) : Except BridgeError String :=
  match response.get? "code" with
  | some (.str s) => .ok s
  | _ => .error .noCode

/-- The text that declares a type. -/
def aliasSource (text : String) : String := "type T = " ++ text

/-- The statements of a tree. -/
def statements? (tree : Json) : Option (List Json) :=
  match tree.get? "program" with
  | some program =>
    match program.get? "body" with
    | some (.arr body) => some body
    | _ => none
  | none => none

/-- The right side of the alias that is the only statement of a tree. -/
def aliasRight (tree : Json) : Except BridgeError Json :=
  match statements? tree with
  | some [statement] =>
    if statement.hasText "type" "TypeAlias" then
      match statement.get? "right" with
      | some (.obj entries) => .ok (.obj entries)
      | _ => .error .noRightSide
    else .error .notAnAlias
  | _ => .error .notOneStatement

/-! ## What comes of a request -/

/-- The tree that a bridge with a command gives. -/
def parsed (command : List String) (x : Exchange) : Except BridgeError Json := do
  treeOf (← responseOf command x)

/-- The type that it gives. -/
def parsedType (command : List String) (x : Exchange) : Except BridgeError Json := do
  aliasRight (← parsed command x)

/-- The text that it gives. -/
def printed (command : List String) (x : Exchange) : Except BridgeError String := do
  codeOf (← responseOf command x)

end Bridge

end Retype
