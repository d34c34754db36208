import Retype.Syntax.Node
import Retype.TypeScript.Encode
/-! # Optional parameters

A TypeScript parameter list may only end in optional parameters. A parameter
that is marked optional, or has a default value, and is followed by a required
one loses its marker; its type admits `undefined` instead. Rest parameters do
not count.
-/

namespace Retype.Migration

open TypeScript (node)

/-- The node of the type `undefined`. -/
def undefinedType : Json := node TsKeyword.undefined.kindName []

/-- A type that also admits `undefined`. -/
def admitUndefined (type : Json) : Result Json :=
  if type.hasText "type" "TSUnionType" then do
    let types ← type.listField "types"
    if types.any (·.hasText "type" TsKeyword.undefined.kindName) then return type
    else return type.set "types" (.arr (types ++ [undefinedType]))
  else return node "TSUnionType" [("types", .arr [type, undefinedType])]

/-- A parameter whose annotation, if it has one, also admits `undefined`. -/
def widenWithUndefined (param : Json) : Result Json :=
  match param.get? "typeAnnotation" with
  | some typed =>
    if typed.hasText "type" "TSTypeAnnotation" then do
      let inner ← typed.field "typeAnnotation"
      return param.set "typeAnnotation" (typed.set "typeAnnotation" (← admitUndefined inner))
    else return param
  | none => return param

/-- A parameter that has lost its marker before a required one. -/
def requireParam (param : Json) : Result Json :=
  if param.hasText "type" "Identifier" then widenWithUndefined (param.erase "optional")
  else return param

/-- One parameter, given whether every later one may be left out, and whether
it may be left out itself. -/
def reorderParam (param : Json) (trailing : Bool) : Result (Json × Bool) :=
  if param.hasText "type" "RestElement" then return (param, trailing)
  else if param.hasText "type" "AssignmentPattern" then
    match param.get? "left" with
    | some (.obj entries) => do
      let left := Json.erase (.obj entries) "optional"
      let left ← if trailing then pure left else requireParam left
      return (param.set "left" left, trailing)
    | _ => .error (.malformedField "left")
  else if param.hasText "type" "Identifier" && param.holds "optional" then do
    if trailing then return (param, true)
    else return (← requireParam param, false)
  else return (param, false)

/-- The parameters of a list, and whether all of them may be left out. -/
def reorderFrom : List Json → Result (List Json × Bool)
  | [] => return ([], true)
  | param :: rest => do
    let (rest, trailing) ← reorderFrom rest
    let (param, trailing) ← reorderParam param trailing
    return (param :: rest, trailing)

/-- A parameter list in which only the end is optional. -/
def reorderParams (params : List Json) : Result (List Json) := do
  return (← reorderFrom params).1

end Retype.Migration
