import Retype.Migration.Type
import Retype.TypeScript.Encode
/-! # Rewriting casts

A Flow cast is checked; `as` is not. Only a cast that an `as` can replace
without becoming less safe becomes one: a cast to `any`, a cast of a cast that
was unsound already, a literal cast to its own type, and a literal through and
through. Every other cast becomes a call of a helper that checks at run time,
which is a finding.
-/

namespace Retype.Migration

/-- How a cast is rewritten. -/
inductive CastStrategy where
  | nestedUnsound
  | unsound
  | constLiteral
  | structuralLiteral
  | safeCast
  deriving DecidableEq, Repr

def CastStrategy.name : CastStrategy → String
  | nestedUnsound => "nested-unsound"
  | unsound => "unsound"
  | constLiteral => "const-literal"
  | structuralLiteral => "structural-literal"
  | safeCast => "safe-cast"

def literalKinds : List String :=
  ["StringLiteral", "NumericLiteral", "BooleanLiteral", "NullLiteral", "RegExpLiteral",
    "BigIntLiteral", "DecimalLiteral"]

/-- Whether the value of a key is a list, or as good as none. -/
def isListAt (node : Json) (key : String) : Bool :=
  match node.get? key with
  | some (.arr _) => true
  | _ => !node.holds key

/-- Whether an expression is a literal, or an array, object or template made of
literals only. The name `undefined` counts as a literal; methods and spreads
of objects do not. -/
def isStructuralLiteral (e : Json) : Bool :=
  if e.kindIn literalKinds then true
  else if e.hasText "type" "TemplateLiteral" then
    isListAt e "expressions" &&
      (e.partsAt "expressions").all fun ⟨part, _⟩ => isStructuralLiteral part
  else if e.hasText "type" "Identifier" then e.hasText "name" "undefined"
  else if e.hasText "type" "ArrayExpression" then
    (e.partsAt "elements").all fun ⟨element, _⟩ =>
      if element.isNull then true
      else if element.hasText "type" "SpreadElement" then
        (element.below? "argument").elim false fun ⟨argument, _⟩ => isStructuralLiteral argument
      else isStructuralLiteral element
  else if e.hasText "type" "ObjectExpression" then
    (e.partsAt "properties").all fun ⟨property, _⟩ =>
      if property.kindIn ["ObjectMethod", "SpreadElement"] then false
      else
        (!property.holds "computed" ||
          (property.below? "key").elim false fun ⟨key, _⟩ => isStructuralLiteral key)
        && (property.below? "value").elim false fun ⟨value, _⟩ => isStructuralLiteral value
  else false
termination_by sizeOf e

/-- The type that a cast is to. -/
def castType (cast : Json) : Result Json := do
  (← cast.field "typeAnnotation").field "typeAnnotation"

/-- The expression that is cast. -/
def castExpression (cast : Json) : Result Json := cast.field "expression"

/-- `any`, or a bare reference to `Object` or `Function`. -/
def isUnsoundType (type : Json) : Result Bool :=
  if type.hasText "type" "AnyTypeAnnotation" then .ok true
  else if !type.hasText "type" "GenericTypeAnnotation" || type.holds "typeParameters" then .ok false
  else if !type.holds "id" then .ok false
  else do
    let id ← type.field "id"
    return id.hasText "type" "Identifier" &&
      (id.hasText "name" "Object" || id.hasText "name" "Function")

/-- Whether a literal is cast to its own type. -/
def isSelfLiteralCast (expression type : Json) : Bool :=
  ((expression.hasText "type" "StringLiteral" && type.hasText "type" "StringLiteralTypeAnnotation")
    || (expression.hasText "type" "NumericLiteral"
      && type.hasText "type" "NumberLiteralTypeAnnotation"))
  && Json.sameOption (expression.get? "value") (type.get? "value")

/-- Whether a node is a call of `createReactClass`. -/
def isCreateReactClassCall (node : Json) : Bool :=
  node.hasText "type" "CallExpression" &&
    match node.get? "callee" with
    | some callee => callee.hasText "type" "Identifier" && callee.hasText "name" "createReactClass"
    | none => false

/-- Whether an expression is itself a cast to an unsound type. -/
def isUnsoundCast (expression : Json) : Result Bool :=
  if expression.hasText "type" "TypeCastExpression" then do isUnsoundType (← castType expression)
  else .ok false

/-- The strategy for a cast. -/
def selectStrategy (cast : Json) : Result CastStrategy := do
  let expression ← castExpression cast
  let type ← castType cast
  if ← isUnsoundCast expression then return .nestedUnsound
  else if type.hasText "type" "AnyTypeAnnotation" then return .unsound
  else if isSelfLiteralCast expression type then return .constLiteral
  else if isStructuralLiteral expression then return .structuralLiteral
  else return .safeCast

open TypeScript (node identifier encode)

/-- `(expression as type)`. -/
def asExpression (expression type : Json) : Json :=
  node "TSAsExpression"
    [("expression", expression), ("typeAnnotation", type),
      ("extra", .obj [("parenthesized", .bool true)])]

/-- The call of the checked cast of the helper module. -/
def safeCastCall (binding : String) (expression type : Json) : Json :=
  node "CallExpression"
    [("callee", node "MemberExpression"
        [("object", identifier binding []), ("property", identifier "cast" []),
          ("computed", .bool false)]),
      ("arguments", .arr [expression]),
      ("typeParameters", node "TSTypeParameterInstantiation" [("params", .arr [type])])]

/-- The node of the type that a cast is to. -/
def migrateCastType (c : TypeContext) (cast : Json) : Recorded Json := do
  let type ← Recorded.ofResult (castType cast)
  return encode (← migrateNode c type)

/-- What a cast becomes by a strategy. Of an unsound cast inside another cast
the inner `as` is kept only where `keepsInner` says so. -/
def rewriteCast (c : TypeContext) (binding : String) (keepsInner : Bool) (cast : Json) :
    CastStrategy → Recorded Json
  | .nestedUnsound => do
    let inner ← Recorded.ofResult (castExpression cast)
    let expression ← Recorded.ofResult (castExpression inner)
    let target ← migrateCastType c cast
    if keepsInner then
      return asExpression (asExpression expression (← migrateCastType c inner)) target
    else return asExpression expression target
  | .unsound | .structuralLiteral => do
    let expression ← Recorded.ofResult (castExpression cast)
    return asExpression expression (← migrateCastType c cast)
  | .constLiteral => do
    let expression ← Recorded.ofResult (castExpression cast)
    return asExpression expression (node "TSTypeReference" [("typeName", identifier "const" [])])
  | .safeCast => do
    let expression ← Recorded.ofResult (castExpression cast)
    notePlace c .unsupportedTypeCast expression
    return safeCastCall binding expression (← migrateCastType c cast)

end Retype.Migration
