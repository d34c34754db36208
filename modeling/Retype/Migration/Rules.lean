import Retype.Migration.Cast
import Retype.Migration.Handover
import Retype.Migration.Params
/-! # The rules for statements and expressions

What is done to each kind of node on the walk through a file. Types are
rewritten whole where they hang in the tree, so the walk meets no part of a
Flow type. What has no counterpart is refused.
-/

namespace Retype.Migration

open Syntax (Place Visit Handover)
open TypeScript (node identifier encode annotationNode)

/-- What is done to a node on the way down. -/
inductive EnterRule where
  | annotated
  | typeParams
  | typeArgs
  | implementsClause
  | importDeclaration
  | exportNamed
  | typeAlias
  | opaqueType
  | interfaceDeclaration
  | declarator
  | functionDeclaration
  | classMethod
  | objectMethod
  | classProperty
  | typeCast
  | markup
  | flowOnly
  deriving DecidableEq, Repr

/-- What is done to a node on the way up. -/
inductive LeaveRule where
  | program
  | function
  | assignmentPattern
  deriving DecidableEq, Repr

/-- Kinds of nodes that exist in Flow only and are refused. -/
def flowOnlyKinds : List String :=
  ["DeclareClass", "DeclareExportAllDeclaration", "DeclareExportDeclaration", "DeclareFunction",
    "DeclareInterface", "DeclareModule", "DeclareModuleExports", "DeclareOpaqueType",
    "DeclareTypeAlias", "DeclareVariable", "DeclaredPredicate", "EnumDeclaration",
    "InferredPredicate"]

/-- The rules on the way down, by the kind of the node. -/
def enterRules : List (String × EnterRule) :=
  [("TypeAnnotation", .annotated), ("TypeParameterDeclaration", .typeParams),
    ("TypeParameterInstantiation", .typeArgs), ("ClassImplements", .implementsClause),
    ("ImportDeclaration", .importDeclaration), ("ExportNamedDeclaration", .exportNamed),
    ("TypeAlias", .typeAlias), ("OpaqueType", .opaqueType),
    ("InterfaceDeclaration", .interfaceDeclaration), ("VariableDeclarator", .declarator),
    ("FunctionDeclaration", .functionDeclaration), ("ClassMethod", .classMethod),
    ("ObjectMethod", .objectMethod), ("ClassProperty", .classProperty),
    ("ClassPrivateProperty", .classProperty), ("TypeCastExpression", .typeCast),
    ("JSXElement", .markup), ("JSXFragment", .markup)]
  ++ flowOnlyKinds.map (·, .flowOnly)

/-- The rules on the way up, by the kind of the node. -/
def leaveRules : List (String × LeaveRule) :=
  [("Program", .program), ("FunctionDeclaration", .function), ("FunctionExpression", .function),
    ("ArrowFunctionExpression", .function), ("ClassMethod", .function),
    ("ClassPrivateMethod", .function), ("ObjectMethod", .function),
    ("AssignmentPattern", .assignmentPattern)]

def enterRule? (kind : String) : Option EnterRule := enterRules.lookup kind

def leaveRule? (kind : String) : Option LeaveRule := leaveRules.lookup kind

/-- A node is replaced by what a rewriting makes of it. It hands on some parts,
and the keys in the types that hang under some routes. -/
def replaceBy (rewrite : Json → Rewrite Json) (slots : List Json.Route) (handed : List Handover)
    (n : Json) : Rewrite Visit := do
  return Visit.replace n (← rewrite n) (handed ++ handedKeys rewrite slots n)

/-! ## Annotations -/

/-- The type of a parameter as TypeScript has it, if the parameter becomes
optional thereby: `?T` is optional `T | null`, and `T | void` is optional `T`.
TypeScript wants an argument for a `void` parameter, Flow does not. -/
def optionalParamType? (type : Json) : Result (Option Json) :=
  if type.hasText "type" "NullableTypeAnnotation" then do
    let inner ← type.anyField "typeAnnotation"
    return some (Json.inherit type (node "UnionTypeAnnotation"
      [("types", .arr [inner, node "NullLiteralTypeAnnotation" []])]))
  else if type.hasText "type" "UnionTypeAnnotation" then
    let types := type.itemsAt "types"
    let remaining := types.filter fun t => !t.hasText "type" "VoidTypeAnnotation"
    if remaining.length = types.length then return none
    else match remaining with
      | [] => return none
      | [t] => return some t
      | ts => return some (type.set "types" (.arr ts))
  else return none

/-- Whether an annotation at a place belongs to a parameter: it hangs at an
identifier that is not being declared as a variable. -/
def annotatesParam (place : Place) (n : Json) : Bool :=
  place.parentKind? n = some "Identifier" ∧ place.grandparentKind? n ≠ some "VariableDeclarator"

variable (o : FileOptions)

/-- The annotation of a type. -/
def migrateAnnotationOf (type : Json) : Rewrite Json := do
  return annotationNode (encode (← Rewrite.ofRecorded (migrateNode o.types type)))

/-- The annotation that takes the place of one, be it of a parameter or not. -/
def migrateAnnotationNode (isParam : Bool) (n : Json) : Rewrite Json := do
  let type ← Rewrite.ofResult (n.field "typeAnnotation")
  let optionalType ← if isParam then Rewrite.ofResult (optionalParamType? type) else pure none
  migrateAnnotationOf o (optionalType.getD type)

/-- Whether an annotation makes the parameter that it belongs to optional. -/
def makesOptional (n : Json) : Result Bool := do
  return (← optionalParamType? (← n.field "typeAnnotation")).isSome

def enterAnnotationNode (place : Place) (n : Json) : Rewrite Visit := do
  let isParam := annotatesParam place n
  let isOptional ← if isParam then Rewrite.ofResult (makesOptional n) else pure false
  let visit ← replaceBy (migrateAnnotationNode o isParam) [[.key "typeAnnotation"]] [] n
  return if isOptional then { visit with parentFields := [("optional", .bool true)] } else visit

/-! ## Type parameters and arguments -/

def migrateTypeParamsNode (n : Json) : Rewrite Json := do
  let params ← Rewrite.ofResult (Flow.decodeTypeParams o.path n)
  return TypeScript.encodeTypeParams (← Rewrite.ofRecorded (migrateTypeParams o.types params))

def migrateArgsNode (n : Json) : Rewrite Json := do
  let args ← Rewrite.ofResult (Flow.decodeArgs o.path n)
  return TypeScript.encodeArgs (← Rewrite.ofRecorded (migrateArgs o.types args))

/-- The type parameters of a declaration, or null. -/
def declaredTypeParams (n : Json) : Rewrite Json :=
  match Location.objectAt? n "typeParameters" with
  | some params => migrateTypeParamsNode o params
  | none => return .null

/-- An entry of an `implements` or `extends` list. -/
def migrateHeritage (n : Json) : Rewrite Json := do
  let id ← Rewrite.ofResult (n.field "id")
  let name ← Rewrite.ofResult (Flow.decodeEntity o.path id)
  let args ← match Location.objectAt? n "typeParameters" with
    | some args => migrateArgsNode o args
    | none => pure .null
  return Json.inherit n (node "TSExpressionWithTypeArguments"
    [("expression", TypeScript.encodeEntity (migrateEntity name)), ("typeParameters", args)])

/-! ## Declarations -/

/-- An `import type` becomes a plain `import`; in a plain one a type among the
specifiers loses its marker; an `import typeof` is left to a person. -/
def enterImport (n : Json) : Rewrite Visit := do
  let kind := (n.get? "importKind").getD .null
  if n.hasText "importKind" "type" then return Visit.keep (n.set "importKind" (.str "value"))
  else if n.hasText "importKind" "typeof" then return Visit.keep n
  else if kind.isNull || n.hasText "importKind" "value" then
    match n.get? "specifiers" with
    | some (.arr specifiers) =>
      let plain := specifiers.map fun s =>
        if s.hasText "type" "ImportSpecifier" && s.hasText "importKind" "type"
        then s.set "importKind" .null else s
      return Visit.keep (n.set "specifiers" (.arr plain))
    | _ => return Visit.keep n
  else Rewrite.refuse (Refusal.at o.path n ("import kind " ++ kind.quoted))

/-- The name of a declaration, which is handed on. -/
def handedId : Handover := ⟨[.key "id"], [.key "id"]⟩

/-- The alias for the type that a declaration has under a key. -/
def migrateAlias (key : String) (n : Json) : Rewrite Json := do
  let type ← Rewrite.ofResult (n.field key)
  let id ← Rewrite.ofResult (n.anyField "id")
  let params ← declaredTypeParams o n
  let type ← Rewrite.ofRecorded (migrateNode o.types type)
  return node "TSTypeAliasDeclaration"
    [("id", id), ("typeParameters", params), ("typeAnnotation", encode type)]

def enterTypeAlias : Json → Rewrite Visit :=
  replaceBy (migrateAlias o "right") [[.key "typeParameters"], [.key "right"]] [handedId]

/-- An opaque type becomes a plain alias. -/
def enterOpaqueType (n : Json) : Rewrite Visit := do
  if n.holds "supertype" then Rewrite.refuse (Refusal.at o.path n "opaque type with a supertype")
  replaceBy (migrateAlias o "impltype") [[.key "typeParameters"], [.key "impltype"]] [handedId] n

/-- The body of an interface, which is one literal type. -/
def migrateInterfaceBody (body : Json) : Rewrite Json := do
  match ← Rewrite.ofRecorded (migrateNode o.types body) with
  | .typeLiteral _ members =>
    return Json.inherit body
      (node "TSInterfaceBody" [("body", .arr (TypeScript.encodeMembers members))])
  | _ => Rewrite.refuse (Refusal.at o.path body "interface body is not an object literal type")

def migrateInterface (n : Json) : Rewrite Json := do
  if n.holds "mixins" then Rewrite.refuse (Refusal.at o.path n "interface mixins")
  if n.holds "implements" then Rewrite.refuse (Refusal.at o.path n "interface implements")
  let body ← Rewrite.ofResult (n.field "body")
  let body ← migrateInterfaceBody o body
  let heritage ← (n.itemsAt "extends").mapM (migrateHeritage o)
  let id ← Rewrite.ofResult (n.anyField "id")
  let params ← declaredTypeParams o n
  return node "TSInterfaceDeclaration"
    [("id", id), ("typeParameters", params),
      ("extends", if heritage.isEmpty then .null else .arr heritage), ("body", body)]

def enterInterface : Json → Rewrite Visit :=
  replaceBy (migrateInterface o) [[.key "typeParameters"], [.key "extends"], [.key "body"]]
    [handedId]

/-! ## Variables -/

/-- The annotation `any`. -/
def anyAnnotation : Json := annotationNode (encode (TsType.word .any))

/-- The annotation of a variable that starts as an empty object: any value
under any key. -/
def emptyObjectAnnotation : Json :=
  annotationNode (encode (.typeLiteral none
    [.index none "key" (TsType.word .string) (TsType.word .any) false]))

/-- The annotation of a variable that starts as an empty array. -/
def emptyArrayAnnotation : Json :=
  annotationNode (encode (.reference none (TsEntity.ofText "Array")
    (some ⟨none, [TsType.word .any]⟩)))

/-- The annotation that a variable of a test file needs, by what it starts as:
TypeScript infers nothing from later assignments. -/
def variableAnnotation? (init : Json) : Option Json :=
  if init.isNull then some anyAnnotation
  else if init.hasText "type" "ObjectExpression" && !init.holds "properties" then
    some emptyObjectAnnotation
  else if init.hasText "type" "ArrayExpression" && !init.holds "elements" then
    some emptyArrayAnnotation
  else none

/-- Statements whose head may declare a variable. -/
def loopKinds : List String := ["ForStatement", "ForInStatement", "ForOfStatement"]

/-- Whether a declarator at a place declares variables of a test file outside
the head of a loop. -/
def declaresTestVariable (place : Place) (n : Json) : Bool :=
  o.isTestFile ∧ place.parentKind? n = some "VariableDeclaration" ∧
    !((place.grandparentKind? n).any loopKinds.contains)

def enterDeclarator (place : Place) (n : Json) : Rewrite Visit := do
  if declaresTestVariable o place n then
    match n.get? "id" with
    | some id =>
      if id.hasText "type" "Identifier" && !id.holds "typeAnnotation" then
        match variableAnnotation? ((n.get? "init").getD .null) with
        | some type =>
          return Visit.keep (n.set "id" (id.set "typeAnnotation" type))
        | none => return Visit.keep n
      else return Visit.keep n
    | none => return Visit.keep n
  else return Visit.keep n

/-! ## Functions -/

/-- Whether a parameter is a name without an annotation. -/
def isUnannotated (param : Json) : Bool :=
  param.hasText "type" "Identifier" && !param.holds "typeAnnotation"

/-- The parameters of a node that are names without an annotation. -/
def unannotatedParams (n : Json) : List Json := (n.itemsAt "params").filter isUnannotated

/-- A parameter waits for an inferred type, or is a finding if nobody can be
asked. -/
def awaitType (param : Json) : Rewrite Unit :=
  if o.infers then
    modify fun p => { p with
      waiting := p.waiting ++ [Location.ofNodeOrRefuse o.path param] }
  else Rewrite.ofRecorded (notePlace o.types .unannotatedParameter param)

def awaitTypes (n : Json) : Rewrite Visit := do
  (unannotatedParams n).forM (awaitType o)
  return Visit.keep n

/-- Whether a node at a place stands inside a call of `createReactClass`. -/
def insideCreateReactClass (place : Place) (n : Json) : Bool :=
  isCreateReactClassCall n || (place.ancestors n).any isCreateReactClassCall

/-- In test files the parameters of a function get `any`. -/
def annotateWithAny (n : Json) : Json :=
  match n.get? "params" with
  | some (.arr params) =>
    n.set "params" (.arr (params.map fun p =>
      if isUnannotated p then p.set "typeAnnotation" anyAnnotation else p))
  | _ => n

def enterFunction (n : Json) : Rewrite Visit :=
  if o.isTestFile then return Visit.keep (annotateWithAny n) else awaitTypes o n

def enterObjectMethod (place : Place) (n : Json) : Rewrite Visit :=
  if insideCreateReactClass place n then awaitTypes o n else return Visit.keep n

def leaveFunction (n : Json) : Rewrite Json :=
  match n.get? "params" with
  | some (.arr params) => do
    return n.set "params" (.arr (← Rewrite.ofResult (reorderParams params)))
  | _ => return n

/-! ## Classes, casts, patterns -/

/-- A read-only property keeps its marker as `readonly`; a write-only one
loses it, which is a finding. -/
def enterClassProperty (n : Json) : Rewrite Visit := do
  match Location.objectAt? n "variance" with
  | none => return Visit.keep n
  | some variance =>
    let n' := n.set "variance" .null
    if variance.hasText "kind" "plus" then return Visit.keep (n'.set "readonly" (.bool true))
    else
      Rewrite.ofRecorded (notePlace o.types .objectPropertyWithMinusVariance n')
      return Visit.keep n'

/-- The expression that a cast hands on: where it stands in the cast and in
what the cast becomes. -/
def handedExpression (keepsInner : Bool) : CastStrategy → Handover
  | .nestedUnsound =>
    ⟨[.key "expression", .key "expression"],
      if keepsInner then [.key "expression", .key "expression"] else [.key "expression"]⟩
  | .unsound | .constLiteral | .structuralLiteral => ⟨[.key "expression"], [.key "expression"]⟩
  | .safeCast => ⟨[.key "expression"], [.key "arguments", .item 0]⟩

def enterCast (place : Place) (n : Json) : Rewrite Visit := do
  let strategy ← Rewrite.ofResult (selectStrategy n)
  let keepsInner := place.parentKind? n = some "ObjectProperty" && insideCreateReactClass place n
  let visit ← replaceBy
    (fun cast => Rewrite.ofRecorded (rewriteCast o.types o.utilsBinding keepsInner cast strategy))
    [[.key "typeAnnotation"], [.key "expression", .key "typeAnnotation"]]
    [handedExpression keepsInner strategy] n
  if strategy = .safeCast then modify fun p => { p with usesHelper := true }
  return visit

/-- A parameter with a default value needs no marker. -/
def leaveAssignmentPattern (n : Json) : Json :=
  match n.get? "left" with
  | some left =>
    if n.holds "right" && left.hasText "type" "Identifier"
    then n.set "left" (left.erase "optional") else n
  | none => n

/-! ## The import of the helpers -/

/-- Whether the object under a key has a name. -/
def isNamed (n : Json) (key name : String) : Bool :=
  match n.get? key with
  | some part => part.hasText "name" name
  | none => false

/-- Whether a statement binds a name: an import, a variable, a function or a
class. -/
def bindsName (name : String) (statement : Json) : Bool :=
  if statement.hasText "type" "ImportDeclaration" then
    (statement.itemsAt "specifiers").any (isNamed · "local" name)
  else if statement.hasText "type" "VariableDeclaration" then
    (statement.itemsAt "declarations").any (isNamed · "id" name)
  else if statement.kindIn ["FunctionDeclaration", "ClassDeclaration"] then
    isNamed statement "id" name
  else false

/-- The import of the helpers. -/
def helperImport : Json :=
  node "ImportDeclaration"
    [("importKind", .str "value"),
      ("specifiers", .arr [node "ImportDefaultSpecifier"
        [("local", identifier o.utilsBinding [])]]),
      ("source", node "StringLiteral" [("value", .str o.utilsModule)])]

/-- A program that uses the helpers imports them, unless it binds their name
already. -/
def leaveProgram (n : Json) : Rewrite Json := do
  if !(← get).usesHelper || (n.itemsAt "body").any (bindsName o.utilsBinding) then return n
  else
    let body ← Rewrite.ofResult (n.listField "body")
    return n.set "body" (.arr (helperImport o :: body))

/-! ## All rules -/

def applyEnter (place : Place) (n : Json) : EnterRule → Rewrite Visit
  | .annotated => enterAnnotationNode o place n
  | .typeParams => replaceBy (migrateTypeParamsNode o) [[.key "params"]] [] n
  | .typeArgs => replaceBy (migrateArgsNode o) [[.key "params"]] [] n
  | .implementsClause => replaceBy (migrateHeritage o) [[.key "typeParameters"]] [] n
  | .importDeclaration => enterImport o n
  | .exportNamed => return Visit.keep (n.erase "exportKind")
  | .typeAlias => enterTypeAlias o n
  | .opaqueType => enterOpaqueType o n
  | .interfaceDeclaration => enterInterface o n
  | .declarator => enterDeclarator o place n
  | .functionDeclaration => enterFunction o n
  | .classMethod => awaitTypes o n
  | .objectMethod => enterObjectMethod o place n
  | .classProperty => enterClassProperty o n
  | .typeCast => enterCast o place n
  | .markup => do
    modify fun p => { p with hasJsx := true }
    return Visit.keep n
  | .flowOnly => Rewrite.refuse (Refusal.at o.path n "Flow-only construct")

def applyLeave (n : Json) : LeaveRule → Rewrite Json
  | .program => leaveProgram o n
  | .function => leaveFunction n
  | .assignmentPattern => return leaveAssignmentPattern n

/-- The visitor that rewrites a file. -/
def rewriter : Syntax.Visitor Rewrite where
  enter place n :=
    match enterRule? n.kind with
    | some rule => applyEnter o place n rule
    | none => return Visit.keep n
  leave _ n :=
    match leaveRule? n.kind with
    | some rule => applyLeave o n rule
    | none => return n

end Retype.Migration
