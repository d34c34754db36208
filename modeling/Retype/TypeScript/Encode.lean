import Retype.Syntax.Node
import Retype.TypeScript.Grammar
/-! # Writing TypeScript types

The syntax node of a type. What comes from a node inherits its position and
comments; the keys of a node stand in a fixed order.
-/

namespace Retype.TypeScript

/-- A node of a kind with further fields. -/
def node (kind : String) (fields : Entries) : Json := .obj (("type", .str kind) :: fields)

/-- The node of an identifier, with further fields. -/
def identifier (name : String) (fields : Entries) : Json :=
  node "Identifier" (("name", .str name) :: fields)

/-- The node of a literal value; a negative number is a negated literal. What
is no value is written as null. -/
def literalNode : Json → Json
  | .bool b => node "BooleanLiteral" [("value", .bool b)]
  | .str s => node "StringLiteral" [("value", .str s)]
  | .int i => if i < 0 then negated (.int (-i)) else node "NumericLiteral" [("value", .int i)]
  | .double x =>
    if x.isNegative then negated (.double x.neg) else node "NumericLiteral" [("value", .double x)]
  | _ => node "NumericLiteral" [("value", .null)]
where
  negated (v : Json) : Json :=
    node "UnaryExpression"
      [("operator", .str "-"), ("prefix", .bool true),
        ("argument", node "NumericLiteral" [("value", v)])]

def encodeName (n : TsName) : Json := Json.inheritOption n.origin (identifier n.text [])

def encodeEntity : TsEntity → Json
  | .name n => encodeName n
  | .qualified origin left right =>
    Json.inheritOption origin
      (node "TSQualifiedName" [("left", encodeEntity left), ("right", encodeName right)])

/-- An annotation around the node of a type. -/
def annotationNode (type : Json) : Json := node "TSTypeAnnotation" [("typeAnnotation", type)]

mutual

/-- The node of a type. -/
def encode : TsType → Json
  | .keyword origin word => Json.inheritOption origin (node word.kindName [])
  | .this origin => Json.inheritOption origin (node "TSThisType" [])
  | .literal origin v =>
    Json.inheritOption origin (node "TSLiteralType" [("literal", literalNode v)])
  | .array origin t =>
    Json.inheritOption origin (node "TSArrayType" [("elementType", encode t)])
  | .tuple origin ts =>
    Json.inheritOption origin (node "TSTupleType" [("elementTypes", .arr (encodeAll ts))])
  | .union origin ts =>
    Json.inheritOption origin (node "TSUnionType" [("types", .arr (encodeAll ts))])
  | .intersection origin ts =>
    Json.inheritOption origin (node "TSIntersectionType" [("types", .arr (encodeAll ts))])
  | .parenthesized origin t =>
    Json.inheritOption origin (node "TSParenthesizedType" [("typeAnnotation", encode t)])
  | .function origin ⟨params, result, typeParams⟩ =>
    Json.inheritOption origin (node "TSFunctionType"
      [("typeParameters", encodeTypeParamsOption typeParams),
        ("parameters", .arr (encodeParams params)),
        ("typeAnnotation", annotationNode (encode result))])
  | .reference origin name args =>
    Json.inheritOption origin (node "TSTypeReference"
      [("typeName", encodeEntity name), ("typeParameters", encodeArgsOption args)])
  | .operator origin operator t =>
    Json.inheritOption origin (node "TSTypeOperator"
      [("operator", .str operator), ("typeAnnotation", encode t)])
  | .indexedAccess origin object index =>
    Json.inheritOption origin (node "TSIndexedAccessType"
      [("objectType", encode object), ("indexType", encode index)])
  | .query origin name =>
    Json.inheritOption origin (node "TSTypeQuery" [("exprName", encodeEntity name)])
  | .typeLiteral origin members =>
    Json.inheritOption origin (node "TSTypeLiteral" [("members", .arr (encodeMembers members))])

def encodeAll : List TsType → List Json
  | [] => []
  | t :: rest => encode t :: encodeAll rest

/-- The node of a type, or null. -/
def encodeOption : Option TsType → Json
  | none => .null
  | some t => encode t

/-- The node of type arguments. -/
def encodeArgs : TsArgs TsType → Json
  | ⟨origin, params⟩ =>
    Json.inheritOption origin
      (node "TSTypeParameterInstantiation" [("params", .arr (encodeAll params))])

def encodeArgsOption : Option (TsArgs TsType) → Json
  | none => .null
  | some args => encodeArgs args

/-- The node of a list of type parameters. -/
def encodeTypeParams : TsTypeParams TsType → Json
  | ⟨origin, params⟩ =>
    Json.inheritOption origin
      (node "TSTypeParameterDeclaration" [("params", .arr (encodeTypeParamList params))])

def encodeTypeParamsOption : Option (TsTypeParams TsType) → Json
  | none => .null
  | some params => encodeTypeParams params

def encodeTypeParamList : List (TsTypeParam TsType) → List Json
  | [] => []
  | ⟨origin, name, bound, default⟩ :: rest =>
    Json.inheritOption origin (node "TSTypeParameter"
        [("name", .str name), ("constraint", encodeOption bound),
          ("default", encodeOption default)])
      :: encodeTypeParamList rest

/-- The nodes of the parameters of a function type. -/
def encodeParams : List (TsParam TsType) → List Json
  | [] => []
  | ⟨origin, name, type, optional, isRest⟩ :: rest =>
    Json.inheritOption origin
        (if isRest then
          node "RestElement"
            [("argument", identifier name []), ("typeAnnotation", annotationNode (encode type))]
        else
          identifier name (("typeAnnotation", annotationNode (encode type))
            :: if optional then [("optional", .bool true)] else []))
      :: encodeParams rest

/-- The nodes of the members of a literal type. -/
def encodeMembers : List (TsMember TsType) → List Json
  | [] => []
  | member :: rest => encodeMember member :: encodeMembers rest

/-- The node of a member of a literal type. -/
def encodeMember : TsMember TsType → Json
  | .property origin key type computed optional readonly =>
    Json.inheritOption origin (node "TSPropertySignature"
      ([("key", key), ("computed", .bool computed), ("optional", .bool optional),
        ("typeAnnotation", annotationNode (encode type))]
        ++ if readonly then [("readonly", .bool true)] else []))
  | .method origin key ⟨params, result, typeParams⟩ computed optional =>
    Json.inheritOption origin (node "TSMethodSignature"
      [("key", key), ("computed", .bool computed), ("optional", .bool optional),
        ("kind", .str "method"),
        ("typeParameters", encodeTypeParamsOption typeParams),
        ("parameters", .arr (encodeParams params)),
        ("typeAnnotation", annotationNode (encode result))])
  | .index origin name key value readonly =>
    Json.inheritOption origin (node "TSIndexSignature"
      ([("parameters",
          .arr [identifier name [("typeAnnotation", annotationNode (encode key))]]),
        ("typeAnnotation", annotationNode (encode value))]
        ++ if readonly then [("readonly", .bool true)] else []))

end

end Retype.TypeScript
