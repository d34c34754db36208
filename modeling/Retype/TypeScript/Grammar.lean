import Retype.Json.Basic
/-! # TypeScript types

The grammar of TypeScript type annotations. A type may keep the node it comes
from; what it is written as inherits that node's position and comments.
-/

namespace Retype

/-- Types that are one word. -/
inductive TsKeyword where
  | any
  | unknown
  | never
  | boolean
  | number
  | string
  | symbol
  | null
  | undefined
  | void
  deriving DecidableEq, Repr

/-- An identifier, and the node it comes from. -/
structure TsName where
  origin : Option Json
  text : String
  deriving Inhabited

/-- A name, or a name qualified by another one. -/
inductive TsEntity where
  | name (name : TsName)
  | qualified (origin : Option Json) (left : TsEntity) (right : TsName)
  deriving Inhabited

/-- Type arguments. -/
structure TsArgs (τ : Type) where
  origin : Option Json
  params : List τ

/-- A type parameter. -/
structure TsTypeParam (τ : Type) where
  origin : Option Json
  name : String
  bound : Option τ
  default : Option τ

/-- A list of type parameters. -/
structure TsTypeParams (τ : Type) where
  origin : Option Json
  params : List (TsTypeParam τ)

/-- A parameter of a function type. -/
structure TsParam (τ : Type) where
  origin : Option Json
  name : String
  type : τ
  optional : Bool
  rest : Bool

/-- A function type without its place: parameters, result, type parameters. -/
structure TsSignature (τ : Type) where
  params : List (TsParam τ)
  result : τ
  typeParams : Option (TsTypeParams τ)

/-- A member of a literal type. The key of a property is the node as given. -/
inductive TsMember (τ : Type) where
  | property (origin : Option Json) (key : Json) (type : τ) (computed optional readonly : Bool)
  | method (origin : Option Json) (key : Json) (signature : TsSignature τ)
      (computed optional : Bool)
  | index (origin : Option Json) (name : String) (key value : τ) (readonly : Bool)

/-- A TypeScript type. The value of a literal is a truth value, a text or a
number. -/
inductive TsType where
  | keyword (origin : Option Json) (word : TsKeyword)
  | this (origin : Option Json)
  | literal (origin : Option Json) (value : Json)
  | array (origin : Option Json) (element : TsType)
  | tuple (origin : Option Json) (types : List TsType)
  | union (origin : Option Json) (types : List TsType)
  | intersection (origin : Option Json) (types : List TsType)
  | parenthesized (origin : Option Json) (inner : TsType)
  | function (origin : Option Json) (signature : TsSignature TsType)
  | reference (origin : Option Json) (name : TsEntity) (args : Option (TsArgs TsType))
  | operator (origin : Option Json) (operator : String) (inner : TsType)
  | indexedAccess (origin : Option Json) (object index : TsType)
  | query (origin : Option Json) (name : TsEntity)
  | typeLiteral (origin : Option Json) (members : List (TsMember TsType))

namespace TsKeyword

/-- The `type` of the node of a word. -/
def kindName : TsKeyword → String
  | any => "TSAnyKeyword"
  | unknown => "TSUnknownKeyword"
  | never => "TSNeverKeyword"
  | boolean => "TSBooleanKeyword"
  | number => "TSNumberKeyword"
  | string => "TSStringKeyword"
  | symbol => "TSSymbolKeyword"
  | null => "TSNullKeyword"
  | undefined => "TSUndefinedKeyword"
  | void => "TSVoidKeyword"

end TsKeyword

namespace TsEntity

/-- A name without a place. -/
def ofText (text : String) : TsEntity := .name ⟨none, text⟩

/-- `left.right` without a place. -/
def ofPair (left right : String) : TsEntity := .qualified none (ofText left) ⟨none, right⟩

/-- The dotted text of a name. -/
def text : TsEntity → String
  | name n => n.text
  | qualified _ left right => left.text ++ "." ++ right.text

end TsEntity

namespace TsType

instance : Inhabited TsType := ⟨.this none⟩

/-- A word without a place. -/
def word (k : TsKeyword) : TsType := .keyword none k

/-- The same type, coming from a node. -/
def withOrigin (node : Json) : TsType → TsType
  | keyword _ k => keyword (some node) k
  | this _ => this (some node)
  | literal _ v => literal (some node) v
  | array _ t => array (some node) t
  | tuple _ ts => tuple (some node) ts
  | union _ ts => union (some node) ts
  | intersection _ ts => intersection (some node) ts
  | parenthesized _ t => parenthesized (some node) t
  | function _ s => function (some node) s
  | reference _ n as => reference (some node) n as
  | operator _ o t => operator (some node) o t
  | indexedAccess _ o i => indexedAccess (some node) o i
  | query _ n => query (some node) n
  | typeLiteral _ ms => typeLiteral (some node) ms

/-- Whether a type is the given word. -/
def isWord : TsType → TsKeyword → Bool
  | keyword _ k, k' => k = k'
  | _, _ => false

/-- The dotted name of a reference without arguments. -/
def referenceName? : TsType → Option String
  | reference _ name none => some name.text
  | _ => none

/-- Function types bind loosely inside unions and intersections. -/
def parenthesizeFunction : TsType → TsType
  | function origin s => parenthesized none (function origin s)
  | t => t

end TsType

end Retype
