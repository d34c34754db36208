import Retype.Json.Basic
/-! # Flow types

The grammar of Flow type annotations. Every type keeps the node it was read
from, so that what it becomes can inherit its position and comments.
-/

namespace Retype

/-- The marker of a read-only (`plus`) or write-only (`minus`) part. -/
inductive Variance where
  | plus
  | minus
  deriving DecidableEq, Repr

/-- Types that are one word. -/
inductive FlowKeyword where
  | any
  | mixed
  | empty
  | existential
  | boolean
  | number
  | string
  | symbol
  | null
  | void
  | this
  | interface
  deriving DecidableEq, Repr

/-- Types that are one value. The value of a number literal is as given. -/
inductive FlowLiteral where
  | boolean (value : Bool)
  | number (value : Json)
  | string (value : String)
  deriving Inhabited

/-- An identifier and the node it was read from. -/
structure FlowName where
  node : Json
  text : String
  deriving Inhabited

/-- A name, or a name qualified by another one. -/
inductive FlowEntity where
  | name (name : FlowName)
  | qualified (node : Json) (qualification : FlowEntity) (id : FlowName)
  deriving Inhabited

/-- Type arguments. -/
structure FlowArgs (τ : Type) where
  node : Json
  params : List τ

/-- A type parameter. -/
structure FlowTypeParam (τ : Type) where
  node : Json
  name : String
  bound : Option τ
  default : Option τ
  variance : Option Variance

/-- A list of type parameters. -/
structure FlowTypeParams (τ : Type) where
  node : Json
  params : List (FlowTypeParam τ)

/-- A parameter of a function type; it may have no name. -/
structure FlowParam (τ : Type) where
  node : Json
  name : Option String
  type : τ
  optional : Bool

/-- The markers of a property. -/
structure PropertyTraits where
  optional : Bool
  variance : Option Variance
  method : Bool
  kind : String
  isStatic : Bool
  proto : Bool
  deriving DecidableEq, Repr

/-- A member of an object type. The key of a property is the node as given. -/
inductive FlowMember (τ : Type) where
  | property (node key : Json) (value : τ) (traits : PropertyTraits)
  | spread (node : Json) (argument : τ)
  | indexer (node : Json) (id : Option String) (key value : τ) (variance : Option Variance)
      (isStatic : Bool)
  | callProperty (node : Json) (value : τ)
  | internalSlot (node : Json) (id : String)

/-- A Flow type. Members of an object stand in the order of the source. -/
inductive FlowType where
  | keyword (node : Json) (word : FlowKeyword)
  | literal (node : Json) (value : FlowLiteral)
  | array (node : Json) (element : FlowType)
  | nullable (node : Json) (inner : FlowType)
  | tuple (node : Json) (types : List FlowType)
  | union (node : Json) (types : List FlowType)
  | intersection (node : Json) (types : List FlowType)
  | typeof (node : Json) (argument : FlowType)
  | indexedAccess (node : Json) (object index : FlowType)
  | optionalIndexedAccess (node : Json) (object index : FlowType)
  | generic (node : Json) (id : FlowEntity) (args : Option (FlowArgs FlowType))
  | function (node : Json) (params : List (FlowParam FlowType)) (result : FlowType)
      (rest : Option (FlowParam FlowType)) (thisParam : Option (FlowParam FlowType))
      (typeParams : Option (FlowTypeParams FlowType))
  | object (node : Json) (members : List (FlowMember FlowType)) (exact : Bool)

namespace FlowType

instance : Inhabited FlowType := ⟨.keyword .null .any⟩

/-- The node a type was read from. -/
def node : FlowType → Json
  | keyword n _ => n
  | literal n _ => n
  | array n _ => n
  | nullable n _ => n
  | tuple n _ => n
  | union n _ => n
  | intersection n _ => n
  | typeof n _ => n
  | indexedAccess n _ _ => n
  | optionalIndexedAccess n _ _ => n
  | generic n _ _ => n
  | function n _ _ _ _ _ => n
  | object n _ _ => n

end FlowType

namespace FlowMember

/-- The node a member was read from. -/
def node {τ : Type} : FlowMember τ → Json
  | property n _ _ _ => n
  | spread n _ => n
  | indexer n _ _ _ _ _ => n
  | callProperty n _ => n
  | internalSlot n _ => n

end FlowMember

/-- The kinds of Flow type nodes. -/
inductive FlowKind where
  | keyword (word : FlowKeyword)
  | booleanLiteral
  | numberLiteral
  | stringLiteral
  | array
  | nullable
  | tuple
  | union
  | intersection
  | typeof
  | indexedAccess
  | optionalIndexedAccess
  | generic
  | function
  | object
  deriving DecidableEq, Repr

namespace FlowKeyword

def kindName : FlowKeyword → String
  | any => "AnyTypeAnnotation"
  | mixed => "MixedTypeAnnotation"
  | empty => "EmptyTypeAnnotation"
  | existential => "ExistsTypeAnnotation"
  | boolean => "BooleanTypeAnnotation"
  | number => "NumberTypeAnnotation"
  | string => "StringTypeAnnotation"
  | symbol => "SymbolTypeAnnotation"
  | null => "NullLiteralTypeAnnotation"
  | void => "VoidTypeAnnotation"
  | this => "ThisTypeAnnotation"
  | interface => "InterfaceTypeAnnotation"

def all : List FlowKeyword :=
  [any, mixed, empty, existential, boolean, number, string, symbol, null, void, this, interface]

end FlowKeyword

namespace FlowKind

/-- The `type` of the nodes of a kind. -/
def name : FlowKind → String
  | keyword word => word.kindName
  | booleanLiteral => "BooleanLiteralTypeAnnotation"
  | numberLiteral => "NumberLiteralTypeAnnotation"
  | stringLiteral => "StringLiteralTypeAnnotation"
  | array => "ArrayTypeAnnotation"
  | nullable => "NullableTypeAnnotation"
  | tuple => "TupleTypeAnnotation"
  | union => "UnionTypeAnnotation"
  | intersection => "IntersectionTypeAnnotation"
  | typeof => "TypeofTypeAnnotation"
  | indexedAccess => "IndexedAccessType"
  | optionalIndexedAccess => "OptionalIndexedAccessType"
  | generic => "GenericTypeAnnotation"
  | function => "FunctionTypeAnnotation"
  | object => "ObjectTypeAnnotation"

def all : List FlowKind :=
  FlowKeyword.all.map keyword ++
    [booleanLiteral, numberLiteral, stringLiteral, array, nullable, tuple, union, intersection,
      typeof, indexedAccess, optionalIndexedAccess, generic, function, object]

/-- The kind with a name. -/
def ofName? (s : String) : Option FlowKind := all.find? fun k => k.name = s

end FlowKind

end Retype
