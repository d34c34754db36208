import Retype.Flow.Decode
import Retype.Report.Recorded
import Retype.TypeScript.Grammar
/-! # Rewriting types

The map from Flow types to TypeScript types. Types that check nothing become
named aliases of `any`, so that each such place can be searched for by what it
was. What a type becomes comes from the type's own node.
-/

namespace Retype.Migration

/-- What the rewriting of types in one file needs to know: the path of the
file, and the namespace of the helper types. -/
structure TypeContext where
  path : String
  helpers : String

/-- The aliases of `any`, by what they stand for. -/
inductive AnyAlias where
  | object
  | function
  | existential
  | subtype
  | inferred
  deriving DecidableEq, Repr

def AnyAlias.name : AnyAlias → String
  | object => "FlowAnyObject"
  | function => "FlowAnyFunction"
  | existential => "FlowAnyExistential"
  | subtype => "FlowAnySubtype"
  | inferred => "FlowAnyInferred"

def AnyAlias.all : List AnyAlias := [object, function, existential, subtype, inferred]

/-- A reference to an alias of `any`, which is a finding. -/
def anyAlias (a : AnyAlias) (args : Option (TsArgs TsType)) : Recorded TsType := do
  Recorded.note (.anyAlias a.name)
  return .reference none (TsEntity.ofText a.name) args

/-- The name that a Flow name becomes. -/
def migrateName (n : FlowName) : TsName := ⟨some n.node, n.text⟩

def migrateEntity : FlowEntity → TsEntity
  | .name n => .name (migrateName n)
  | .qualified node qualification id =>
    .qualified (some node) (migrateEntity qualification) (migrateName id)

/-- The word that a Flow word becomes, if it becomes one. -/
def migrateWord? : FlowKeyword → Option TsKeyword
  | .any => some .any
  | .mixed => some .unknown
  | .empty => some .never
  | .boolean => some .boolean
  | .number => some .number
  | .string => some .string
  | .symbol => some .symbol
  | .null => some .null
  | .void => some .void
  | .existential => none
  | .this => none
  | .interface => none

/-- The value of a literal. -/
def literalValue : FlowLiteral → Json
  | .boolean b => .bool b
  | .number v => v
  | .string s => .str s

/-- Names that begin with a dollar sign belong to the checker itself. -/
def isInternal (name : String) : Bool := name.toList.head? = some '$'

/-- Whether an index signature takes keys of a type. -/
def isIndexable (key : TsType) : Bool := key.isWord .string || key.isWord .number

/-- The name of a parameter; one without a name gets its place. -/
def paramName (name : Option String) (fallback : String) : String :=
  match name with
  | some n => if n = "" then fallback else n
  | none => fallback

/-- A part of an object type: a member of a literal, or a type by itself. -/
inductive ObjectPart where
  | member (m : TsMember TsType)
  | type (t : TsType)

/-- The parts as types: each longest run of members is one literal. -/
def gatherParts : List (TsMember TsType) → List ObjectPart → List TsType
  | [], [] => []
  | run, [] => [.typeLiteral none run]
  | run, .member m :: rest => gatherParts (run ++ [m]) rest
  | [], .type t :: rest => t :: gatherParts [] rest
  | run, .type t :: rest => .typeLiteral none run :: t :: gatherParts [] rest

/-- The type of an object from its parts: nothing is the empty literal, and
one type stands by itself. -/
def objectOfParts (parts : List ObjectPart) : TsType :=
  match gatherParts [] parts with
  | [] => .typeLiteral none []
  | [t] => t
  | ts => .intersection none ts

variable (c : TypeContext)

/-- A reference to a helper type. -/
def helperType (name : String) (args : Option (TsArgs TsType)) : TsType :=
  .reference none (TsEntity.ofPair c.helpers name) args

/-- Records a place. -/
def notePlace (category : PlaceCategory) (node : Json) : Recorded Unit := do
  let location ← Recorded.ofResult (Location.ofNodeOrRefuse c.path node)
  Recorded.note (.place category location)

/-- Refuses a construct. -/
def refuseAt {α : Type} (node : Json) (detail : String) : Recorded α :=
  Recorded.refuse (Refusal.at c.path node detail)

/-- What a reference becomes, given its name and its arguments: the known
names with the right number of arguments have a rule, all others stay. -/
def migrateReference (name : TsEntity) (args : Option (TsArgs TsType)) : Recorded TsType :=
  match name.text, (args.map (·.params)).getD [] with
  | "Object", [] => anyAlias .object none
  | "Function", [] => anyAlias .function none
  | "$ReadOnlyArray", [_] => return .reference none (TsEntity.ofText "ReadonlyArray") args
  | "$ReadOnly", [_] => return .reference none (TsEntity.ofText "Readonly") args
  | "$Keys", [t] => return .operator none "keyof" t
  | "$Values", [_] => return helperType c "ObjectValues" args
  | "$Shape", [_] => return .reference none (TsEntity.ofText "Partial") args
  | "$Exact", [t] => return t
  | "$Subtype", [_] => anyAlias .subtype args
  | "$PropertyType", [object, index] => return .indexedAccess none object index
  | "$ElementType", [object, index] => return .indexedAccess none object index
  | "React.Node", [] => return .reference none (TsEntity.ofPair "React" "ReactNode") none
  | "React.Element", [t] =>
    if t.isWord .any || t.referenceName? = some AnyAlias.existential.name then
      return .reference none (TsEntity.ofPair "React" "ReactElement") args
    else
      return .reference none (TsEntity.ofPair "React" "ReactElement")
        (some ⟨none, [.reference none (TsEntity.ofPair "React" "ComponentProps") args]⟩)
  | text, _ => do
    if isInternal text then Recorded.note (.utilityType text)
    return .reference none name args

/-- What a union becomes: a union with `any` in it is `any`. -/
def unionOf (types : List TsType) : TsType :=
  match types.find? (·.isWord .any) with
  | some t => t
  | none => .union none types

/-- What `typeof` becomes; it takes a name without arguments. -/
def migrateTypeof : FlowType → Recorded TsType
  | .generic node id args =>
    match args with
    | some ⟨_, _ :: _⟩ => refuseAt c node "type arguments on typeof argument"
    | _ => return .query none (migrateEntity id)
  | t => refuseAt c t.node "typeof argument"

/-- The findings and refusals of a property that come before its value. -/
def checkProperty (node key : Json) (traits : PropertyTraits) : Recorded Unit := do
  if key.hasText "type" "Identifier" ∧ isInternal (((key.get? "name").map Json.text).getD "") then
    notePlace c .objectPropertyWithInternalName node
  if traits.variance = some .minus then
    notePlace c .objectPropertyWithMinusVariance node
  if traits.kind ≠ "init" then
    refuseAt c node ("object type property kind " ++ Quoted.text traits.kind)
  if traits.proto then refuseAt c node "proto property"
  if traits.isStatic then refuseAt c node "static property"

/-- What a property becomes, given its value. -/
def propertyMember (node key : Json) (traits : PropertyTraits) (value : TsType) :
    Recorded (TsMember TsType) :=
  let computed := !key.hasText "type" "Identifier"
  if traits.method then
    match value with
    | .function _ signature => return .method (some node) key signature computed traits.optional
    | _ => refuseAt c node "method without a function type"
  else
    return .property (some node) key value computed traits.optional
      (traits.variance = some .plus)

/-- What an indexer becomes: an index signature, or a helper type if its key
is neither a string nor a number. -/
def indexerPart (node : Json) (name : Option String) (key value : TsType)
    (variance : Option Variance) : ObjectPart :=
  if isIndexable key then
    .member (.index (some node) (paramName name "key") key value (variance = some .plus))
  else .type (helperType c "ObjectMap" (some ⟨none, [key, value]⟩))

mutual

/-- The type that a Flow type becomes. -/
def migrate : FlowType → Recorded TsType
  | .keyword node word =>
    match word, migrateWord? word with
    | .existential, _ => TsType.withOrigin node <$> anyAlias .existential none
    | _, some k => return .keyword (some node) k
    | .this, none => return .this (some node)
    | _, none => refuseAt c node ""
  | .literal node v => return .literal (some node) (literalValue v)
  | .array node element => do return .array (some node) (← migrate element)
  | .nullable node inner => do
    return .union (some node) [← migrate inner, TsType.word .null, TsType.word .undefined]
  | .tuple node types => do return .tuple (some node) (← migrateAll types)
  | .union node types => do
    let types ← migrateAll types
    return (unionOf (types.map TsType.parenthesizeFunction)).withOrigin node
  | .intersection node types => do
    let types ← migrateAll types
    return .intersection (some node) (types.map TsType.parenthesizeFunction)
  | .typeof node argument => TsType.withOrigin node <$> migrateTypeof c argument
  | .indexedAccess node object index => do
    let object ← migrate object
    return .indexedAccess (some node) object (← migrate index)
  | .optionalIndexedAccess node _ _ =>
    refuseAt c node "optional indexed access has no equivalent"
  | .generic node id args => do
    let args ← migrateArgsOption args
    TsType.withOrigin node <$> migrateReference c (migrateEntity id) args
  | .function node params result rest thisParam typeParams => do
    let thisParam ← migrateThis thisParam
    let params ← migrateParams 1 params
    let rest ← migrateRest rest
    let result ← migrate result
    let typeParams ← migrateTypeParamsOption typeParams
    return .function (some node) ⟨thisParam ++ params ++ rest, result, typeParams⟩
  | .object node members _ => do
    let parts ← migrateMembers members
    return (objectOfParts parts).withOrigin node

def migrateAll : List FlowType → Recorded (List TsType)
  | [] => return []
  | t :: rest => do
    let t ← migrate t
    return t :: (← migrateAll rest)

def migrateOption : Option FlowType → Recorded (Option TsType)
  | none => return none
  | some t => do return some (← migrate t)

/-- Type arguments. -/
def migrateArgs : FlowArgs FlowType → Recorded (TsArgs TsType)
  | ⟨node, params⟩ => do return ⟨some node, ← migrateAll params⟩

/-- The arguments of a reference; an empty list counts as none. -/
def migrateArgsOption : Option (FlowArgs FlowType) → Recorded (Option (TsArgs TsType))
  | none => return none
  | some ⟨_, []⟩ => return none
  | some args => do return some (← migrateArgs args)

/-- Type parameters. The variance of one is lost, which is a finding. -/
def migrateTypeParams : FlowTypeParams FlowType → Recorded (TsTypeParams TsType)
  | ⟨node, params⟩ => do return ⟨some node, ← migrateTypeParamList params⟩

def migrateTypeParamsOption :
    Option (FlowTypeParams FlowType) → Recorded (Option (TsTypeParams TsType))
  | none => return none
  | some params => do return some (← migrateTypeParams params)

def migrateTypeParamList : List (FlowTypeParam FlowType) → Recorded (List (TsTypeParam TsType))
  | [] => return []
  | ⟨node, name, bound, default, variance⟩ :: rest => do
    if variance.isSome then notePlace c .typeParameterWithVariance node
    let bound ← migrateOption bound
    let default ← migrateOption default
    return ⟨some node, name, bound, default⟩ :: (← migrateTypeParamList rest)

/-- The parameter `this`, which is written first. -/
def migrateThis : Option (FlowParam FlowType) → Recorded (List (TsParam TsType))
  | none => return []
  | some ⟨node, _, type, _⟩ => do return [⟨some node, "this", ← migrate type, false, false⟩]

/-- Parameters, of which the first one has the given number. -/
def migrateParams : Nat → List (FlowParam FlowType) → Recorded (List (TsParam TsType))
  | _, [] => return []
  | number, ⟨node, name, type, optional⟩ :: rest => do
    let type ← migrate type
    return ⟨some node, paramName name ("arg" ++ toString number), type, optional, false⟩
      :: (← migrateParams (number + 1) rest)

/-- The rest parameter; whether it is optional has no meaning. -/
def migrateRest : Option (FlowParam FlowType) → Recorded (List (TsParam TsType))
  | none => return []
  | some ⟨node, name, type, _⟩ => do
    return [⟨some node, paramName name "rest", ← migrate type, false, true⟩]

/-- The parts that the members of an object become, in their order. -/
def migrateMembers : List (FlowMember FlowType) → Recorded (List ObjectPart)
  | [] => return []
  | member :: rest => do
    let part ← migrateMember member
    return part :: (← migrateMembers rest)

/-- The part that a member of an object becomes. -/
def migrateMember : FlowMember FlowType → Recorded ObjectPart
  | .property node key value traits => do
    checkProperty c node key traits
    let value ← migrate value
    return .member (← propertyMember c node key traits value)
  | .spread node argument => do return .type (.parenthesized (some node) (← migrate argument))
  | .indexer node id key value variance isStatic => do
    if variance = some .minus then notePlace c .objectPropertyWithMinusVariance node
    if isStatic then refuseAt c node "static indexer"
    let key ← migrate key
    let value ← migrate value
    return indexerPart c node id key value variance
  | .callProperty node _ => refuseAt c node ""
  | .internalSlot node _ => refuseAt c node ""

end

/-- The type that a node of a Flow type becomes. -/
def migrateNode (node : Json) : Recorded TsType := do
  migrate c (← Recorded.ofResult (Flow.decodeType c.path node))

/-- A reference to the alias for what was inferred to be `any`. -/
def inferredAny : Recorded TsType := anyAlias .inferred none

end Retype.Migration
