import Retype.Flow.Grammar
/-! # Outlines of types

A decoded type as a JSON value, to be read by a person or another program.
Each object names its construct under `node`; positions and comments are left
out.
-/

namespace Retype.Flow

/-- The object of a construct. -/
def construct (name : String) (fields : Entries) : Json :=
  .obj (("node", .str ("Flow" ++ name)) :: fields)

def outlineText : Option String → Json
  | none => .null
  | some s => .str s

def outlineVariance : Option Variance → Json
  | none => .null
  | some .plus => .str "plus"
  | some .minus => .str "minus"

def outlineName (n : FlowName) : Json := construct "Identifier" [("name", .str n.text)]

def outlineEntity : FlowEntity → Json
  | .name n => outlineName n
  | .qualified _ q id =>
    construct "QualifiedIdentifier" [("qualification", outlineEntity q), ("id", outlineName id)]

def outlineKeyword : FlowKeyword → String
  | .any => "Any"
  | .mixed => "Mixed"
  | .empty => "Empty"
  | .existential => "Exists"
  | .boolean => "Boolean"
  | .number => "Number"
  | .string => "String"
  | .symbol => "Symbol"
  | .null => "NullLiteral"
  | .void => "Void"
  | .this => "This"
  | .interface => "Interface"

mutual

/-- The outline of a type. -/
def outline : FlowType → Json
  | .keyword _ w => construct (outlineKeyword w) []
  | .literal _ (.boolean b) => construct "BooleanLiteral" [("value", .bool b)]
  | .literal _ (.number v) => construct "NumberLiteral" [("value", v)]
  | .literal _ (.string s) => construct "StringLiteral" [("value", .str s)]
  | .array _ t => construct "Array" [("element_type", outline t)]
  | .nullable _ t => construct "Nullable" [("type_annotation", outline t)]
  | .tuple _ ts => construct "Tuple" [("types", .arr (outlines ts))]
  | .union _ ts => construct "Union" [("types", .arr (outlines ts))]
  | .intersection _ ts => construct "Intersection" [("types", .arr (outlines ts))]
  | .typeof _ t => construct "Typeof" [("argument", outline t)]
  | .indexedAccess _ o i =>
    construct "IndexedAccess" [("object_type", outline o), ("index_type", outline i)]
  | .optionalIndexedAccess _ o i =>
    construct "OptionalIndexedAccess" [("object_type", outline o), ("index_type", outline i)]
  | .generic _ id args =>
    construct "Generic" [("id", outlineEntity id), ("type_arguments", outlineArgsOption args)]
  | .function _ params result rest thisParam typeParams =>
    construct "Function"
      [("params", .arr (outlineParams params)), ("return_type", outline result),
        ("rest", outlineParamOption rest), ("this_param", outlineParamOption thisParam),
        ("type_parameters", outlineTypeParamsOption typeParams)]
  | .object _ members exact =>
    construct "Object" [("members", .arr (outlineMembers members)), ("exact", .bool exact)]

def outlines : List FlowType → List Json
  | [] => []
  | t :: rest => outline t :: outlines rest

def outlineOption : Option FlowType → Json
  | none => .null
  | some t => outline t

def outlineArgs : FlowArgs FlowType → Json
  | ⟨_, params⟩ => construct "TypeArgs" [("params", .arr (outlines params))]

def outlineArgsOption : Option (FlowArgs FlowType) → Json
  | none => .null
  | some args => outlineArgs args

def outlineTypeParams : FlowTypeParams FlowType → Json
  | ⟨_, params⟩ => construct "TypeParams" [("params", .arr (outlineTypeParamList params))]

def outlineTypeParamsOption : Option (FlowTypeParams FlowType) → Json
  | none => .null
  | some params => outlineTypeParams params

def outlineTypeParamList : List (FlowTypeParam FlowType) → List Json
  | [] => []
  | ⟨_, name, bound, default, variance⟩ :: rest =>
    construct "TypeParam"
      [("name", .str name), ("bound", outlineOption bound), ("default", outlineOption default),
        ("variance", outlineVariance variance)] :: outlineTypeParamList rest

def outlineParam : FlowParam FlowType → Json
  | ⟨_, name, type, optional⟩ =>
    construct "FunctionParam"
      [("name", outlineText name), ("type_annotation", outline type), ("optional", .bool optional)]

def outlineParamOption : Option (FlowParam FlowType) → Json
  | none => .null
  | some p => outlineParam p

def outlineParams : List (FlowParam FlowType) → List Json
  | [] => []
  | p :: rest => outlineParam p :: outlineParams rest

def outlineMembers : List (FlowMember FlowType) → List Json
  | [] => []
  | m :: rest => outlineMember m :: outlineMembers rest

def outlineMember : FlowMember FlowType → Json
  | .property _ key value t =>
    construct "ObjectProperty"
      [("key", key), ("value", outline value), ("optional", .bool t.optional),
        ("variance", outlineVariance t.variance), ("method", .bool t.method),
        ("kind", .str t.kind), ("static", .bool t.isStatic), ("proto", .bool t.proto)]
  | .spread _ t => construct "ObjectSpread" [("argument", outline t)]
  | .indexer _ id key value variance isStatic =>
    construct "ObjectIndexer"
      [("id", outlineText id), ("key", outline key), ("value", outline value),
        ("variance", outlineVariance variance), ("static", .bool isStatic)]
  | .callProperty _ t => construct "ObjectCallProperty" [("value", outline t)]
  | .internalSlot _ id => construct "ObjectInternalSlot" [("id", .str id)]

end

end Retype.Flow
