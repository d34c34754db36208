import Retype.Proofs.Json.Entries
import Retype.TypeScript.Encode
/-!
# The grammar of written types

The nodes that types are written as form a language, and `productions` is its
grammar: for each sort of node the kinds that it may have, and for each kind
the keys of its nodes with what stands under them. `Generated` says that a node
follows the grammar at every depth. Besides the keys of its kind a node holds
what it has inherited from the node it comes from. Every type whose literals
hold values is written as such a node (`encode_generated`).
-/

namespace Retype.TypeScript

/-- The sorts of nodes in a type. -/
inductive Nonterminal where
  | type
  | name
  | identifier
  | literal
  | numeral
  | ascription
  | parameter
  | keyParameter
  | typeParameter
  | typeParameters
  | typeArguments
  | member
  deriving DecidableEq, Repr

/-- What stands under a key of a node. -/
inductive Slot where
  | text
  | flag
  | number
  /-- Whatever the source has there. -/
  | given
  | constant (v : Json)
  /-- The truth value `true`; the key may be missing. -/
  | marker
  | node (n : Nonterminal)
  /-- A node, or null. -/
  | optional (n : Nonterminal)
  /-- A list of one node. -/
  | one (n : Nonterminal)
  | list (n : Nonterminal)

/-- The words among the types. -/
def keywords : List TsKeyword :=
  [.any, .unknown, .never, .boolean, .number, .string, .symbol, .null, .undefined, .void]

/-- The kinds of a sort of nodes, each with what its nodes consist of. -/
def productions : Nonterminal → List (String × List (String × Slot))
  | .type =>
    keywords.map (fun word => (word.kindName, [])) ++
    [("TSThisType", []),
      ("TSLiteralType", [("literal", .node .literal)]),
      ("TSArrayType", [("elementType", .node .type)]),
      ("TSTupleType", [("elementTypes", .list .type)]),
      ("TSUnionType", [("types", .list .type)]),
      ("TSIntersectionType", [("types", .list .type)]),
      ("TSParenthesizedType", [("typeAnnotation", .node .type)]),
      ("TSFunctionType", [("typeParameters", .optional .typeParameters),
        ("parameters", .list .parameter), ("typeAnnotation", .node .ascription)]),
      ("TSTypeReference", [("typeName", .node .name),
        ("typeParameters", .optional .typeArguments)]),
      ("TSTypeOperator", [("operator", .text), ("typeAnnotation", .node .type)]),
      ("TSIndexedAccessType", [("objectType", .node .type), ("indexType", .node .type)]),
      ("TSTypeQuery", [("exprName", .node .name)]),
      ("TSTypeLiteral", [("members", .list .member)])]
  | .name =>
    [("Identifier", [("name", .text)]),
      ("TSQualifiedName", [("left", .node .name), ("right", .node .identifier)])]
  | .identifier => [("Identifier", [("name", .text)])]
  | .literal =>
    [("BooleanLiteral", [("value", .flag)]),
      ("StringLiteral", [("value", .text)]),
      ("NumericLiteral", [("value", .number)]),
      ("UnaryExpression", [("operator", .constant (.str "-")), ("prefix", .constant (.bool true)),
        ("argument", .node .numeral)])]
  | .numeral => [("NumericLiteral", [("value", .number)])]
  | .ascription => [("TSTypeAnnotation", [("typeAnnotation", .node .type)])]
  | .parameter =>
    [("Identifier", [("name", .text), ("typeAnnotation", .node .ascription),
        ("optional", .marker)]),
      ("RestElement", [("argument", .node .identifier), ("typeAnnotation", .node .ascription)])]
  | .keyParameter =>
    [("Identifier", [("name", .text), ("typeAnnotation", .node .ascription)])]
  | .typeParameter =>
    [("TSTypeParameter", [("name", .text), ("constraint", .optional .type),
      ("default", .optional .type)])]
  | .typeParameters => [("TSTypeParameterDeclaration", [("params", .list .typeParameter)])]
  | .typeArguments => [("TSTypeParameterInstantiation", [("params", .list .type)])]
  | .member =>
    [("TSPropertySignature", [("key", .given), ("computed", .flag), ("optional", .flag),
        ("typeAnnotation", .node .ascription), ("readonly", .marker)]),
      ("TSMethodSignature", [("key", .given), ("computed", .flag), ("optional", .flag),
        ("kind", .constant (.str "method")), ("typeParameters", .optional .typeParameters),
        ("parameters", .list .parameter), ("typeAnnotation", .node .ascription)]),
      ("TSIndexSignature", [("parameters", .one .keyParameter),
        ("typeAnnotation", .node .ascription), ("readonly", .marker)])]

/-- What a node may have inherited: keys of positions and comments, each once. -/
structure Inherited (entries : Entries) : Prop where
  keys : ∀ entry ∈ entries, entry.1 ∈ Json.inheritedKeys
  nodup : (entries.map (·.1)).Nodup

mutual

/-- A value fits in a slot. -/
inductive Fits : Slot → Json → Prop
  | text (s : String) : Fits .text (.str s)
  | flag (b : Bool) : Fits .flag (.bool b)
  | whole (i : Int) : Fits .number (.int i)
  | double (x : Double) : Fits .number (.double x)
  | given (v : Json) : Fits .given v
  | constant (v : Json) : Fits (.constant v) v
  | node {n : Nonterminal} {v : Json} : Generated n v → Fits (.node n) v
  | absent {n : Nonterminal} : Fits (.optional n) .null
  | present {n : Nonterminal} {v : Json} : Generated n v → Fits (.optional n) v
  | one {n : Nonterminal} {v : Json} : Generated n v → Fits (.one n) (.arr [v])
  | list {n : Nonterminal} {items : List Json} :
      (∀ v ∈ items, Generated n v) → Fits (.list n) (.arr items)

/-- Entries fill the slots of a kind: the keys stand in their order, and there
are no others. -/
inductive Fills : List (String × Slot) → Entries → Prop
  | nil : Fills [] []
  | cons {key : String} {slot : Slot} {v : Json} {slots : List (String × Slot)} {fields : Entries} :
      Fits slot v → Fills slots fields → Fills ((key, slot) :: slots) ((key, v) :: fields)
  | marked {key : String} {slots : List (String × Slot)} {fields : Entries} :
      Fills slots fields → Fills ((key, .marker) :: slots) ((key, .bool true) :: fields)
  | unmarked {key : String} {slots : List (String × Slot)} {fields : Entries} :
      Fills slots fields → Fills ((key, .marker) :: slots) fields

/-- The grammar generates a node from a sort: the node is of one of its kinds,
the slots of the kind are filled, and the rest is inherited. -/
inductive Generated : Nonterminal → Json → Prop
  | intro {n : Nonterminal} {kind : String} {slots : List (String × Slot)}
      {fields inherited : Entries} (hkind : (kind, slots) ∈ productions n)
      (hfields : Fills slots fields) (hinherited : Inherited inherited) :
      Generated n (.obj (("type", .str kind) :: fields ++ inherited))

end

/-! ## Inheriting -/

namespace Inherited

/-- No fields are inherited fields. -/
theorem nil : Inherited [] := ⟨nofun, List.nodup_nil⟩

/-- A key is inherited if it is not there yet. -/
theorem append {entries : Entries} (h : Inherited entries) {key : String}
    (hkey : key ∈ Json.inheritedKeys) (hnew : key ∉ entries.map (·.1)) (v : Json) :
    Inherited (entries ++ [(key, v)]) where
  keys entry hentry := by
    rcases List.mem_append.1 hentry with hentry | hentry
    · exact h.keys entry hentry
    · rw [List.mem_singleton.1 hentry]
      exact hkey
  nodup := by
    rw [List.map_append, List.map_singleton, List.nodup_append]
    refine ⟨h.nodup, by simp, fun k hk k' hk' hsame => ?_⟩
    rw [hsame, List.mem_singleton.1 hk'] at hk
    exact hnew hk

end Inherited

/-- What a node inherits comes after its own entries. -/
theorem inherit_eq_append (origin : Json) (entries : Entries) :
    ∃ inherited, Json.inherit origin (.obj entries) = .obj (entries ++ inherited) ∧
      Inherited inherited := by
  rw [Json.inherit]
  refine List.foldlRecOn (motive := fun n => ∃ inherited, n = Json.obj (entries ++ inherited) ∧
    Inherited inherited) _ _ ⟨[], by rw [List.append_nil], .nil⟩ ?_
  rintro _ ⟨inherited, rfl, h⟩ key hkey
  split
  next v hv hnone =>
    have hnew : key ∉ (entries ++ inherited).map (·.1) := Entries.not_mem_of_get?_none hnone
    refine ⟨inherited ++ [(key, v)], ?_, ?_⟩
    · rw [Json.set, Entries.set_of_not_mem hnew, List.append_assoc]
    · rw [List.map_append, List.mem_append, not_or] at hnew
      exact h.append hkey hnew.2 v
  next => exact ⟨inherited, rfl, h⟩

/-- A node that fills the slots of a kind is generated, wherever it comes from. -/
theorem Generated.of_fills {n : Nonterminal} {kind : String} {slots : List (String × Slot)}
    (hkind : (kind, slots) ∈ productions n) {fields : Entries} (h : Fills slots fields)
    (origin : Option Json) : Generated n (Json.inheritOption origin (node kind fields)) := by
  cases origin with
  | none =>
    have hnode := Generated.intro hkind h .nil
    rwa [List.append_nil] at hnode
  | some origin =>
    obtain ⟨inherited, heq, hinherited⟩ := inherit_eq_append origin (("type", .str kind) :: fields)
    rw [Json.inheritOption, node, heq]
    exact .intro hkind h hinherited

/-! ## Types whose literals hold values -/

/-- A truth value, a number or a text. -/
def isScalar : Json → Bool
  | .bool _ | .int _ | .double _ | .str _ => true
  | _ => false

mutual

/-- Every literal in a type holds a value. -/
inductive Valued : TsType → Prop
  | keyword (origin : Option Json) (word : TsKeyword) : Valued (.keyword origin word)
  | this (origin : Option Json) : Valued (.this origin)
  | literal (origin : Option Json) {v : Json} : isScalar v = true → Valued (.literal origin v)
  | array (origin : Option Json) {t : TsType} : Valued t → Valued (.array origin t)
  | tuple (origin : Option Json) {ts : List TsType} :
      (∀ t ∈ ts, Valued t) → Valued (.tuple origin ts)
  | union (origin : Option Json) {ts : List TsType} :
      (∀ t ∈ ts, Valued t) → Valued (.union origin ts)
  | intersection (origin : Option Json) {ts : List TsType} :
      (∀ t ∈ ts, Valued t) → Valued (.intersection origin ts)
  | parenthesized (origin : Option Json) {t : TsType} : Valued t → Valued (.parenthesized origin t)
  | function (origin : Option Json) {s : TsSignature TsType} :
      ValuedSignature s → Valued (.function origin s)
  | reference (origin : Option Json) (name : TsEntity) {args : Option (TsArgs TsType)} :
      (∀ as, args = some as → ValuedArgs as) → Valued (.reference origin name args)
  | operator (origin : Option Json) (word : String) {t : TsType} :
      Valued t → Valued (.operator origin word t)
  | indexedAccess (origin : Option Json) {object index : TsType} :
      Valued object → Valued index → Valued (.indexedAccess origin object index)
  | query (origin : Option Json) (name : TsEntity) : Valued (.query origin name)
  | typeLiteral (origin : Option Json) {members : List (TsMember TsType)} :
      (∀ m ∈ members, ValuedMember m) → Valued (.typeLiteral origin members)

inductive ValuedArgs : TsArgs TsType → Prop
  | intro (origin : Option Json) {params : List TsType} :
      (∀ t ∈ params, Valued t) → ValuedArgs ⟨origin, params⟩

inductive ValuedTypeParam : TsTypeParam TsType → Prop
  | intro (origin : Option Json) (name : String) {bound default : Option TsType} :
      (∀ t, bound = some t → Valued t) → (∀ t, default = some t → Valued t) →
      ValuedTypeParam ⟨origin, name, bound, default⟩

inductive ValuedTypeParams : TsTypeParams TsType → Prop
  | intro (origin : Option Json) {params : List (TsTypeParam TsType)} :
      (∀ p ∈ params, ValuedTypeParam p) → ValuedTypeParams ⟨origin, params⟩

inductive ValuedSignature : TsSignature TsType → Prop
  | intro {params : List (TsParam TsType)} {result : TsType}
      {typeParams : Option (TsTypeParams TsType)} :
      (∀ p ∈ params, Valued p.type) → Valued result →
      (∀ ps, typeParams = some ps → ValuedTypeParams ps) →
      ValuedSignature ⟨params, result, typeParams⟩

inductive ValuedMember : TsMember TsType → Prop
  | property (origin : Option Json) (key : Json) {t : TsType} (computed optional readonly : Bool) :
      Valued t → ValuedMember (.property origin key t computed optional readonly)
  | method (origin : Option Json) (key : Json) {s : TsSignature TsType} (computed optional : Bool) :
      ValuedSignature s → ValuedMember (.method origin key s computed optional)
  | index (origin : Option Json) (name : String) {key value : TsType} (readonly : Bool) :
      Valued key → Valued value → ValuedMember (.index origin name key value readonly)

end

/-- Where a type comes from makes no difference. -/
theorem Valued.withOrigin {t : TsType} (h : Valued t) (node : Json) :
    Valued (t.withOrigin node) := by
  cases h with
  | keyword _ word => exact .keyword _ word
  | this => exact .this _
  | literal _ hv => exact .literal _ hv
  | array _ ht => exact .array _ ht
  | tuple _ hts => exact .tuple _ hts
  | union _ hts => exact .union _ hts
  | intersection _ hts => exact .intersection _ hts
  | parenthesized _ ht => exact .parenthesized _ ht
  | function _ hs => exact .function _ hs
  | reference _ name hargs => exact .reference _ name hargs
  | operator _ word ht => exact .operator _ word ht
  | indexedAccess _ hobject hindex => exact .indexedAccess _ hobject hindex
  | query _ name => exact .query _ name
  | typeLiteral _ hms => exact .typeLiteral _ hms

/-- Parentheses keep a type's values. -/
theorem Valued.parenthesizeFunction {t : TsType} (h : Valued t) :
    Valued t.parenthesizeFunction := by
  unfold TsType.parenthesizeFunction
  split
  · exact .parenthesized _ h
  · exact h

/-! ## Writing -/

/-- An identifier is generated. -/
theorem identifier_generated (name : String) (origin : Option Json) :
    Generated .identifier (Json.inheritOption origin (identifier name [])) :=
  .of_fills (by simp [productions]) (.cons (.text name) .nil) origin

/-- So is a qualified name. -/
theorem encodeEntity_generated : ∀ e : TsEntity, Generated .name (encodeEntity e)
  | .name n => .of_fills (by simp [productions]) (.cons (.text n.text) .nil) n.origin
  | .qualified origin left right =>
    .of_fills (by simp [productions])
      (.cons (.node (encodeEntity_generated left))
        (.cons (.node (identifier_generated right.text right.origin)) .nil)) origin

/-- So is a number. -/
theorem numeral_generated {n : Nonterminal} (hn : n = .numeral ∨ n = .literal) {v : Json}
    (hv : Fits .number v) : Generated n (node "NumericLiteral" [("value", v)]) := by
  rcases hn with rfl | rfl <;>
    exact .of_fills (by simp [productions]) (.cons hv .nil) none

/-- So is a number with a sign. -/
theorem negated_generated {v : Json} (hv : Fits .number v) :
    Generated .literal (literalNode.negated v) :=
  .of_fills (by simp [productions]) (.cons (.constant _) (.cons (.constant _)
    (.cons (.node (numeral_generated (.inl rfl) hv)) .nil))) none

/-- So is every literal of a scalar. -/
theorem literalNode_generated {v : Json} (h : isScalar v = true) :
    Generated .literal (literalNode v) := by
  cases v with
  | bool b => exact .of_fills (by simp [productions]) (.cons (.flag b) .nil) none
  | str s => exact .of_fills (by simp [productions]) (.cons (.text s) .nil) none
  | int i =>
    rw [literalNode]
    split
    · exact negated_generated (.whole _)
    · exact numeral_generated (.inr rfl) (.whole i)
  | double x =>
    rw [literalNode]
    split
    · exact negated_generated (.double _)
    · exact numeral_generated (.inr rfl) (.double x)
  | null | arr _ | obj _ => cases h

/-- So is the annotation of a type that is. -/
theorem annotationNode_generated {v : Json} (h : Generated .type v) :
    Generated .ascription (annotationNode v) :=
  .of_fills (by simp [productions]) (.cons (.node h) .nil) none

/-- The parameter of an index signature is an identifier with a type. -/
theorem keyParameter_generated (name : String) {v : Json} (h : Generated .type v) :
    Generated .keyParameter (identifier name [("typeAnnotation", annotationNode v)]) :=
  .of_fills (by simp [productions])
    (.cons (.text name) (.cons (.node (annotationNode_generated h)) .nil)) none

/-- Types are written one by one. -/
theorem encodeAll_eq_map (ts : List TsType) : encodeAll ts = ts.map encode := by
  induction ts with
  | nil => rfl
  | cons t ts ih => rw [encodeAll, ih, List.map_cons]

/-- Types that are generated fit a list. -/
theorem encodeAll_fits {ts : List TsType} (h : ∀ t ∈ ts, Generated .type (encode t)) :
    Fits (.list .type) (.arr (encodeAll ts)) := by
  rw [encodeAll_eq_map]
  exact .list (List.forall_mem_map.2 h)

/-- A type that may be absent fits an option. -/
theorem encodeOption_fits {t : Option TsType} (h : ∀ u, t = some u → Generated .type (encode u)) :
    Fits (.optional .type) (encodeOption t) := by
  cases t with
  | none => exact .absent
  | some u => exact .present (h u rfl)

/-- So do type arguments. -/
theorem encodeArgsOption_fits {args : Option (TsArgs TsType)}
    (h : ∀ as, args = some as → Generated .typeArguments (encodeArgs as)) :
    Fits (.optional .typeArguments) (encodeArgsOption args) := by
  cases args with
  | none => exact .absent
  | some as => exact .present (h as rfl)

/-- So do type parameters. -/
theorem encodeTypeParamsOption_fits {params : Option (TsTypeParams TsType)}
    (h : ∀ ps, params = some ps → Generated .typeParameters (encodeTypeParams ps)) :
    Fits (.optional .typeParameters) (encodeTypeParamsOption params) := by
  cases params with
  | none => exact .absent
  | some ps => exact .present (h ps rfl)

/-- The bound and the default of a type parameter are types, or null. -/
theorem encodeTypeParamList_fits {params : List (TsTypeParam TsType)}
    (h : ∀ p ∈ params, Fits (.optional .type) (encodeOption p.bound) ∧
      Fits (.optional .type) (encodeOption p.default)) :
    Fits (.list .typeParameter) (.arr (encodeTypeParamList params)) := by
  suffices hall : ∀ v ∈ encodeTypeParamList params, Generated .typeParameter v from .list hall
  induction params with
  | nil => simp [encodeTypeParamList]
  | cons p rest ih =>
    obtain ⟨origin, name, bound, default⟩ := p
    rw [List.forall_mem_cons] at h
    rw [encodeTypeParamList, List.forall_mem_cons]
    exact ⟨.of_fills (by simp [productions])
      (.cons (.text name) (.cons h.1.1 (.cons h.1.2 .nil))) origin, ih h.2⟩

/-- A parameter is an identifier with a type, or a rest element. -/
theorem encodeParams_fits {params : List (TsParam TsType)}
    (h : ∀ p ∈ params, Generated .type (encode p.type)) :
    Fits (.list .parameter) (.arr (encodeParams params)) := by
  suffices hall : ∀ v ∈ encodeParams params, Generated .parameter v from .list hall
  induction params with
  | nil => simp [encodeParams]
  | cons p rest ih =>
    obtain ⟨origin, name, type, optional, isRest⟩ := p
    rw [List.forall_mem_cons] at h
    rw [encodeParams, List.forall_mem_cons]
    refine ⟨?_, ih h.2⟩
    have htype := annotationNode_generated h.1
    cases isRest with
    | true =>
      exact .of_fills (by simp [productions])
        (.cons (.node (identifier_generated name none)) (.cons (.node htype) .nil)) origin
    | false =>
      cases optional with
      | true =>
        exact .of_fills (by simp [productions])
          (.cons (.text name) (.cons (.node htype) (.marked .nil))) origin
      | false =>
        have hmarker : Fills [("optional", .marker)] [] := .unmarked .nil
        exact .of_fills (by simp [productions])
          (.cons (.text name) (.cons (.node htype) hmarker)) origin

/-- Members that are generated fit a list. -/
theorem encodeMembers_fits {members : List (TsMember TsType)}
    (h : ∀ m ∈ members, Generated .member (encodeMember m)) :
    Fits (.list .member) (.arr (encodeMembers members)) := by
  suffices hmap : encodeMembers members = members.map encodeMember by
    rw [hmap]
    exact .list (List.forall_mem_map.2 h)
  induction members with
  | nil => rfl
  | cons m rest ih => rw [encodeMembers, ih fun m hm => h m (List.mem_cons_of_mem _ hm),
      List.map_cons]

/-- The marker of a member that is read-only comes last. -/
theorem readonly_fills (readonly : Bool) :
    Fills [("readonly", .marker)] (if readonly then [("readonly", .bool true)] else []) := by
  cases readonly with
  | true => exact .marked .nil
  | false => exact .unmarked .nil

mutual

/-- **Types are written as the grammar has it.** -/
theorem encode_generated : ∀ {t : TsType}, Valued t → Generated .type (encode t)
  | _, .keyword origin word =>
    .of_fills (by cases word <;> simp [productions, keywords, TsKeyword.kindName]) .nil origin
  | _, .this origin => .of_fills (by simp [productions]) .nil origin
  | _, .literal origin h =>
    .of_fills (by simp [productions]) (.cons (.node (literalNode_generated h)) .nil) origin
  | _, .array origin h =>
    .of_fills (by simp [productions]) (.cons (.node (encode_generated h)) .nil) origin
  | _, .tuple origin h =>
    .of_fills (by simp [productions])
      (.cons (encodeAll_fits fun t ht => encode_generated (h t ht)) .nil) origin
  | _, .union origin h =>
    .of_fills (by simp [productions])
      (.cons (encodeAll_fits fun t ht => encode_generated (h t ht)) .nil) origin
  | _, .intersection origin h =>
    .of_fills (by simp [productions])
      (.cons (encodeAll_fits fun t ht => encode_generated (h t ht)) .nil) origin
  | _, .parenthesized origin h =>
    .of_fills (by simp [productions]) (.cons (.node (encode_generated h)) .nil) origin
  | _, .function origin (.intro hparams hresult htypeParams) =>
    .of_fills (by simp [productions])
      (.cons (encodeTypeParamsOption_fits fun ps hps =>
          encodeTypeParams_generated (htypeParams ps hps))
        (.cons (encodeParams_fits fun p hp => encode_generated (hparams p hp))
          (.cons (.node (annotationNode_generated (encode_generated hresult))) .nil))) origin
  | _, .reference origin name h =>
    .of_fills (by simp [productions])
      (.cons (.node (encodeEntity_generated name))
        (.cons (encodeArgsOption_fits fun as has => encodeArgs_generated (h as has)) .nil)) origin
  | _, .operator origin word h =>
    .of_fills (by simp [productions])
      (.cons (.text word) (.cons (.node (encode_generated h)) .nil)) origin
  | _, .indexedAccess origin hobject hindex =>
    .of_fills (by simp [productions])
      (.cons (.node (encode_generated hobject)) (.cons (.node (encode_generated hindex)) .nil))
      origin
  | _, .query origin name =>
    .of_fills (by simp [productions]) (.cons (.node (encodeEntity_generated name)) .nil) origin
  | _, .typeLiteral origin h =>
    .of_fills (by simp [productions])
      (.cons (encodeMembers_fits fun m hm => encodeMember_generated (h m hm)) .nil) origin

/-- Valued type arguments are generated. -/
theorem encodeArgs_generated : ∀ {args : TsArgs TsType}, ValuedArgs args →
    Generated .typeArguments (encodeArgs args)
  | _, .intro origin h =>
    .of_fills (by simp [productions])
      (.cons (encodeAll_fits fun t ht => encode_generated (h t ht)) .nil) origin

/-- So are valued type parameters. -/
theorem encodeTypeParams_generated : ∀ {params : TsTypeParams TsType}, ValuedTypeParams params →
    Generated .typeParameters (encodeTypeParams params)
  | _, .intro origin h =>
    .of_fills (by simp [productions])
      (.cons (encodeTypeParamList_fits fun p hp => encodeTypeParam_fits (h p hp)) .nil) origin

/-- The bound and the default of one fit their options. -/
theorem encodeTypeParam_fits : ∀ {p : TsTypeParam TsType}, ValuedTypeParam p →
    Fits (.optional .type) (encodeOption p.bound) ∧ Fits (.optional .type) (encodeOption p.default)
  | _, .intro _ _ hbound hdefault =>
    ⟨encodeOption_fits fun t ht => encode_generated (hbound t ht),
      encodeOption_fits fun t ht => encode_generated (hdefault t ht)⟩

/-- A valued member is generated. -/
theorem encodeMember_generated : ∀ {m : TsMember TsType}, ValuedMember m →
    Generated .member (encodeMember m)
  | _, .property origin key computed optional readonly h =>
    .of_fills (by simp [productions])
      (.cons (.given key) (.cons (.flag computed) (.cons (.flag optional)
        (.cons (.node (annotationNode_generated (encode_generated h)))
          (readonly_fills readonly))))) origin
  | _, .method origin key computed optional (.intro hparams hresult htypeParams) =>
    .of_fills (by simp [productions])
      (.cons (.given key) (.cons (.flag computed) (.cons (.flag optional)
        (.cons (.constant _)
          (.cons (encodeTypeParamsOption_fits fun ps hps =>
              encodeTypeParams_generated (htypeParams ps hps))
            (.cons (encodeParams_fits fun p hp => encode_generated (hparams p hp))
              (.cons (.node (annotationNode_generated (encode_generated hresult))) .nil)))))))
      origin
  | _, .index origin name readonly hkey hvalue =>
    .of_fills (by simp [productions])
      (.cons (.one (keyParameter_generated name (encode_generated hkey)))
        (.cons (.node (annotationNode_generated (encode_generated hvalue)))
          (readonly_fills readonly))) origin

end

end Retype.TypeScript
