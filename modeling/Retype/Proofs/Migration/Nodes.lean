import Mathlib.Algebra.GroupWithZero.Nat
import Retype.Proofs.Migration.Due
import Retype.Proofs.Migration.Formed
/-!
# The nodes of a written type

What a type is written as is one node for it, the nodes of its parts and of its
keys, and others between them that are never types (`tally_encode`). So each
type in a type has its node in what is written (`mem_nodesIn_encode`), and nodes
of types can be counted part by part.
-/

namespace Retype

namespace Json

mutual

/-- The objects in a value, apart from those in metadata. -/
def nodesIn : Json → List Json
  | .arr items => nodesInItems items
  | .obj entries => .obj entries :: nodesInEntries entries
  | _ => []

def nodesInItems : List Json → List Json
  | [] => []
  | item :: rest => nodesIn item ++ nodesInItems rest

def nodesInEntries : List (String × Json) → List Json
  | [] => []
  | (key, v) :: rest =>
    (if metadataKeys.contains key then [] else nodesIn v) ++ nodesInEntries rest

end

/-- The nodes in joined entries are those in both. -/
theorem nodesInEntries_append (l l' : Entries) :
    nodesInEntries (l ++ l') = nodesInEntries l ++ nodesInEntries l' := by
  induction l with
  | nil => rfl
  | cons entry rest ih =>
    rw [List.cons_append, nodesInEntries, nodesInEntries, ih, List.append_assoc]

/-- How many nodes in a value pass a test. -/
def tally (p : Json → Bool) (v : Json) : Nat := (nodesIn v).countP p

/-- A count is positive when a node that counts is there. -/
theorem exists_mem_nodesIn {p : Json → Bool} {v : Json} :
    0 < tally p v ↔ ∃ n ∈ nodesIn v, p n = true := List.countP_pos_iff

end Json

namespace Migration

open TypeScript
  (node identifier annotationNode encode encodeEntity encodeName encodeAll encodeOption
  encodeArgs encodeArgsOption encodeTypeParams encodeTypeParamsOption encodeTypeParamList
  encodeParams encodeMember encodeMembers literalNode)
open Json (nodesIn nodesInItems nodesInEntries tally)

/-! ## Nodes that are no types -/

/-- The kinds of the nodes around and between the types in a type. -/
def frameKinds : List String :=
  ["Identifier", "TSQualifiedName", "TSTypeAnnotation", "TSTypeParameterInstantiation",
    "TSTypeParameterDeclaration", "TSTypeParameter", "RestElement", "TSPropertySignature",
    "TSMethodSignature", "TSIndexSignature", "BooleanLiteral", "StringLiteral", "NumericLiteral",
    "UnaryExpression"]

/-- A test that no node between types passes. -/
def OfTypes (p : Json → Bool) : Prop := ∀ n : Json, n.kind ∈ frameKinds → p n = false

/-- A written type is no frame around types. -/
theorem kind_encode_not_frame (t : TsType) : (encode t).kind ∉ frameKinds := by
  cases t with
  | keyword origin word =>
    rw [encode, kind_of_kind (get?_type_inheritOption ..)]
    cases word <;> decide
  | _ =>
    rw [encode, kind_of_kind (get?_type_inheritOption ..)]
    decide

variable {p : Json → Bool} {kind : String} {fields : Entries}

/-- What a node inherits is metadata. -/
theorem nodesIn_inheritOption (origin : Option Json) (kind : String) (fields : Entries) :
    nodesIn (Json.inheritOption origin (node kind fields)) =
      Json.inheritOption origin (node kind fields) :: nodesInEntries fields := by
  have hnode (l : Entries) : nodesInEntries (("type", .str kind) :: l) = nodesInEntries l := rfl
  cases origin with
  | none => rw [Json.inheritOption, node, nodesIn, hnode]
  | some origin =>
    obtain ⟨inherited, heq, hinherited⟩ :=
      TypeScript.inherit_eq_append origin (("type", .str kind) :: fields)
    have hnothing : nodesInEntries inherited = [] := by
      have hkeys := hinherited.keys
      clear heq hinherited
      induction inherited with
      | nil => rfl
      | cons entry rest ih =>
        rw [List.forall_mem_cons] at hkeys
        rw [nodesInEntries, ih hkeys.2, if_pos (List.contains_iff_mem.2 (mem_metadataKeys hkeys.1))]
        rfl
    rw [Json.inheritOption, node, heq, nodesIn, Json.nodesInEntries_append, hnothing,
      List.append_nil, hnode]

/-- How many nodes in some entries pass a test. -/
def tallyFields (p : Json → Bool) (fields : Entries) : Nat := (nodesInEntries fields).countP p

/-- How many nodes of some types pass a test. -/
def tallyTypes (p : Json → Bool) (ts : List TsType) : Nat :=
    (ts.map fun t => tally p (encode t)).sum

/-- A node counts itself and what is in its fields. -/
theorem tally_node (origin : Option Json) : tally p (Json.inheritOption origin (node kind fields)) =
    (if p (Json.inheritOption origin (node kind fields)) = true then 1 else 0) +
      tallyFields p fields := by
  rw [tally, nodesIn_inheritOption, List.countP_cons, Nat.add_comm]
  rfl

/-- No field counts nothing. -/
@[simp] theorem tallyFields_nil : tallyFields p [] = 0 := rfl

/-- A field counts what its value does. -/
theorem tallyFields_cons {key : String} (hkey : key ∉ Json.metadataKeys) (v : Json) :
    tallyFields p ((key, v) :: fields) = tally p v + tallyFields p fields := by
  rw [tallyFields, nodesInEntries, if_neg (by simpa using hkey), List.countP_append]
  rfl

/-- Joined fields count what both do. -/
theorem tallyFields_append (l l' : Entries) :
    tallyFields p (l ++ l') = tallyFields p l + tallyFields p l' := by
  rw [tallyFields, Json.nodesInEntries_append, List.countP_append]
  rfl

/-- A marker is no node. -/
theorem tallyFields_marker (marked : Bool) (key : String) :
    tallyFields p (if marked then [(key, .bool true)] else []) = 0 := by
  rw [tallyFields]
  split
  · rw [nodesInEntries, nodesIn, ite_self]
    · rfl
    · exact nofun
    · exact nofun
  · rfl

/-- A text counts nothing. -/
@[simp] theorem tally_str (s : String) : tally p (.str s) = 0 := rfl

/-- Nor does a truth value. -/
@[simp] theorem tally_bool (b : Bool) : tally p (.bool b) = 0 := rfl

/-- Nor does the empty list. -/
@[simp] theorem tally_arr_nil : tally p (.arr []) = 0 := rfl

/-- A list counts its head and its tail. -/
@[simp] theorem tally_arr_cons (v : Json) (items : List Json) :
    tally p (.arr (v :: items)) = tally p v + tally p (.arr items) := by
  rw [tally, nodesIn, nodesInItems, List.countP_append]
  rfl

/-- No type counts nothing. -/
@[simp] theorem tallyTypes_nil : tallyTypes p [] = 0 := rfl

/-- Types count the first and the rest. -/
@[simp] theorem tallyTypes_cons (t : TsType) (ts : List TsType) :
    tallyTypes p (t :: ts) = tally p (encode t) + tallyTypes p ts := rfl

/-- Joined types count what both do. -/
@[simp] theorem tallyTypes_append (ts us : List TsType) :
    tallyTypes p (ts ++ us) = tallyTypes p ts + tallyTypes p us := by
  rw [tallyTypes, List.map_append, List.sum_append]
  rfl

/-- The written list counts what its types do. -/
theorem tally_encodeAll (ts : List TsType) : tally p (.arr (encodeAll ts)) = tallyTypes p ts := by
  induction ts with
  | nil => rfl
  | cons t ts ih => rw [encodeAll, tally_arr_cons, ih, tallyTypes_cons]

/-- So does a type that may be absent. -/
theorem tally_encodeOption (t : Option TsType) :
    tally p (encodeOption t) = tallyTypes p t.toList := by
  cases t <;> rfl

section Frame

variable (hp : OfTypes p)

include hp

/-- A node between types counts what is in its fields. -/
theorem tally_frame (hkind : kind ∈ frameKinds) (origin : Option Json) :
    tally p (Json.inheritOption origin (node kind fields)) = tallyFields p fields := by
  have hnot : p (Json.inheritOption origin (node kind fields)) = false :=
    hp _ (kind_of_kind (get?_type_inheritOption ..) ▸ hkind)
  rw [tally_node, hnot, if_neg Bool.false_ne_true, Nat.zero_add]

/-- A name counts what stands in its fields. -/
theorem tally_identifier (name : String) (origin : Option Json) :
    tally p (Json.inheritOption origin (identifier name fields)) = tallyFields p fields := by
  rw [identifier, tally_frame hp (by decide), tallyFields_cons (by decide), tally_str, Nat.zero_add]

/-- An annotation counts what its type does. -/
theorem tally_annotation (v : Json) : tally p (annotationNode v) = tally p v :=
  (tally_frame hp (by decide) none).trans (tallyFields_cons (by decide) v)

/-- A qualified name counts nothing. -/
theorem tally_entity (e : TsEntity) : tally p (encodeEntity e) = 0 := by
  induction e with
  | name n => exact tally_identifier hp n.text n.origin
  | qualified origin left right ih =>
    have hright : tally p (encodeName right) = 0 := tally_identifier hp right.text right.origin
    rw [encodeEntity, tally_frame hp (by decide), tallyFields_cons (by decide), ih,
      tallyFields_cons (by decide), hright]
    rfl

/-- A literal holds no types. -/
theorem tally_literalNode (v : Json) : tally p (literalNode v) = 0 := by
  have single (kind : String) (v : Json) (hkind : kind ∈ frameKinds) (hv : tally p v = 0) :
      tally p (node kind [("value", v)]) = 0 :=
    (tally_frame hp hkind none).trans ((tallyFields_cons (by decide) v).trans (by rw [hv]; rfl))
  have negated (v : Json) (hv : tally p v = 0) : tally p (literalNode.negated v) = 0 := by
    refine (tally_frame hp (by decide) none).trans ?_
    rw [tallyFields_cons (by decide), tallyFields_cons (by decide), tallyFields_cons (by decide),
      single _ v (by decide) hv]
    rfl
  cases v with
  | int i =>
    rw [literalNode]
    split
    · exact negated _ rfl
    · exact single _ (.int i) (by decide) rfl
  | double x =>
    rw [literalNode]
    split
    · exact negated _ rfl
    · exact single _ (.double x) (by decide) rfl
  | _ => exact single _ _ (by decide) rfl

/-- Type arguments count what their types do. -/
theorem tally_encodeArgsOption (as : Option (TsArgs TsType)) :
    tally p (encodeArgsOption as) = tallyTypes p ((as.map (·.params)).getD []) := by
  cases as with
  | none => rfl
  | some as =>
    obtain ⟨origin, params⟩ := as
    rw [encodeArgsOption, encodeArgs, tally_frame hp (by decide), tallyFields_cons (by decide),
      tally_encodeAll]
    rfl

/-- Type parameters count their bounds and defaults. -/
theorem tally_encodeTypeParamList (params : List (TsTypeParam TsType)) :
    tally p (.arr (encodeTypeParamList params)) =
      tallyTypes p (params.flatMap fun p => p.bound.toList ++ p.default.toList) := by
  induction params with
  | nil => rfl
  | cons param rest ih =>
    obtain ⟨origin, name, bound, default⟩ := param
    rw [encodeTypeParamList, tally_arr_cons, ih, tally_frame hp (by decide)]
    simp (disch := decide) only [tallyFields_cons, tallyFields_nil, tally_str, tally_encodeOption,
      List.flatMap_cons, tallyTypes_append]
    omega

/-- So do type parameters that may be absent. -/
theorem tally_encodeTypeParamsOption (params : Option (TsTypeParams TsType)) :
    tally p (encodeTypeParamsOption params) = tallyTypes p ((params.map (·.types)).getD []) := by
  cases params with
  | none => rfl
  | some params =>
    obtain ⟨origin, params⟩ := params
    rw [encodeTypeParamsOption, encodeTypeParams, tally_frame hp (by decide),
      tallyFields_cons (by decide), tally_encodeTypeParamList hp]
    rfl

/-- Parameters count their types. -/
theorem tally_encodeParams (ps : List (TsParam TsType)) :
    tally p (.arr (encodeParams ps)) = tallyTypes p (ps.map (·.type)) := by
  induction ps with
  | nil => rfl
  | cons param rest ih =>
    obtain ⟨origin, name, type, optional, isRest⟩ := param
    rw [encodeParams, tally_arr_cons, ih, List.map_cons, tallyTypes_cons]
    refine congrArg (· + _) ?_
    cases isRest with
    | true =>
      have hname : tally p (identifier name []) = 0 := tally_identifier hp name none
      rw [if_pos rfl, tally_frame hp (by decide), tallyFields_cons (by decide), hname,
        tallyFields_cons (by decide), tally_annotation hp, Nat.zero_add]
      rfl
    | false =>
      rw [if_neg Bool.false_ne_true, tally_identifier hp, tallyFields_cons (by decide),
        tally_annotation hp]
      cases optional <;> rfl

/-- The fields of a signature. -/
theorem tallyFields_signature (s : TsSignature TsType) :
    tallyFields p [("typeParameters", encodeTypeParamsOption s.typeParams),
      ("parameters", .arr (encodeParams s.params)),
      ("typeAnnotation", annotationNode (encode s.result))] = tallyTypes p s.types := by
  simp (disch := decide) only [tallyFields_cons, tallyFields_nil, tally_encodeTypeParamsOption hp,
    tally_encodeParams hp, tally_annotation hp, TsSignature.types, tallyTypes_append,
    tallyTypes_cons]
  omega

/-- What a member of a literal type is written as holds its types, and its key. -/
theorem tally_encodeMember (m : TsMember TsType) :
    tally p (encodeMember m) = tallyTypes p m.types + (m.key?.toList.map (tally p)).sum := by
  cases m with
  | property origin key type computed optional readonly =>
    rw [encodeMember, tally_frame hp (by decide), tallyFields_append, tallyFields_marker]
    simp (disch := decide) only [tallyFields_cons, tallyFields_nil, tally_bool,
      tally_annotation hp, TsMember.types, tallyTypes_cons, tallyTypes_nil, TsMember.key?,
      Option.toList_some, List.map_cons, List.map_nil, List.sum_cons, List.sum_nil]
    omega
  | method origin key s computed optional =>
    have hsignature := tallyFields_signature hp s
    obtain ⟨params, result, typeParams⟩ := s
    rw [encodeMember, tally_frame hp (by decide), tallyFields_cons (by decide),
      tallyFields_cons (by decide), tallyFields_cons (by decide), tallyFields_cons (by decide),
      hsignature]
    simp only [tally_bool, tally_str, TsMember.types, TsMember.key?, Option.toList_some,
      List.map_cons, List.map_nil, List.sum_cons, List.sum_nil]
    omega
  | index origin name key value readonly =>
    have hkey : tally p (identifier name [("typeAnnotation", annotationNode (encode key))]) =
        tally p (encode key) := by
      refine (tally_identifier hp name none).trans ?_
      rw [tallyFields_cons (by decide), tally_annotation hp]
      rfl
    rw [encodeMember, tally_frame hp (by decide), tallyFields_append, tallyFields_marker]
    simp (disch := decide) only [tallyFields_cons, tallyFields_nil, tally_arr_cons, tally_arr_nil,
      hkey, tally_annotation hp, TsMember.types, tallyTypes_cons, tallyTypes_nil, TsMember.key?,
      Option.toList_none, List.map_nil, List.sum_nil, Nat.add_zero]

/-- Members count their types and their keys. -/
theorem tally_encodeMembers (ms : List (TsMember TsType)) :
    tally p (.arr (encodeMembers ms)) = tallyTypes p (ms.flatMap TsMember.types) +
      ((ms.filterMap TsMember.key?).map (tally p)).sum := by
  induction ms with
  | nil => rfl
  | cons m ms ih =>
    rw [encodeMembers, tally_arr_cons, ih, tally_encodeMember hp, List.flatMap_cons,
      tallyTypes_append, List.filterMap_cons]
    cases m.key? <;> simp <;> omega

/-- **What a type is written as** counts its own node, its parts and its keys. -/
theorem tally_encode (t : TsType) : tally p (encode t) =
    (if p (encode t) = true then 1 else 0) + tallyTypes p t.parts + (t.keys.map (tally p)).sum := by
  rw [Nat.add_assoc]
  cases t with
  | keyword | this =>
    rw [encode, tally_node]
    rfl
  | literal origin v =>
    rw [encode, tally_node, tallyFields_cons (by decide), tally_literalNode hp]
    rfl
  | array | parenthesized | operator =>
    rw [encode, tally_node]
    simp (disch := decide) only [tallyFields_cons, tallyFields_nil, tally_str, TsType.parts,
      TsType.keys, tallyTypes_cons, tallyTypes_nil, List.map_nil, List.sum_nil, Nat.zero_add,
      Nat.add_zero]
  | tuple origin ts | union origin ts | intersection origin ts =>
    rw [encode, tally_node, tallyFields_cons (by decide), tally_encodeAll]
    rfl
  | function origin s =>
    have hsignature := tallyFields_signature hp s
    obtain ⟨params, result, typeParams⟩ := s
    rw [encode, tally_node, hsignature]
    rfl
  | reference origin name args =>
    rw [encode, tally_node, tallyFields_cons (by decide), tally_entity hp,
      tallyFields_cons (by decide), tally_encodeArgsOption hp, Nat.zero_add]
    rfl
  | indexedAccess origin object index =>
    rw [encode, tally_node, tallyFields_cons (by decide), tallyFields_cons (by decide)]
    rfl
  | query origin name =>
    rw [encode, tally_node, tallyFields_cons (by decide), tally_entity hp]
    rfl
  | typeLiteral origin members =>
    rw [encode, tally_node, tallyFields_cons (by decide), tally_encodeMembers hp]
    rfl

end Frame

/-! ## The nodes of the types in a type -/

/-- A type counts no more than the list it is in. -/
theorem tally_le_tallyTypes {ts : List TsType} {t : TsType} (h : t ∈ ts) :
    tally p (encode t) ≤ tallyTypes p ts := by
  obtain ⟨before, after, rfl⟩ := List.append_of_mem h
  rw [tallyTypes_append, tallyTypes_cons]
  omega

/-- **Each type in a type has its node** in what is written. -/
theorem mem_nodesIn_encode {t u : TsType} (h : u.Within t) : encode u ∈ nodesIn (encode t) := by
  classical
  -- the nodes that are equal to this one are counted, and there is one at least
  let p : Json → Bool := fun n => decide (n = encode u)
  have hp : OfTypes p := fun n hn => decide_eq_false fun heq => kind_encode_not_frame u (heq ▸ hn)
  suffices hpos : 0 < tally p (encode t) by
    obtain ⟨n, hn, heq⟩ := Json.exists_mem_nodesIn.1 hpos
    exact of_decide_eq_true heq ▸ hn
  induction h with
  | refl =>
    rw [tally_encode hp, if_pos (decide_eq_true rfl)]
    omega
  | part mem _ ih =>
    have hle := tally_le_tallyTypes (p := p) mem
    rw [tally_encode hp]
    omega

end Migration

end Retype
