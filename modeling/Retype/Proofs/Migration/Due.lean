import Retype.Proofs.Migration.Extent
import Retype.Proofs.Migration.Retyped
/-!
# What a walk has still to do

A walk goes into what it finds in the source and into what it has written
itself. `Due` says how far down it has to go below a value: eight steps for
each level of a part of the source, and one for each node that was written.
What was written has no rules, so the count falls by one at each of its nodes.
A type that was laid out is due as many steps as it has levels (`Laid.due`), and
its functions are fenced where it is written as they are in the type.
-/

namespace Retype

namespace Json

variable {n origin : Json} {key : String}

/-- What holds of a node holds of it when it has inherited, if it stays where a key is set
that is handed on. -/
theorem inherit_induction {P : Json → Prop} (h : P n)
    (hset : ∀ m key v, key ∈ inheritedKeys → origin.get? key = some v → P m → P (m.set key v)) :
    P (inherit origin n) := by
  rw [inherit]
  refine List.foldlRecOn (motive := P) _ _ h ?_
  intro m hm key hkey
  split
  next v hv _ => exact hset m key v hkey hv hm
  next => exact hm

/-- Positions and comments inherited leave the other keys as they are. -/
theorem get?_inherit_ne (h : key ∉ inheritedKeys) : (inherit origin n).get? key = n.get? key :=
  inherit_induction (P := fun m => m.get? key = n.get? key) rfl fun m k v hk _ hm => by
    rw [get?_set_ne (fun hsame : key = k => h (hsame ▸ hk)), hm]

/-- They leave a node's kind as it is. -/
theorem get?_type_inherit (origin n : Json) :
    (inherit origin n).get? "type" = n.get? "type" :=
  get?_inherit_ne (by decide)

end Json

namespace Migration

open TypeScript (identifier encode annotationNode)

/-- No rule applies to nodes of a kind. -/
def Ruleless (kind : String) : Prop := enterRule? kind = none ∧ leaveRule? kind = none

instance (kind : String) : Decidable (Ruleless kind) :=
  inferInstanceAs (Decidable (enterRule? kind = none ∧ leaveRule? kind = none))

/-! ## Fences -/

/-- The kinds of types that have members. -/
def memberKinds : List String := ["TSUnionType", "TSIntersectionType"]

/-- Whether a node is a function type, without parentheses. -/
def isFunctionType (n : Json) : Bool := n.hasText "type" "TSFunctionType"

/-- Whether some nodes are a function type and `undefined`, as the members of a parameter's
type that got `undefined`, or a function type, `null` and `undefined`, as those of a type
that may be null. -/
def areBareTypes : List Json → Bool
  | [first, last] => isFunctionType first && last.hasText "type" "TSUndefinedKeyword"
  | [first, second, last] => isFunctionType first && second.hasText "type" "TSNullKeyword" &&
      last.hasText "type" "TSUndefinedKeyword"
  | _ => false

/-- Whether no member of a node is a bare function, but in a union with `undefined`, or
with `null` and `undefined`, in this order. -/
def isFenced (n : Json) : Bool :=
  !n.kindIn memberKinds || (n.itemsAt "types").all (!isFunctionType ·) ||
    n.hasText "type" "TSUnionType" && areBareTypes (n.itemsAt "types")

/-- No rule applies to nodes of a kind, and they have no members. -/
def Memberless (kind : String) : Prop := Ruleless kind ∧ kind ∉ memberKinds

instance (kind : String) : Decidable (Memberless kind) :=
  inferInstanceAs (Decidable (Ruleless kind ∧ kind ∉ memberKinds))

/-- Whether a union is fenced depends on its kind and its members only. -/
theorem isFenced_congr {n n' : Json} (htype : n'.get? "type" = n.get? "type")
    (htypes : n'.get? "types" = n.get? "types") : isFenced n' = isFenced n := by
  simp only [isFenced, Json.kindIn, Json.hasText, Json.itemsAt, htype, htypes]

/-- A node of a kind without members. -/
theorem isFenced_of_kind {n : Json} {kind : String} (h : n.get? "type" = some (.str kind))
    (hkind : kind ∉ memberKinds) : isFenced n = true := by
  simp [isFenced, kindIn_of_kind h, hkind]

/-! ## Steps -/

/-- The walk below a value takes at most so many steps down. A condition holds
of the parts of the source in it; if the keys of those are distinct, so are the
keys of what was written, which is fenced. -/
inductive Due (D : Prop) (K : Json → Prop) : Nat → Json → Prop
  | source {k : Nat} {v : Json} (nesting : 8 * v.nesting + 4 ≤ k) (source : K v) : Due D K k v
  | leaf {k : Nat} {v : Json} (single : v.isNode = false) (scalar : v.items = []) : Due D K k v
  | arr {k : Nat} {vs : List Json} (items : ∀ v ∈ vs, Due D K k v) : Due D K k (.arr vs)
  | fresh {k : Nat} {l : Entries} (kind : Ruleless (Json.obj l).kind)
      (keys : D → (l.map (·.1)).Nodup) (fenced : isFenced (.obj l) = true)
      (parts : ∀ entry ∈ l, entry.1 ∉ Json.metadataKeys → Due D K k entry.2) :
      Due D K (k + 1) (.obj l)

namespace Due

variable {D : Prop} {K : Json → Prop} {k k' : Nat}

/-- What is due within a bound is due within a larger one. -/
theorem mono {v : Json} (h : Due D K k v) (hk : k ≤ k') : Due D K k' v := by
  induction h generalizing k' with
  | source nesting source => exact .source (Nat.le_trans nesting hk) source
  | leaf single scalar => exact .leaf single scalar
  | arr _ ih => exact .arr fun v hv => ih v hv hk
  | fresh kind keys fenced _ ih =>
    obtain ⟨m, rfl⟩ : ∃ m, k' = m + 1 := ⟨k' - 1, by omega⟩
    exact .fresh kind keys fenced fun entry hentry hkey =>
      ih entry hentry hkey (Nat.le_of_succ_le_succ hk)

/-- A value that is neither a list nor an object. -/
theorem scalar {v : Json} (h : v.isObject = false) (harr : v.items = []) : Due D K k v := by
  refine .leaf ?_ harr
  cases v with
  | obj l => cases h
  | _ => rfl

/-- The absent value is due at any bound. -/
theorem null : Due D K k .null := .scalar rfl rfl

/-- So is a text. -/
theorem str (s : String) : Due D K k (.str s) := .scalar rfl rfl

/-- So is a truth value. -/
theorem bool (b : Bool) : Due D K k (.bool b) := .scalar rfl rfl

end Due

/-! ## Nodes that were written -/

/-- The entries of an object; other values have none. -/
def entriesOf : Json → Entries
  | .obj l => l
  | _ => []

/-- The parts of a node below which a walk goes are due so many steps. -/
def DueParts (D : Prop) (K : Json → Prop) (k : Nat) (n : Json) : Prop :=
  ∀ entry ∈ entriesOf n, entry.1 ∉ Json.metadataKeys → Due D K k entry.2

/-- A node that was written. -/
structure Written (D : Prop) (K : Json → Prop) (k : Nat) (n : Json) : Prop where
  isNode : n.isNode = true
  kind : Ruleless n.kind
  keys : D → ((entriesOf n).map (·.1)).Nodup
  fenced : isFenced n = true
  parts : DueParts D K k n

/-- Nodes with the same type field are of one kind. -/
theorem kind_congr {n n' : Json} (h : n'.get? "type" = n.get? "type") : n'.kind = n.kind := by
  simp only [Json.kind, Json.textAt, h]

/-- Nodes with the same type field are nodes together. -/
theorem isNode_congr {n n' : Json} (h : n'.get? "type" = n.get? "type") :
    n'.isNode = n.isNode := by
  have hnode (v : Json) : v.isNode = (v.get? "type").isSome := by
    cases v with
    | obj l => exact Entries.contains_eq_isSome l "type"
    | _ => rfl
  rw [hnode, hnode, h]

/-- The inherited keys are metadata. -/
theorem mem_metadataKeys {key : String} (h : key ∈ Json.inheritedKeys) :
    key ∈ Json.metadataKeys := by
  revert key
  decide

namespace Written

variable {D : Prop} {K : Json → Prop} {k : Nat} {n : Json}

/-- What was written is due one step more than its parts. -/
theorem due (h : Written D K k n) : Due D K (k + 1) n := by
  cases n with
  | obj l => exact .fresh h.kind h.keys h.fenced h.parts
  | _ => cases h.isNode

/-- What is written within a bound is within a larger one. -/
theorem mono {k' : Nat} (h : Written D K k n) (hk : k ≤ k') : Written D K k' n :=
  ⟨h.isNode, h.kind, h.keys, h.fenced,
    fun entry hentry hkey => (h.parts entry hentry hkey).mono hk⟩

/-- An entry with a key of its own. -/
theorem set {key : String} (h : Written D K k n) (hkey : key ∉ ["type", "types"]) {v : Json}
    (hv : key ∉ Json.metadataKeys → Due D K k v) : Written D K k (n.set key v) := by
  have hget {key' : String} (hmem : key' ∈ ["type", "types"]) :
      (n.set key v).get? key' = n.get? key' :=
    Json.get?_set_ne (fun h : key' = key => hkey (h ▸ hmem)) v
  have htype := hget (show "type" ∈ ["type", "types"] by decide)
  refine ⟨(isNode_congr htype).trans h.isNode, kind_congr htype ▸ h.kind, ?_,
    (isFenced_congr htype (hget (by decide))).trans h.fenced, ?_⟩
  · cases n with
    | obj l => exact fun hD => Entries.nodup_set (h.keys hD) v
    | _ => exact h.keys
  · cases n with
    | obj l =>
      intro entry hentry hmeta
      rcases Entries.mem_set hentry with hentry | rfl
      · exact h.parts entry hentry hmeta
      · exact hv hmeta
    | _ => exact h.parts

/-- A node that was written inherits positions and comments. -/
theorem inherit (h : Written D K k n) (origin : Json) : Written D K k (Json.inherit origin n) := by
  refine Json.inherit_induction h fun m key v hkey _ hm => ?_
  refine hm.set (fun hmem => ?_) fun hmeta => absurd (mem_metadataKeys hkey) hmeta
  have hall : ∀ key ∈ Json.inheritedKeys, key ∉ ["type", "types"] := by decide
  exact hall key hkey hmem

/-- What is written stays so with the positions of its origin. -/
theorem inheritOption (h : Written D K k n) (origin : Option Json) :
    Written D K k (Json.inheritOption origin n) := by
  cases origin with
  | none => exact h
  | some origin => exact h.inherit origin

/-- A node of a kind with fields. -/
theorem node {kind : String} {fields : Entries} (h : ∀ entry ∈ fields, Due D K k entry.2)
    (hkind : Memberless kind) (hkeys : ("type" :: fields.map (·.1)).Nodup) :
    Written D K k (TypeScript.node kind fields) where
  isNode := rfl
  kind := hkind.1
  keys _ := hkeys
  fenced := isFenced_of_kind rfl hkind.2
  parts := List.forall_mem_cons.2 ⟨fun _ => .str kind, fun entry hentry _ => h entry hentry⟩

end Written

/-! ## Members that were written -/

/-- An origin that may be absent leaves the other keys as they are. -/
theorem get?_inheritOption_ne {origin : Option Json} {n : Json} {key : String}
    (h : key ∉ Json.inheritedKeys) : (Json.inheritOption origin n).get? key = n.get? key := by
  cases origin with
  | none => rfl
  | some origin => exact Json.get?_inherit_ne h

/-- It leaves the kind that was written. -/
theorem get?_type_inheritOption (origin : Option Json) (kind : String) (fields : Entries) :
    (Json.inheritOption origin (TypeScript.node kind fields)).get? "type" = some (.str kind) :=
  (get?_inheritOption_ne (by decide)).trans (get?_type_node kind fields)

/-- A written node is a function type when the type is. -/
theorem isFunctionType_encode (t : TsType) : isFunctionType (encode t) = t.isFunction := by
  rw [isFunctionType]
  cases t with
  | keyword origin word =>
    rw [encode, hasText_of_kind (get?_type_inheritOption ..)]
    cases word <;> rfl
  | _ =>
    rw [encode, hasText_of_kind (get?_type_inheritOption ..)]
    rfl

/-- A written node is a keyword when the type is that keyword. -/
theorem hasText_encode_word (t : TsType) (word : TsKeyword) :
    (encode t).hasText "type" word.kindName = t.isWord word := by
  cases t with
  | keyword origin word' =>
    rw [encode, hasText_of_kind (get?_type_inheritOption ..)]
    cases word <;> cases word' <;> rfl
  | _ =>
    rw [encode, hasText_of_kind (get?_type_inheritOption ..)]
    cases word <;> rfl

/-- The members that may stay bare are the same before and after writing. -/
theorem areBareTypes_encodeAll (ts : List TsType) :
    areBareTypes (TypeScript.encodeAll ts) = TsType.areBare ts := by
  have hnull (t : TsType) : (encode t).hasText "type" "TSNullKeyword" = t.isWord .null :=
    hasText_encode_word t .null
  have hundefined (t : TsType) :
      (encode t).hasText "type" "TSUndefinedKeyword" = t.isWord .undefined :=
    hasText_encode_word t .undefined
  rw [TypeScript.encodeAll_eq_map]
  match ts with
  | [] | [_] | _ :: _ :: _ :: _ :: _ => rfl
  | [_, _] =>
    simp only [List.map_cons, List.map_nil, areBareTypes, TsType.areBare, isFunctionType_encode,
      hundefined]
  | [_, _, _] =>
    simp only [List.map_cons, List.map_nil, areBareTypes, TsType.areBare, isFunctionType_encode,
      hnull, hundefined]

/-- A test that writing respects holds of all written members when it holds of all types. -/
theorem all_encodeAll {q : Json → Bool} {r : TsType → Bool} (h : ∀ t, q (encode t) = r t)
    (ts : List TsType) : (TypeScript.encodeAll ts).all q = ts.all r := by
  rw [TypeScript.encodeAll_eq_map, List.all_map]
  exact congrArg ts.all (funext h)

/-- Members are fenced where they are written as they are in the type. -/
theorem isFenced_members {kind : String} (hkind : kind ∈ memberKinds) (ts : List TsType) :
    isFenced (TypeScript.node kind [("types", .arr (TypeScript.encodeAll ts))]) =
      (ts.all (!·.isFunction) || kind == "TSUnionType" && TsType.areBare ts) := by
  have hnot : (TypeScript.encodeAll ts).all (!isFunctionType ·) = ts.all (!·.isFunction) :=
    all_encodeAll (fun t => congrArg (!·) (isFunctionType_encode t)) ts
  have htype := get?_type_node kind [("types", .arr (TypeScript.encodeAll ts))]
  have hitems : (TypeScript.node kind [("types", .arr (TypeScript.encodeAll ts))]).itemsAt "types" =
      TypeScript.encodeAll ts := rfl
  rw [isFenced, kindIn_of_kind htype, hasText_of_kind htype, hitems, hnot, areBareTypes_encodeAll,
    List.contains_iff_mem.2 hkind, Bool.not_true, Bool.false_or]

namespace Due

variable {D : Prop} {K : Json → Prop} {k : Nat}

/-- **A node written from parts that are due is due one above them.** -/
theorem written {kind : String} {fields : Entries} (h : ∀ entry ∈ fields, Due D K k entry.2)
    (origin : Option Json) (hkind : Memberless kind)
    (hkeys : ("type" :: fields.map (·.1)).Nodup) :
    Due D K (k + 1) (Json.inheritOption origin (TypeScript.node kind fields)) :=
  ((Written.node h hkind hkeys).inheritOption origin).due

/-- A node that comes from none. -/
theorem node {kind : String} {fields : Entries} (h : ∀ entry ∈ fields, Due D K k entry.2)
    (hkind : Memberless kind) (hkeys : ("type" :: fields.map (·.1)).Nodup) :
    Due D K (k + 1) (TypeScript.node kind fields) := .written h none hkind hkeys

/-- An identifier is due whatever its origin. -/
theorem name (text : String) (origin : Option Json) :
    Due D K (k + 1) (Json.inheritOption origin (identifier text [])) :=
  .written (List.forall_mem_singleton.2 (.str text)) origin (by decide) (by simp)

/-- An annotation is due one above its type. -/
theorem annotated {type : Json} (h : Due D K k type) : Due D K (k + 1) (annotationNode type) :=
  .node (List.forall_mem_singleton.2 h) (by decide) (by simp)

/-- A qualified name is due at its height. -/
theorem entity (e : TsEntity) : Due D K e.height (TypeScript.encodeEntity e) := by
  induction e with
  | name n => exact name n.text n.origin
  | qualified origin left right ih =>
    refine written (List.forall_mem_cons.2 ⟨ih, List.forall_mem_singleton.2 ?_⟩) origin
      (by decide) (by simp)
    exact (name (k := 0) right.text right.origin).mono (by cases left <;> exact Nat.succ_pos _)

/-- A literal is one node, or two if it is negative. -/
theorem literal (v : Json) : Due D K (k + 2) (TypeScript.literalNode v) := by
  have single (kind : String) (v : Json) (hkind : Memberless kind) (hv : v.isObject = false)
      (harr : v.items = []) : Due D K (k + 1) (TypeScript.node kind [("value", v)]) :=
    node (List.forall_mem_singleton.2 (.scalar hv harr)) hkind (by simp)
  have negated (v : Json) (hv : v.isObject = false) (harr : v.items = []) :
      Due D K (k + 2) (TypeScript.literalNode.negated v) := by
    refine node ?_ (by decide) (by simp)
    simp only [List.forall_mem_cons]
    exact ⟨.str _, .bool _, single _ v (by decide) hv harr, List.forall_mem_nil _⟩
  cases v with
  | int i =>
    rw [TypeScript.literalNode]
    split
    · exact negated _ rfl rfl
    · exact (single _ (.int i) (by decide) rfl rfl).mono (Nat.le_succ _)
  | double x =>
    rw [TypeScript.literalNode]
    split
    · exact negated _ rfl rfl
    · exact (single _ (.double x) (by decide) rfl rfl).mono (Nat.le_succ _)
  | _ => exact (single _ _ (by decide) rfl rfl).mono (Nat.le_succ _)

/-! ## Parts of types -/

/-- The nodes of some types are each due so many steps. -/
def All (D : Prop) (K : Json → Prop) (k : Nat) (ts : List TsType) : Prop :=
  ∀ t ∈ ts, Due D K k (encode t)

/-- Types that are due are written as a list that is. -/
theorem all {ts : List TsType} (h : All D K k ts) : Due D K k (.arr (TypeScript.encodeAll ts)) := by
  rw [TypeScript.encodeAll_eq_map]
  exact .arr (List.forall_mem_map.2 h)

/-- A union or an intersection of types. -/
theorem joined {kind : String} {ts : List TsType} (hkind : kind ∈ memberKinds)
    (h : All D K k ts) (origin : Option Json)
    (hfenced : (ts.all (!·.isFunction) || kind == "TSUnionType" && TsType.areBare ts) =
      true) :
    Due D K (k + 1) (Json.inheritOption origin
      (TypeScript.node kind [("types", .arr (TypeScript.encodeAll ts))])) := by
  have hruleless : ∀ kind ∈ memberKinds, Ruleless kind := by decide
  have hnode : Written D K k
      (TypeScript.node kind [("types", .arr (TypeScript.encodeAll ts))]) := by
    have hkeys : ["type", "types"].Nodup := by decide
    refine ⟨rfl, hruleless kind hkind, fun _ => hkeys, ?_, ?_⟩
    · rw [isFenced_members hkind, hfenced]
    · refine List.forall_mem_cons.2 ⟨fun _ => .str kind, List.forall_mem_singleton.2 fun _ => ?_⟩
      exact all h
  exact (hnode.inheritOption origin).due

/-- A type that may be absent is written as a value that is due. -/
theorem option {t : Option TsType} (h : All D K k t.toList) :
    Due D K k (TypeScript.encodeOption t) := by
  cases t with
  | none => exact .null
  | some t => exact h t List.mem_cons_self

/-- Type arguments are written as their types are. -/
theorem writtenArgs {as : TsArgs TsType} (h : All D K k as.params) :
    Written D K k (TypeScript.encodeArgs as) := by
  obtain ⟨origin, params⟩ := as
  exact (Written.node (List.forall_mem_singleton.2 (all h)) (by decide)
    (by simp)).inheritOption origin

/-- Type arguments that may be absent are due one above their types. -/
theorem argsOption {as : Option (TsArgs TsType)} (h : All D K k ((as.map (·.params)).getD [])) :
    Due D K (k + 1) (TypeScript.encodeArgsOption as) := by
  cases as with
  | none => exact .null
  | some as => exact (writtenArgs h).due

/-- Each type parameter is one node around its types. -/
theorem typeParamList {params : List (TsTypeParam TsType)}
    (h : All D K k (params.flatMap fun p => p.bound.toList ++ p.default.toList)) :
    ∀ v ∈ TypeScript.encodeTypeParamList params, Due D K (k + 1) v := by
  induction params with
  | nil => exact List.forall_mem_nil _
  | cons p rest ih =>
    obtain ⟨origin, name, bound, default⟩ := p
    simp only [All, List.flatMap_cons, List.forall_mem_append] at h
    rw [TypeScript.encodeTypeParamList, List.forall_mem_cons]
    refine ⟨written ?_ origin (by decide) (by simp), ih h.2⟩
    simp only [List.forall_mem_cons]
    exact ⟨.str name, option h.1.1, option h.1.2, List.forall_mem_nil _⟩

/-- Type parameters are written one above their bounds and defaults. -/
theorem writtenTypeParams {params : TsTypeParams TsType}
    (h : All D K k params.types) : Written D K (k + 1) (TypeScript.encodeTypeParams params) := by
  obtain ⟨origin, params⟩ := params
  exact (Written.node (List.forall_mem_singleton.2 (.arr (typeParamList h))) (by decide)
    (by simp)).inheritOption origin

/-- Type parameters that may be absent are due two above them. -/
theorem typeParamsOption {params : Option (TsTypeParams TsType)}
    (h : All D K k ((params.map (·.types)).getD [])) :
    Due D K (k + 2) (TypeScript.encodeTypeParamsOption params) := by
  cases params with
  | none => exact .null
  | some params => exact (writtenTypeParams h).due

/-- Each parameter is two nodes around its type: its own and the annotation. -/
theorem params {ps : List (TsParam TsType)} (h : All D K k (ps.map (·.type))) :
    ∀ v ∈ TypeScript.encodeParams ps, Due D K (k + 2) v := by
  induction ps with
  | nil => exact List.forall_mem_nil _
  | cons p rest ih =>
    obtain ⟨origin, name, type, optional, isRest⟩ := p
    rw [All, List.map_cons, List.forall_mem_cons] at h
    rw [TypeScript.encodeParams, List.forall_mem_cons]
    refine ⟨?_, ih h.2⟩
    have htype : Due D K (k + 1) (annotationNode (encode type)) := annotated h.1
    cases isRest with
    | true =>
      refine written ?_ origin (by decide) (by simp)
      simp only [List.forall_mem_cons]
      exact ⟨(Due.name name none).mono (Nat.le_add_left 1 k), htype, List.forall_mem_nil _⟩
    | false =>
      cases optional with
      | true =>
        refine written ?_ origin (by decide) (by simp)
        simp only [if_true, List.forall_mem_cons]
        exact ⟨.str name, htype, .bool true, List.forall_mem_nil _⟩
      | false =>
        refine written ?_ origin (by decide) (by simp)
        simp only [List.forall_mem_cons]
        exact ⟨.str name, htype, List.forall_mem_nil _⟩

/-- The fields of a signature. -/
theorem signature {s : TsSignature TsType} (h : All D K k s.types) :
    Due D K (k + 2) (TypeScript.encodeTypeParamsOption s.typeParams) ∧
      Due D K (k + 2) (.arr (TypeScript.encodeParams s.params)) ∧
      Due D K (k + 2) (annotationNode (encode s.result)) := by
  simp only [All, TsSignature.types, List.forall_mem_append, List.forall_mem_cons] at h
  obtain ⟨hparams, hresult, htypeParams⟩ := h
  exact ⟨typeParamsOption htypeParams, .arr (params hparams),
    (annotated hresult).mono (Nat.le_succ _)⟩

/-- The marker of a member that is read-only. -/
theorem readonly (readonly : Bool) :
    ∀ entry ∈ if readonly then [("readonly", Json.bool true)] else [], Due D K k entry.2 := by
  cases readonly with
  | true => exact List.forall_mem_singleton.2 (.bool true)
  | false => exact List.forall_mem_nil _

/-- A member is due three above its types and its key. -/
theorem member {m : TsMember TsType} (h : All D K k m.types)
    (hkey : ∀ key, m.key? = some key → Due D K k key) :
    Due D K (k + 3) (TypeScript.encodeMember m) := by
  cases m with
  | property origin key type computed optional readonly =>
    have htype : Due D K (k + 2) (annotationNode (encode type)) :=
      (annotated (h type List.mem_cons_self)).mono (Nat.le_succ _)
    refine written ?_ origin (by decide) ?_
    · simp only [List.forall_mem_append, List.forall_mem_cons]
      exact ⟨⟨(hkey key rfl).mono (Nat.le_add_right k 2), .bool _, .bool _, htype,
        List.forall_mem_nil _⟩,
        Due.readonly readonly⟩
    · cases readonly <;> simp
  | method origin key s computed optional =>
    obtain ⟨params, result, typeParams⟩ := s
    obtain ⟨htypeParams, hparams, hresult⟩ := signature h
    refine written ?_ origin (by decide) (by simp)
    simp only [List.forall_mem_cons]
    exact ⟨(hkey key rfl).mono (Nat.le_add_right k 2), .bool _, .bool _, .str _, htypeParams,
      hparams, hresult, List.forall_mem_nil _⟩
  | index origin name key value readonly =>
    simp only [All, TsMember.types, List.forall_mem_cons] at h
    have hvalue : Due D K (k + 2) (annotationNode (encode value)) :=
      (annotated h.2.1).mono (Nat.le_succ _)
    refine written ?_ origin (by decide) ?_
    · simp only [List.forall_mem_append, List.forall_mem_cons]
      refine ⟨⟨.arr (List.forall_mem_singleton.2 (node ?_ (by decide) (by simp))), hvalue,
        List.forall_mem_nil _⟩, Due.readonly readonly⟩
      simp only [List.forall_mem_cons]
      exact ⟨.str name, annotated h.1, List.forall_mem_nil _⟩
    · cases readonly <;> simp

/-- The written members of an object are due when each one is. -/
theorem members {ms : List (TsMember TsType)}
    (h : ∀ m ∈ ms, Due D K k (TypeScript.encodeMember m)) :
    ∀ v ∈ TypeScript.encodeMembers ms, Due D K k v := by
  induction ms with
  | nil => exact List.forall_mem_nil _
  | cons m rest ih =>
    rw [TypeScript.encodeMembers, List.forall_mem_cons]
    rw [List.forall_mem_cons] at h
    exact ⟨h.1, ih h.2⟩

/-- The members of a literal type. -/
theorem literalMembers {origin : Option Json} {ms : List (TsMember TsType)}
    (h : All D K k (TsType.typeLiteral origin ms).parts)
    (hkeys : ∀ key ∈ (TsType.typeLiteral origin ms).keys, 8 * key.nesting + 4 ≤ k ∧ K key) :
    ∀ m ∈ ms, Due D K (k + 3) (TypeScript.encodeMember m) := by
  intro m hm
  refine member (fun u hu => h u (List.mem_flatMap.2 ⟨m, hm, hu⟩)) fun key hkey => ?_
  have hkey := hkeys key (List.mem_filterMap.2 ⟨m, hm, hkey⟩)
  exact .source hkey.1 hkey.2

end Due

/-! ## Types -/

variable {D : Prop} {K : Json → Prop}

/-- **A type that was laid out is due as many steps as it has levels.** -/
theorem Laid.due {k : Nat} {t : TsType} (h : Laid K k t) : Due D K k (encode t) := by
  induction h with
  | @intro k t _ hkeys hname hfenced ih =>
    replace ih : Due.All D K k t.parts := ih
    have single (u : TsType) (hu : u ∈ t.parts) : Due D K (k + 3) (encode u) :=
      (ih u hu).mono (Nat.le_add_right k 3)
    cases t with
    | keyword origin word =>
      exact .written (List.forall_mem_nil _) origin (by cases word <;> decide) (by simp)
    | this origin => exact .written (List.forall_mem_nil _) origin (by decide) (by simp)
    | literal origin v =>
      exact .written (List.forall_mem_singleton.2 (.literal v)) origin (by decide) (by simp)
    | array origin t =>
      exact .written (List.forall_mem_singleton.2 (single t List.mem_cons_self)) origin
        (by decide) (by simp)
    | tuple origin ts =>
      exact .written (List.forall_mem_singleton.2 (.all single)) origin (by decide) (by simp)
    | union origin ts => exact .joined (by decide) single origin hfenced
    | intersection origin ts =>
      exact .joined (by decide) single origin (Bool.or_eq_true_iff.2 (.inl hfenced))
    | parenthesized origin t =>
      exact .written (List.forall_mem_singleton.2 (single t List.mem_cons_self)) origin
        (by decide) (by simp)
    | function origin s =>
      obtain ⟨params, result, typeParams⟩ := s
      obtain ⟨htypeParams, hparams, hresult⟩ := Due.signature ih
      refine .written ?_ origin (by decide) (by simp)
      simp only [List.forall_mem_cons]
      exact ⟨htypeParams.mono (Nat.le_succ _), hparams.mono (Nat.le_succ _),
        hresult.mono (Nat.le_succ _), List.forall_mem_nil _⟩
    | reference origin name args =>
      refine .written ?_ origin (by decide) (by simp)
      simp only [List.forall_mem_cons]
      exact ⟨(Due.entity name).mono (hname name rfl),
        (Due.argsOption ih).mono (Nat.le_add_right _ 2), List.forall_mem_nil _⟩
    | operator origin word t =>
      refine .written ?_ origin (by decide) (by simp)
      simp only [List.forall_mem_cons]
      exact ⟨.str word, single t List.mem_cons_self, List.forall_mem_nil _⟩
    | indexedAccess origin object index =>
      refine .written ?_ origin (by decide) (by simp)
      simp only [List.forall_mem_cons]
      exact ⟨single object List.mem_cons_self,
        single index (List.mem_cons_of_mem _ List.mem_cons_self), List.forall_mem_nil _⟩
    | query origin name =>
      exact .written (List.forall_mem_singleton.2 ((Due.entity name).mono (hname name rfl))) origin
        (by decide) (by simp)
    | typeLiteral origin members =>
      exact .written (List.forall_mem_singleton.2 (.arr (Due.members
        (Due.literalMembers ih hkeys)))) origin (by decide) (by simp)

/-- The members of a literal type, each by itself. -/
theorem Laid.members_due {k : Nat} {origin : Option Json} {members : List (TsMember TsType)}
    (h : Laid K k (.typeLiteral origin members)) :
    ∀ m ∈ members, Due D K k (TypeScript.encodeMember m) := by
  cases h with
  | intro hparts hkeys _ _ =>
    intro m hm
    exact (Due.literalMembers (fun u hu => (hparts u hu).due) hkeys m hm).mono (Nat.le_succ _)

end Migration

end Retype
