import Retype.Json.Route
import Retype.Proofs.Migration.Positions
import Retype.Proofs.Migration.Runtime
import Retype.Proofs.Migration.Sources
/-!
# Annotations without positions

The positions and comments in an inferred type belong to another text. Dropping
them takes the keys for them out of a value at every depth, and nothing else
(`part?_stripPositions`, `surface_stripPositions`). What is written for a type
inherits from nodes of the type only, and takes the keys of properties over from
it; so nothing in the annotation has a place either
(`annotationInferred_placeless`).
-/

namespace Retype

namespace Json

/-- Whether a value has no key for a position or for comments. -/
def hasNoPlace (v : Json) : Bool := inheritedKeys.all fun key => (v.get? key).isNone

/-- Nothing in a value has a key for a position or for comments, at any depth. -/
def Placeless (v : Json) : Prop := v.everywhere hasNoPlace = true

instance (v : Json) : Decidable v.Placeless :=
  inferInstanceAs (Decidable (v.everywhere hasNoPlace = true))

/-- What shows of a value without going into it. -/
inductive Surface where
  | plain (v : Json)
  | list (length : Nat)
  | object (keys : List String)

def surface : Json → Surface
  | arr items => .list items.length
  | obj entries => .object (entries.map (·.1))
  | v => .plain v

/-- A surface without the keys for positions and comments. -/
def Surface.unplaced : Surface → Surface
  | object keys => object (keys.filter (!inheritedKeys.contains ·))
  | s => s

/-- Whether a step leads to a position or to comments. -/
def Step.toPlace : Step → Bool
  | key name => inheritedKeys.contains name
  | item _ => false

variable {v : Json}

/-! ## Dropping positions -/

/-- Stripping keeps the other keys, in order. -/
theorem map_fst_stripEntries (l : Entries) :
    (stripEntries l).map (·.1) = (l.map (·.1)).filter (!inheritedKeys.contains ·) := by
  induction l with
  | nil => rfl
  | cons first rest ih =>
    obtain ⟨key, v⟩ := first
    rw [stripEntries]
    split <;> simp_all

/-- What a value shows is unchanged, places apart. -/
theorem surface_stripPositions (v : Json) : v.stripPositions.surface = v.surface.unplaced := by
  cases v with
  | arr items => simp [stripPositions, Migration.stripItems_eq_map, surface, Surface.unplaced]
  | obj l => exact congrArg Surface.object (map_fst_stripEntries l)
  | _ => rfl

/-- A stripped value has no place. -/
theorem get?_stripPositions_place {key : String} (h : key ∈ inheritedKeys) (v : Json) :
    v.stripPositions.get? key = none := by
  cases v with
  | obj l =>
    refine Option.eq_none_iff_forall_ne_some.2 fun w hw => ?_
    have hmem : key ∈ (stripEntries l).map (·.1) :=
      List.mem_map_of_mem (f := (·.1)) (Entries.mem_of_get? hw)
    simp [map_fst_stripEntries, h] at hmem
  | _ => rfl

/-- A step into a stripped value leads to the stripped part, unless it leads to a place. -/
theorem child?_stripPositions (v : Json) (step : Step) :
    v.stripPositions.child? step =
      if step.toPlace then none else (v.child? step).map stripPositions := by
  cases step with
  | key name =>
    have hget (w : Json) : w.child? (.key name) = w.get? name := by cases w <;> rfl
    rw [hget, hget, Step.toPlace]
    split
    next h => exact get?_stripPositions_place (List.contains_iff_mem.1 h) v
    next h => exact Migration.get?_stripPositions (fun hmem => h (List.contains_iff_mem.2 hmem)) v
  | item index =>
    cases v with
    | arr items => simp [stripPositions, Migration.stripItems_eq_map, child?, Step.toPlace]
    | _ => rfl

/-- **Dropping positions keeps every part at its place**, without its positions,
unless it is part of a position or a comment. -/
theorem part?_stripPositions (v : Json) (route : Route) :
    v.stripPositions.part? route =
      if route.any Step.toPlace then none else (v.part? route).map stripPositions := by
  induction route generalizing v with
  | nil => rfl
  | cons step route ih =>
    rw [part?, part?, child?_stripPositions, List.any_cons]
    cases step.toPlace with
    | true => rfl
    | false => cases v.child? step <;> simp [ih]

/-! ## Values without positions -/

/-- An object has no place when none of its keys is one. -/
theorem hasNoPlace_obj_iff {l : Entries} :
    hasNoPlace (obj l) = true ↔ ∀ key ∈ l.map (·.1), key ∉ inheritedKeys := by
  simp only [hasNoPlace, List.all_eq_true, Option.isNone_iff_eq_none]
  constructor
  · intro h key hkey hplace
    exact Entries.not_mem_of_get?_none (h key hplace) hkey
  · intro h key hplace
    refine Option.eq_none_iff_forall_ne_some.2 fun w hw => ?_
    exact h key (List.mem_map_of_mem (f := (·.1)) (Entries.mem_of_get? hw)) hplace

/-- A stripped value has no place of its own. -/
theorem hasNoPlace_stripPositions (v : Json) : v.stripPositions.hasNoPlace = true :=
  List.all_eq_true.2 fun _ hkey => Option.isNone_iff_eq_none.2 (get?_stripPositions_place hkey v)

/-- What stands in a placeless value is placeless. -/
theorem hereditary_placeless : Flow.Hereditary Placeless := fun hwithin h => hwithin.everywhere h

namespace Placeless

/-- **A stripped value is placeless at every depth.** -/
theorem stripPositions (v : Json) : v.stripPositions.Placeless :=
  Migration.everywhere_stripPositions (p := fun _ => true)
    (fun w _ => hasNoPlace_stripPositions w) (everywhere_of_forall (fun _ => rfl) v)

/-- The absent value is placeless. -/
theorem null : Placeless .null := rfl

/-- So is a text. -/
theorem str (s : String) : Placeless (.str s) := rfl

/-- So is a truth value. -/
theorem bool (b : Bool) : Placeless (.bool b) := rfl

/-- So is a list of placeless values. -/
theorem arr {vs : List Json} (h : ∀ v ∈ vs, v.Placeless) : Placeless (.arr vs) :=
  everywhere_arr_iff.2 ⟨rfl, h⟩

/-- A node with fields that are neither positions nor comments. -/
theorem node {kind : String} {fields : Entries} (h : ∀ entry ∈ fields, entry.2.Placeless)
    (hkeys : ∀ key ∈ fields.map (·.1), key ∉ inheritedKeys) :
    Placeless (TypeScript.node kind fields) := by
  have htype : "type" ∉ inheritedKeys := by decide
  exact everywhere_obj_iff.2 ⟨hasNoPlace_obj_iff.2 (List.forall_mem_cons.2 ⟨htype, hkeys⟩),
    List.forall_mem_cons.2 ⟨str kind, h⟩⟩

/-- There is nothing to inherit from a node without positions. -/
theorem inherit_eq {origin : Json} (h : origin.Placeless) (target : Json) :
    inherit origin target = target := by
  refine inherit_induction (P := (· = target)) rfl fun _ key w hkey hget _ => ?_
  have hnone := List.all_eq_true.1 (everywhere_self h) key hkey
  rw [hget] at hnone
  cases hnone

/-- A node that was written, coming from one without positions. -/
theorem written {kind : String} {fields : Entries} (h : ∀ entry ∈ fields, entry.2.Placeless)
    {origin : Option Json} (horigin : ∀ n ∈ origin, n.Placeless)
    (hkeys : ∀ key ∈ fields.map (·.1), key ∉ inheritedKeys) :
    Placeless (inheritOption origin (TypeScript.node kind fields)) := by
  cases origin with
  | none => exact node h hkeys
  | some n =>
    rw [inheritOption, inherit_eq (horigin n rfl)]
    exact node h hkeys

end Placeless

end Json

namespace Migration

open Json (Placeless inheritedKeys)
open TypeScript (annotationNode encode identifier node)

/-! ## What is written for a type -/

namespace Placeless

/-- So is the annotation of a placeless type. -/
theorem annotation {v : Json} (h : v.Placeless) : (annotationNode v).Placeless :=
  .node (List.forall_mem_singleton.2 h) (by simp [inheritedKeys])

/-- A literal is written without a place. -/
theorem literal (v : Json) : (TypeScript.literalNode v).Placeless := by
  have single (kind : String) (v : Json) (hv : v.Placeless) :
      (TypeScript.node kind [("value", v)]).Placeless :=
    .node (List.forall_mem_singleton.2 hv) (by simp [inheritedKeys])
  have negated (v : Json) (hv : v.Placeless) : (TypeScript.literalNode.negated v).Placeless := by
    refine .node ?_ (by simp [inheritedKeys])
    simp only [List.forall_mem_cons]
    exact ⟨.str _, .bool _, single _ v hv, List.forall_mem_nil _⟩
  cases v with
  | int i =>
    rw [TypeScript.literalNode]
    split
    · exact negated _ rfl
    · exact single _ _ rfl
  | double x =>
    rw [TypeScript.literalNode]
    split
    · exact negated _ rfl
    · exact single _ _ rfl
  | _ => exact single _ _ rfl

/-- A name is placeless when its origin is. -/
theorem name {n : TsName} (h : ∀ m ∈ n.origin, m.Placeless) :
    (TypeScript.encodeName n).Placeless :=
  .written (List.forall_mem_singleton.2 (.str _)) h (by simp [inheritedKeys])

/-- So is a qualified name. -/
theorem entity {e : TsEntity} (h : ∀ n ∈ e.nodes, n.Placeless) :
    (TypeScript.encodeEntity e).Placeless := by
  induction e with
  | name n => exact name (by simpa [TsEntity.nodes] using h)
  | qualified origin left right ih =>
    simp only [TsEntity.nodes, List.forall_mem_append, Option.mem_toList] at h
    refine .written ?_ h.1 (by simp [inheritedKeys])
    exact List.forall_mem_cons.2 ⟨ih h.2.2, List.forall_mem_singleton.2 (name h.2.1)⟩

/-- The nodes of some types have no positions. -/
def All (ts : List TsType) : Prop := ∀ t ∈ ts, (encode t).Placeless

/-- Placeless types are written as a placeless list. -/
theorem all {ts : List TsType} (h : All ts) : Json.Placeless (.arr (TypeScript.encodeAll ts)) := by
  rw [TypeScript.encodeAll_eq_map]
  exact .arr (List.forall_mem_map.2 h)

/-- So is a type that may be absent. -/
theorem option {t : Option TsType} (h : All t.toList) : (TypeScript.encodeOption t).Placeless := by
  cases t with
  | none => exact .null
  | some t => exact h t List.mem_cons_self

/-- So are type arguments that may be absent. -/
theorem argsOption {as : Option (TsArgs TsType)}
    (horigin : ∀ n ∈ (as.bind (·.origin)).toList, n.Placeless)
    (h : All ((as.map (·.params)).getD [])) : (TypeScript.encodeArgsOption as).Placeless := by
  match as with
  | none => exact .null
  | some ⟨origin, params⟩ =>
    exact .written (List.forall_mem_singleton.2 (all h)) (by simpa using horigin)
      (by simp [inheritedKeys])

/-- So are type parameters. -/
theorem typeParamList {params : List (TsTypeParam TsType)}
    (horigin : ∀ n ∈ params.filterMap (·.origin), n.Placeless)
    (h : All (params.flatMap fun p => p.bound.toList ++ p.default.toList)) :
    ∀ v ∈ TypeScript.encodeTypeParamList params, v.Placeless := by
  rw [List.forall_mem_filterMap] at horigin
  induction params with
  | nil => exact nofun
  | cons p rest ih =>
    obtain ⟨origin, name, bound, default⟩ := p
    simp only [All, List.flatMap_cons, List.forall_mem_append] at h
    rw [List.forall_mem_cons] at horigin
    rw [TypeScript.encodeTypeParamList, List.forall_mem_cons]
    refine ⟨.written ?_ horigin.1 (by simp [inheritedKeys]), ih horigin.2 h.2⟩
    simp only [List.forall_mem_cons]
    exact ⟨.str name, option h.1.1, option h.1.2, List.forall_mem_nil _⟩

/-- So are type parameters that may be absent. -/
theorem typeParamsOption {params : Option (TsTypeParams TsType)}
    (hnodes : ∀ n ∈ (params.map (·.nodes)).getD [], n.Placeless)
    (h : All ((params.map (·.types)).getD [])) :
    (TypeScript.encodeTypeParamsOption params).Placeless := by
  match params with
  | none => exact .null
  | some ⟨origin, params⟩ =>
    obtain ⟨horigin, hparams⟩ := List.forall_mem_append.1 hnodes
    exact .written (List.forall_mem_singleton.2 (.arr (typeParamList hparams h)))
      (by simpa using horigin) (by simp [inheritedKeys])

/-- So is a parameter. -/
theorem param {origin : Option Json} (horigin : ∀ n ∈ origin, n.Placeless) {type : TsType}
    (h : (encode type).Placeless) (name : String) (optional rest : Bool) :
    ∀ v ∈ TypeScript.encodeParams [⟨origin, name, type, optional, rest⟩], v.Placeless := by
  have htype := annotation h
  refine List.forall_mem_singleton.2 ?_
  cases rest with
  | true =>
    refine .written ?_ horigin (by simp [inheritedKeys])
    simp only [List.forall_mem_cons]
    exact ⟨.node (List.forall_mem_singleton.2 (.str name)) (by simp [inheritedKeys]), htype,
      List.forall_mem_nil _⟩
  | false =>
    cases optional with
    | true =>
      refine .written ?_ horigin (by simp [inheritedKeys])
      simp only [if_true, List.forall_mem_cons]
      exact ⟨.str name, htype, .bool true, List.forall_mem_nil _⟩
    | false =>
      refine .written ?_ horigin (by simp [inheritedKeys])
      simp only [List.forall_mem_cons]
      exact ⟨.str name, htype, List.forall_mem_nil _⟩

/-- So are parameters. -/
theorem params {ps : List (TsParam TsType)} (horigin : ∀ n ∈ ps.filterMap (·.origin), n.Placeless)
    (h : All (ps.map (·.type))) : ∀ v ∈ TypeScript.encodeParams ps, v.Placeless := by
  rw [List.forall_mem_filterMap] at horigin
  induction ps with
  | nil => exact nofun
  | cons p rest ih =>
    obtain ⟨origin, name, type, optional, isRest⟩ := p
    rw [All, List.map_cons, List.forall_mem_cons] at h
    rw [List.forall_mem_cons] at horigin
    rw [TypeScript.encodeParams, List.forall_mem_cons]
    refine ⟨List.forall_mem_singleton.1 (param horigin.1 h.1 name optional isRest), ?_⟩
    exact ih horigin.2 h.2

/-- The fields of a signature. -/
theorem signature {s : TsSignature TsType} (hnodes : ∀ n ∈ s.nodes, n.Placeless)
    (h : All s.types) : (TypeScript.encodeTypeParamsOption s.typeParams).Placeless ∧
      Json.Placeless (.arr (TypeScript.encodeParams s.params)) ∧
      (annotationNode (encode s.result)).Placeless := by
  obtain ⟨hparamNodes, htypeNodes⟩ := List.forall_mem_append.1 hnodes
  simp only [All, TsSignature.types, List.forall_mem_append, List.forall_mem_cons] at h
  obtain ⟨hparams, hresult, htypeParams⟩ := h
  exact ⟨typeParamsOption htypeNodes htypeParams, .arr (params hparamNodes hparams),
    annotation hresult⟩

/-- So is an object's member. -/
theorem member {m : TsMember TsType} (hnodes : ∀ n ∈ m.nodes, n.Placeless) (h : All m.types) :
    (TypeScript.encodeMember m).Placeless := by
  have hreadonly (readonly : Bool) :
      ∀ entry ∈ if readonly then [("readonly", Json.bool true)] else [], entry.2.Placeless := by
    cases readonly with
    | true => exact List.forall_mem_singleton.2 (.bool true)
    | false => exact nofun
  cases m with
  | property origin key type computed optional readonly =>
    simp only [TsMember.nodes, List.forall_mem_append, List.forall_mem_singleton,
      Option.mem_toList] at hnodes
    refine .written ?_ hnodes.1 (by cases readonly <;> simp [inheritedKeys])
    simp only [List.forall_mem_append, List.forall_mem_cons]
    exact ⟨⟨hnodes.2, .bool _, .bool _, annotation (h type List.mem_cons_self),
      List.forall_mem_nil _⟩, hreadonly readonly⟩
  | method origin key s computed optional =>
    obtain ⟨params, result, typeParams⟩ := s
    simp only [TsMember.nodes, List.forall_mem_append, List.forall_mem_cons,
      Option.mem_toList] at hnodes
    obtain ⟨horigin, hkey, hsignature⟩ := hnodes
    obtain ⟨htypeParams, hparams, hresult⟩ := signature hsignature h
    refine .written ?_ horigin (by simp [inheritedKeys])
    simp only [List.forall_mem_cons]
    exact ⟨hkey, .bool _, .bool _, .str _, htypeParams, hparams, hresult, List.forall_mem_nil _⟩
  | index origin name key value readonly =>
    simp only [All, TsMember.types, List.forall_mem_cons] at h
    refine .written ?_ (by simpa [TsMember.nodes] using hnodes)
      (by cases readonly <;> simp [inheritedKeys])
    simp only [List.forall_mem_append, List.forall_mem_cons]
    refine ⟨⟨.arr (List.forall_mem_singleton.2 (.node ?_ (by simp [inheritedKeys]))),
      annotation h.2.1, List.forall_mem_nil _⟩, hreadonly readonly⟩
    simp only [List.forall_mem_cons]
    exact ⟨.str name, annotation h.1, List.forall_mem_nil _⟩

/-- So are an object's members. -/
theorem members {ms : List (TsMember TsType)}
    (h : ∀ m ∈ ms, (TypeScript.encodeMember m).Placeless) :
    ∀ v ∈ TypeScript.encodeMembers ms, v.Placeless := by
  induction ms with
  | nil => exact nofun
  | cons m rest ih =>
    rw [List.forall_mem_cons] at h
    rw [TypeScript.encodeMembers, List.forall_mem_cons]
    exact ⟨h.1, ih h.2⟩

end Placeless

/-- **What comes from nodes without positions is written without them.** -/
theorem Stems.placeless {t : TsType} (h : Stems Json.Placeless t) : (encode t).Placeless := by
  -- no field of any kind of type has the key of a position; what is in the fields comes
  -- from the nodes in the type, or from the types in it
  induction h with
  | @intro t horigin hsources _ ih =>
    cases t with
    | keyword origin word => exact .written (List.forall_mem_nil _) horigin (by simp)
    | this origin => exact .written (List.forall_mem_nil _) horigin (by simp)
    | literal origin v =>
      exact .written (List.forall_mem_singleton.2 (Placeless.literal v)) horigin
        (by simp [inheritedKeys])
    | array origin t =>
      exact .written (List.forall_mem_singleton.2 (ih t List.mem_cons_self)) horigin
        (by simp [inheritedKeys])
    | tuple origin ts =>
      exact .written (List.forall_mem_singleton.2 (Placeless.all ih)) horigin
        (by simp [inheritedKeys])
    | union origin ts =>
      exact .written (List.forall_mem_singleton.2 (Placeless.all ih)) horigin
        (by simp [inheritedKeys])
    | intersection origin ts =>
      exact .written (List.forall_mem_singleton.2 (Placeless.all ih)) horigin
        (by simp [inheritedKeys])
    | parenthesized origin t =>
      exact .written (List.forall_mem_singleton.2 (ih t List.mem_cons_self)) horigin
        (by simp [inheritedKeys])
    | function origin s =>
      obtain ⟨params, result, typeParams⟩ := s
      obtain ⟨htypeParams, hparams, hresult⟩ := Placeless.signature hsources ih
      refine .written ?_ horigin (by simp [inheritedKeys])
      simp only [List.forall_mem_cons]
      exact ⟨htypeParams, hparams, hresult, List.forall_mem_nil _⟩
    | reference origin name args =>
      obtain ⟨hname, hargs⟩ := List.forall_mem_append.1 hsources
      refine .written ?_ horigin (by simp [inheritedKeys])
      simp only [List.forall_mem_cons]
      exact ⟨Placeless.entity hname, Placeless.argsOption hargs ih, List.forall_mem_nil _⟩
    | operator origin word t =>
      refine .written ?_ horigin (by simp [inheritedKeys])
      simp only [List.forall_mem_cons]
      exact ⟨.str word, ih t List.mem_cons_self, List.forall_mem_nil _⟩
    | indexedAccess origin object index =>
      refine .written ?_ horigin (by simp [inheritedKeys])
      simp only [List.forall_mem_cons]
      exact ⟨ih object List.mem_cons_self,
        ih index (List.mem_cons_of_mem _ List.mem_cons_self), List.forall_mem_nil _⟩
    | query origin name =>
      exact .written (List.forall_mem_singleton.2 (Placeless.entity hsources)) horigin
        (by simp [inheritedKeys])
    | typeLiteral origin members =>
      refine .written (List.forall_mem_singleton.2 (.arr (Placeless.members fun m hm => ?_)))
        horigin (by simp [inheritedKeys])
      exact Placeless.member (fun n hn => hsources n (List.mem_flatMap.2 ⟨m, hm, hn⟩))
        fun u hu => ih u (List.mem_flatMap.2 ⟨m, hm, hu⟩)

/-! ## Annotations -/

variable {o : FileOptions} {location : Location}

/-- What is written for an inferred type has no positions. -/
theorem annotationInferred_yields_placeless {inferred : Option Json} :
    (annotationInferred o location inferred).Yields fun a =>
      ∀ annotation, a = some annotation → annotation.Placeless := by
  have hgiven (t : TsType) (h : Stems Json.Placeless t) :
      (annotationOf t).Yields fun a =>
        ∀ annotation, a = some annotation → annotation.Placeless := by
    have halias : inferredAny.Yields (Stems Json.Placeless) :=
      anyAlias_stems .inferred ArgsStem.absent
    rw [annotationOf]
    split
    · refine .bind (halias.mono fun u hu => .pure ?_)
      rintro _ ⟨⟩
      exact Placeless.annotation hu.placeless
    · refine .bind (.pure (.pure ?_))
      rintro _ ⟨⟩
      exact Placeless.annotation h.placeless
  refine annotationInferred_yields fun type _ => ?_
  refine .ite (fun _ => .pure (hgiven _ (.word .any))) fun _ => ?_
  have hdrawn := Flow.decodeType_drawn o.path Json.hereditary_placeless type.stripPositions
    (.stripPositions type)
  exact .bind (.ofResult (hdrawn.mono fun t ht => (migrate_stems o.types ht).mono hgiven))

/-- **No positions of another text.** Of a type that was inferred, dropping
positions and comments leaves nothing at any depth that has a key for them; a part is
there exactly if no step to it is to a position or a comment, and shows what it
showed, except for such keys: the same plain value, as many items, the other
keys in their order. And whatever annotation is written for the type, nothing in it
has such a key. -/
theorem annotationInferred_placeless (o : FileOptions) (location : Location) (type : Json) :
    type.stripPositions.Placeless ∧
    (∀ route, (type.stripPositions.part? route).map Json.surface =
      if route.any Json.Step.toPlace then none
      else (type.part? route).map fun part => part.surface.unplaced) ∧
    ∀ annotation, (annotationInferred o location (some type)).result = .ok (some annotation) →
      annotation.Placeless := by
  refine ⟨.stripPositions type, fun route => ?_, fun annotation h => ?_⟩
  · rw [Json.part?_stripPositions]
    split
    · rfl
    · rw [Option.map_map]
      exact congrArg (Option.map · _) (funext Json.surface_stripPositions)
  · exact annotationInferred_yields_placeless _ h annotation rfl

/-- `{ a: string }`, as a type that was inferred, with positions and a comment. -/
def placedObject : Json :=
  node "ObjectTypeAnnotation" [("start", .int 0), ("end", .int 13),
    ("properties", .arr [node "ObjectTypeProperty" [("start", .int 2),
      ("key", identifier "a" [("start", .int 2), ("range", .arr [.int 2, .int 3]),
        ("leadingComments", .arr [node "CommentBlock" [("value", .str "")]])]),
      ("value", node "StringTypeAnnotation" [("start", .int 5)]), ("kind", .str "init"),
      ("static", .bool false), ("optional", .bool false), ("method", .bool false),
      ("proto", .bool false), ("variance", .null)]]),
    ("indexers", .arr []), ("callProperties", .arr []), ("internalSlots", .arr []),
    ("exact", .bool false), ("inexact", .bool false)]

/-- An annotation is written for an object type, and the key in it has no position. -/
theorem annotationInferred_placeless_placedObject : ¬ placedObject.Placeless ∧
    ∃ annotation,
      (annotationInferred inferring default (some placedObject)).result = .ok (some annotation) ∧
        annotation.Placeless := by
  let inferred := (annotationInferred inferring default (some placedObject)).result
  have hsome : inferred.toOption.join.isSome = true := by decide +kernel
  refine ⟨by decide +kernel, ?_⟩
  match hresult : inferred with
  | .error _ | .ok none => cases hsome
  | .ok (some annotation) =>
    exact ⟨_, hresult,
      (annotationInferred_placeless inferring default placedObject).2.2 annotation hresult⟩

end Migration

end Retype
