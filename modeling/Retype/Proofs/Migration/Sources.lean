import Retype.Proofs.Flow.Sources
import Retype.Proofs.Migration.Extent
/-!
# The nodes a rewritten type comes from

Whatever comes from a node in a rewritten type, be it a type, a name, a parameter
or a member, comes from a node of the type before, and the keys of its members
are keys of the type before. So what holds of all nodes of a type holds of
all nodes that what becomes of it comes from (`migrate_stems`).
-/

namespace Retype

/-! ## The nodes of a type -/

/-- The nodes that a name comes from. -/
def TsEntity.nodes : TsEntity → List Json
  | name n => n.origin.toList
  | qualified origin left right => origin.toList ++ (right.origin.toList ++ left.nodes)

/-- The nodes that a list of type parameters comes from. -/
def TsTypeParams.nodes (params : TsTypeParams TsType) : List Json :=
  params.origin.toList ++ params.params.filterMap (·.origin)

/-- The nodes that the parameters and the type parameters of a signature come from. -/
def TsSignature.nodes (s : TsSignature TsType) : List Json :=
  s.params.filterMap (·.origin) ++ (s.typeParams.map (·.nodes)).getD []

/-- The nodes that a member comes from, and its key. -/
def TsMember.nodes : TsMember TsType → List Json
  | property origin key _ _ _ _ => origin.toList ++ [key]
  | method origin key signature _ _ => origin.toList ++ key :: signature.nodes
  | index origin _ _ _ _ => origin.toList

namespace TsType

/-- The node that a type comes from. -/
def origin? : TsType → Option Json
  | keyword origin _ => origin
  | this origin => origin
  | literal origin _ => origin
  | array origin _ => origin
  | tuple origin _ => origin
  | union origin _ => origin
  | intersection origin _ => origin
  | parenthesized origin _ => origin
  | function origin _ => origin
  | reference origin _ _ => origin
  | operator origin _ _ => origin
  | indexedAccess origin _ _ => origin
  | query origin _ => origin
  | typeLiteral origin _ => origin

/-- The nodes in a type besides its own and those of the types in it. -/
def sources : TsType → List Json
  | function _ signature => signature.nodes
  | reference _ name args => name.nodes ++ (args.bind (·.origin)).toList
  | query _ name => name.nodes
  | typeLiteral _ members => members.flatMap (·.nodes)
  | _ => []

variable (t : TsType) (node : Json)

/-- A type that is given an origin has it. -/
@[simp] theorem origin?_withOrigin : (t.withOrigin node).origin? = some node := by cases t <;> rfl

/-- What is inside it comes from the same nodes. -/
@[simp] theorem sources_withOrigin : (t.withOrigin node).sources = t.sources := by cases t <;> rfl

end TsType

namespace Migration

open Retype.Flow (Drawn)

variable {P : Json → Prop}

/-- A condition holds of every node that a type, or something in it, comes from,
and of the keys in it. -/
inductive Stems (P : Json → Prop) : TsType → Prop
  | intro {t : TsType} (origin : ∀ n ∈ t.origin?, P n) (sources : ∀ n ∈ t.sources, P n)
      (parts : ∀ u ∈ t.parts, Stems P u) : Stems P t

/-- What holds of type arguments. -/
structure ArgsStem (P : Json → Prop) (args : TsArgs TsType) : Prop where
  origin : ∀ n ∈ args.origin, P n
  params : ∀ u ∈ args.params, Stems P u

namespace ArgsStem

/-- Arguments that are absent stem from nothing. -/
theorem absent : ∀ as, none = some as → ArgsStem P as := nofun

/-- Arguments that come from no node. -/
theorem of_params {params : List TsType} (h : ∀ u ∈ params, Stems P u) :
    ∀ as, some (TsArgs.mk none params) = some as → ArgsStem P as := by
  rintro _ ⟨⟩
  exact ⟨nofun, h⟩

end ArgsStem

/-- What holds of a member of a literal type. -/
structure MemberStems (P : Json → Prop) (m : TsMember TsType) : Prop where
  nodes : ∀ n ∈ m.nodes, P n
  types : ∀ u ∈ m.types, Stems P u

/-- What holds of a part of an object. -/
def PartStems (P : Json → Prop) : ObjectPart → Prop := ObjectPart.Is (MemberStems P) (Stems P)

namespace Stems

/-- The parts of a type stem from where it does. -/
theorem parts {t : TsType} (h : Stems P t) : ∀ u ∈ t.parts, Stems P u := by
  cases h with
  | intro _ _ hparts => exact hparts

/-- Every node that a type comes from meets the condition. -/
theorem sources {t : TsType} (h : Stems P t) : ∀ n ∈ t.sources, P n := by
  cases h with
  | intro _ hsources _ => exact hsources

/-- A type that comes from no node, and has no names and no members. -/
theorem of_parts {t : TsType} (horigin : t.origin? = none) (hsources : t.sources = [])
    (hparts : ∀ u ∈ t.parts, Stems P u) : Stems P t :=
  .intro (by simp [horigin]) (by simp [hsources]) hparts

/-- A type that comes from a node, and has no names and no members. -/
theorem of_node {t : TsType} {node : Json} (horigin : t.origin? = some node) (h : P node)
    (hsources : t.sources = []) (hparts : ∀ u ∈ t.parts, Stems P u) : Stems P t :=
  .intro (by simpa [horigin] using h) (by simp [hsources]) hparts

/-- A keyword stems from nothing. -/
theorem word (w : TsKeyword) : Stems P (.word w) := of_parts rfl rfl nofun

/-- A type with an origin stems from that as well. -/
theorem withOrigin {t : TsType} (h : Stems P t) {node : Json} (hnode : P node) :
    Stems P (t.withOrigin node) :=
  .intro (by simpa using hnode) (by simpa using h.sources) (by simpa using h.parts)

/-- Parentheses stem from nothing. -/
theorem parenthesizeFunction {t : TsType} (h : Stems P t) : Stems P t.parenthesizeFunction := by
  unfold TsType.parenthesizeFunction
  split
  · exact of_parts rfl rfl (List.forall_mem_singleton.2 h)
  · exact h

/-- A reference stems from its name and its arguments. -/
theorem reference {name : TsEntity} {args : Option (TsArgs TsType)} (hname : ∀ n ∈ name.nodes, P n)
    (hargs : ∀ as, args = some as → ArgsStem P as) : Stems P (.reference none name args) := by
  cases args with
  | none => exact .intro nofun (List.forall_mem_append.2 ⟨hname, nofun⟩) nofun
  | some as =>
    have has := hargs as rfl
    exact .intro nofun (List.forall_mem_append.2 ⟨hname, by simpa using has.origin⟩) has.params

/-- A reference to a name that comes from no node. -/
theorem known {name : TsEntity} {args : Option (TsArgs TsType)} (hname : name.nodes = [])
    (hargs : ∀ as, args = some as → ArgsStem P as) : Stems P (.reference none name args) :=
  reference (by simp [hname]) hargs

end Stems

/-! ## References and unions -/

variable (c : TypeContext)

/-- So does an alias of `any`. -/
theorem anyAlias_stems (a : AnyAlias) {args : Option (TsArgs TsType)}
    (hargs : ∀ as, args = some as → ArgsStem P as) : (anyAlias a args).Yields (Stems P) :=
  .bind (.trivial _ fun _ => .pure (.known rfl hargs))

/-- So does what a reference becomes. -/
theorem migrateReference_stems {name : TsEntity} {args : Option (TsArgs TsType)}
    (hname : ∀ n ∈ name.nodes, P n) (hargs : ∀ as, args = some as → ArgsStem P as) :
    (migrateReference c name args).Yields (Stems P) := by
  -- The rules that replace a reference by its arguments take them from here.
  have hparams : ∀ t ∈ (args.map (·.params)).getD [], Stems P t := by
    cases args with
    | none => exact List.forall_mem_nil _
    | some as => exact (hargs as rfl).params
  rw [migrateReference]
  split
  next => exact anyAlias_stems .object ArgsStem.absent
  next => exact anyAlias_stems .function ArgsStem.absent
  next => exact .pure (.known rfl hargs)
  next => exact .pure (.known rfl hargs)
  next heq => exact .pure (.of_parts rfl rfl (by simpa [heq, TsType.parts] using hparams))
  next => exact .pure (.known rfl hargs)
  next => exact .pure (.known rfl hargs)
  next t _ heq => exact .pure (hparams t (by simp [heq]))
  next => exact anyAlias_stems .subtype hargs
  next heq => exact .pure (.of_parts rfl rfl (by simpa [heq, TsType.parts] using hparams))
  next heq => exact .pure (.of_parts rfl rfl (by simpa [heq, TsType.parts] using hparams))
  next => exact .pure (.known rfl ArgsStem.absent)
  next =>
    refine .ite (fun _ => .pure (.known rfl hargs)) fun _ => .pure (.known rfl ?_)
    exact ArgsStem.of_params (List.forall_mem_singleton.2 (.known rfl hargs))
  next => exact .first (.pure (.reference hname hargs))

/-- A union stems from where its members do. -/
theorem unionOf_stems {ts : List TsType} (h : ∀ t ∈ ts, Stems P t) : Stems P (unionOf ts) := by
  rw [unionOf]
  split
  next t ht => exact h t (List.mem_of_find?_eq_some ht)
  next => exact .of_parts rfl rfl h

/-- A name keeps its nodes. -/
theorem nodes_migrateEntity (e : FlowEntity) : (migrateEntity e).nodes = e.nodes := by
  induction e with
  | name n => rfl
  | qualified node q id ih =>
    simp [migrateEntity, migrateName, TsEntity.nodes, FlowEntity.nodes, ih]

/-- What `typeof` becomes stems from where its operand was drawn. -/
theorem migrateTypeof_stems {t : FlowType} (h : Drawn P t) :
    (migrateTypeof c t).Yields (Stems P) := by
  obtain ⟨-, hsources, -⟩ := h
  unfold migrateTypeof
  split
  next node id args =>
    split
    · exact .refuse _
    · refine .pure (.intro nofun ?_ nofun)
      rw [TsType.sources, nodes_migrateEntity]
      exact (List.forall_mem_append.1 hsources).1
  next => exact .refuse _

/-! ## Objects -/

/-- A type literal stems from where its members do. -/
theorem Stems.typeLiteral {members : List (TsMember TsType)} (h : ∀ m ∈ members, MemberStems P m) :
    Stems P (.typeLiteral none members) := by
  refine .intro nofun (fun n hn => ?_) fun u hu => ?_
  · obtain ⟨m, hm, hn⟩ := List.mem_flatMap.1 hn
    exact (h m hm).nodes n hn
  · obtain ⟨m, hm, hu⟩ := List.mem_flatMap.1 hu
    exact (h m hm).types u hu

/-- So does the object built from parts. -/
theorem objectOfParts_stems {parts : List ObjectPart} (h : ∀ p ∈ parts, PartStems P p) :
    Stems P (objectOfParts parts) := by
  have hts : ∀ t ∈ gatherParts [] parts, Stems P t :=
    gatherParts_each (fun _ hms => .typeLiteral hms) (List.forall_mem_nil _) h
  rw [objectOfParts]
  split
  next => exact .of_parts rfl rfl (List.forall_mem_nil _)
  next t heq => exact hts t (by simp [heq])
  next => exact .of_parts rfl rfl hts

/-- A property stems from its node, its key and its type. -/
theorem propertyMember_stems {node key : Json} {traits : PropertyTraits} {value : TsType}
    (hnode : P node) (hkey : P key) (hvalue : Stems P value) :
    (propertyMember c node key traits value).Yields (MemberStems P) := by
  unfold propertyMember
  refine .ite (fun _ => ?_) fun _ => ?_
  · split
    next signature =>
      -- the parts of the method are those of the function type
      exact .pure ⟨List.forall_mem_cons.2 ⟨hnode, List.forall_mem_cons.2 ⟨hkey, hvalue.sources⟩⟩,
        hvalue.parts⟩
    next => exact .refuse _
  · exact .pure ⟨List.forall_mem_cons.2 ⟨hnode, List.forall_mem_singleton.2 hkey⟩,
      List.forall_mem_singleton.2 hvalue⟩

/-- An indexer stems from its node and its two types. -/
theorem indexerPart_stems {node : Json} (hnode : P node) (name : Option String) {key value : TsType}
    (hkey : Stems P key) (hvalue : Stems P value) (variance : Option Variance) :
    PartStems P (indexerPart c node name key value variance) := by
  have htypes : ∀ u ∈ [key, value], Stems P u :=
    List.forall_mem_cons.2 ⟨hkey, List.forall_mem_singleton.2 hvalue⟩
  rw [indexerPart]
  split
  · exact ⟨List.forall_mem_singleton.2 hnode, htypes⟩
  · exact Stems.known rfl (ArgsStem.of_params htypes)

/-- A member becomes a part that stems from the same nodes. -/
theorem migrateMember_stems {m : FlowMember FlowType} (hnodes : ∀ n ∈ m.nodes, P n)
    (h : ∀ t ∈ m.types, (migrate c t).Yields (Stems P)) :
    (migrateMember c m).Yields (PartStems P) := by
  have hnode : P m.node := hnodes _ List.mem_cons_self
  cases m with
  | property node key value traits =>
    have hkey : P key := hnodes key (List.mem_cons_of_mem _ List.mem_cons_self)
    refine .bind (.trivial _ fun _ => .bind ((h value List.mem_cons_self).mono fun u hu => ?_))
    exact .bind ((propertyMember_stems c hnode hkey hu).mono fun m hm => .pure hm)
  | spread node argument =>
    exact .bind ((h argument List.mem_cons_self).mono fun u hu =>
      .pure (Stems.of_node rfl hnode rfl (List.forall_mem_singleton.2 hu)))
  | indexer node id key value variance isStatic =>
    rw [FlowMember.types, List.forall_mem_cons, List.forall_mem_singleton] at h
    refine .first (.first (.bind (h.1.mono fun t ht => .bind (h.2.mono fun u hu => .pure ?_))))
    exact indexerPart_stems c hnode id ht hu variance
  | callProperty node value => exact .refuse _
  | internalSlot node id => exact .refuse _

/-! ## Arguments and parameters -/

/-- So do type arguments that may be absent. -/
theorem migrateArgsOption_stems {args : Option (FlowArgs FlowType)}
    (hnode : ∀ n ∈ (args.map (·.node)).toList, P n)
    (h : ∀ t ∈ (args.map (·.params)).getD [], (migrate c t).Yields (Stems P)) :
    (migrateArgsOption c args).Yields fun args => ∀ as, args = some as → ArgsStem P as := by
  match args with
  | none => exact .pure nofun
  | some ⟨_, []⟩ => exact .pure nofun
  | some ⟨node, t :: ts⟩ =>
    refine .bind (.bind ((migrateAll_each c h).mono fun us hus => .pure (.pure ?_)))
    rintro _ ⟨⟩
    exact ⟨by simpa using hnode, hus⟩

/-- The nodes that parameters come from are those of the parameters before. -/
theorem migrateParams_stem {params : List (FlowParam FlowType)} (h : ∀ p ∈ params, P p.node)
    (number : Nat) :
    (migrateParams c number params).Yields fun ps => ∀ n ∈ ps.filterMap (·.origin), P n := by
  induction params generalizing number with
  | nil => exact .pure nofun
  | cons p rest ih =>
    rw [List.forall_mem_cons] at h
    refine .bind (.trivial _ fun u => .bind ((ih h.2 _).mono fun ps hps => .pure ?_))
    exact List.forall_mem_cons.2 ⟨h.1, hps⟩

/-- So does the `this` parameter. -/
theorem migrateThis_stem {param : Option (FlowParam FlowType)} (h : ∀ p ∈ param.toList, P p.node) :
    (migrateThis c param).Yields fun ps => ∀ n ∈ ps.filterMap (·.origin), P n := by
  cases param with
  | none => exact .pure nofun
  | some p =>
    have hnode : P p.node := h p List.mem_cons_self
    exact .bind (.trivial _ fun u => .pure (List.forall_mem_singleton.2 hnode))

/-- So does the rest parameter. -/
theorem migrateRest_stem {param : Option (FlowParam FlowType)} (h : ∀ p ∈ param.toList, P p.node) :
    (migrateRest c param).Yields fun ps => ∀ n ∈ ps.filterMap (·.origin), P n := by
  cases param with
  | none => exact .pure nofun
  | some p =>
    have hnode : P p.node := h p List.mem_cons_self
    exact .bind (.trivial _ fun u => .pure (List.forall_mem_singleton.2 hnode))

/-- So do type parameters. -/
theorem migrateTypeParamList_stem {params : List (FlowTypeParam FlowType)}
    (h : ∀ p ∈ params, P p.node) :
    (migrateTypeParamList c params).Yields fun ps => ∀ n ∈ ps.filterMap (·.origin), P n := by
  induction params with
  | nil => exact .pure nofun
  | cons p rest ih =>
    rw [List.forall_mem_cons] at h
    refine .first (.bind (.trivial _ fun bound => .bind (.trivial _ fun default => ?_)))
    exact .bind ((ih h.2).mono fun ps hps => .pure (List.forall_mem_cons.2 ⟨h.1, hps⟩))

/-- So do type parameters with their node. -/
theorem migrateTypeParams_stem {params : FlowTypeParams FlowType} (h : ∀ n ∈ params.nodes, P n) :
    (migrateTypeParams c params).Yields fun ps => ∀ n ∈ ps.nodes, P n := by
  obtain ⟨node, params⟩ := params
  rw [FlowTypeParams.nodes, List.forall_mem_cons, List.forall_mem_map] at h
  exact .bind ((migrateTypeParamList_stem c h.2).mono fun ps hps =>
    .pure (List.forall_mem_cons.2 ⟨h.1, hps⟩))

/-- So do type parameters that may be absent. -/
theorem migrateTypeParamsOption_stem {params : Option (FlowTypeParams FlowType)}
    (h : ∀ n ∈ (params.map (·.nodes)).getD [], P n) :
    (migrateTypeParamsOption c params).Yields fun ps =>
      ∀ n ∈ (ps.map (·.nodes)).getD [], P n := by
  cases params with
  | none => exact .pure nofun
  | some params => exact .bind ((migrateTypeParams_stem c h).mono fun _ hps => .pure hps)

/-! ## Types -/

/-- **A rewritten type comes from the nodes of the type before.** -/
theorem migrate_stems {t : FlowType} (h : Drawn P t) : (migrate c t).Yields (Stems P) := by
  induction h with
  | @intro t hnode hsources hparts ih =>
    cases t with
    | keyword node word =>
      cases word with
      | existential =>
        have halias : (anyAlias .existential none).Yields (Stems P) :=
          anyAlias_stems .existential ArgsStem.absent
        exact .map (halias.mono fun t ht => ht.withOrigin hnode)
      | interface => exact .refuse _
      | _ => exact .pure (.of_node rfl hnode rfl nofun)
    | literal node v => exact .pure (.of_node rfl hnode rfl nofun)
    | array node t =>
      exact .bind ((ih t List.mem_cons_self).mono fun u hu =>
        .pure (.of_node rfl hnode rfl (List.forall_mem_singleton.2 hu)))
    | nullable node t =>
      refine .bind ((ih t List.mem_cons_self).mono fun u hu => .pure (.of_node rfl hnode rfl ?_))
      simp only [TsType.parts, List.forall_mem_cons]
      exact ⟨hu, .word _, .word _, List.forall_mem_nil _⟩
    | tuple node ts =>
      exact .bind ((migrateAll_each c ih).mono fun us hus => .pure (.of_node rfl hnode rfl hus))
    | union node ts =>
      refine .bind ((migrateAll_each c ih).mono fun us hus => .pure ?_)
      refine (unionOf_stems ?_).withOrigin hnode
      exact List.forall_mem_map.2 fun u hu => (hus u hu).parenthesizeFunction
    | intersection node ts =>
      refine .bind ((migrateAll_each c ih).mono fun us hus => .pure (.of_node rfl hnode rfl ?_))
      exact List.forall_mem_map.2 fun u hu => (hus u hu).parenthesizeFunction
    | typeof node t =>
      exact .map ((migrateTypeof_stems c (hparts t List.mem_cons_self)).mono
        fun u hu => hu.withOrigin hnode)
    | indexedAccess node object index =>
      rw [FlowType.parts, List.forall_mem_cons, List.forall_mem_singleton] at ih
      exact .bind (ih.1.mono fun t ht => .bind (ih.2.mono fun u hu => .pure (.of_node rfl hnode rfl
        (List.forall_mem_cons.2 ⟨ht, List.forall_mem_singleton.2 hu⟩))))
    | optionalIndexedAccess node object index => exact .refuse _
    | generic node id args =>
      obtain ⟨hid, hargs⟩ := List.forall_mem_append.1 hsources
      refine .bind ((migrateArgsOption_stems c hargs ih).mono fun args hargs => .map ?_)
      refine (migrateReference_stems c ?_ hargs).mono fun u hu => hu.withOrigin hnode
      rw [nodes_migrateEntity]
      exact hid
    | function node params result rest thisParam typeParams =>
      simp only [FlowType.parts, List.cons_append, List.map_append, List.forall_mem_cons,
        List.forall_mem_append] at ih
      obtain ⟨hresult, ⟨⟨hparams, hrest⟩, hthis⟩, htypeParams⟩ := ih
      obtain ⟨hnodes, htypeNodes⟩ := List.forall_mem_append.1 hsources
      simp only [List.forall_mem_map, List.forall_mem_append] at hnodes
      obtain ⟨⟨hparamNodes, hrestNodes⟩, hthisNodes⟩ := hnodes
      refine .bind (((migrateThis_each c hthis).and (migrateThis_stem c hthisNodes)).mono
        fun this' hthis => ?_)
      refine .bind (((migrateParams_each c hparams 1).and
        (migrateParams_stem c hparamNodes 1)).mono fun params' hparams => ?_)
      refine .bind (((migrateRest_each c hrest).and (migrateRest_stem c hrestNodes)).mono
        fun rest' hrest => ?_)
      refine .bind (hresult.mono fun result' hresult => ?_)
      refine .bind (((migrateTypeParamsOption_each c htypeParams).and
        (migrateTypeParamsOption_stem c htypeNodes)).mono fun ps hps => .pure ?_)
      refine .intro (by simpa [TsType.origin?, FlowType.node] using hnode) ?_ ?_
      · simp only [TsType.sources, TsSignature.nodes, List.filterMap_append,
          List.forall_mem_append]
        exact ⟨⟨⟨hthis.2, hparams.2⟩, hrest.2⟩, hps.2⟩
      · simp only [TsType.parts, TsSignature.types, List.map_append, List.forall_mem_append,
          List.forall_mem_cons]
        exact ⟨⟨⟨hthis.1, hparams.1⟩, hrest.1⟩, hresult, hps.1⟩
    | object node members exact =>
      refine .bind ((migrateMembers_each c fun m hm => migrateMember_stems c ?_ ?_).mono
        fun ps hps => .pure ((objectOfParts_stems hps).withOrigin hnode))
      · exact fun n hn => hsources n (List.mem_flatMap.2 ⟨m, hm, hn⟩)
      · exact fun u hu => ih u (List.mem_flatMap.2 ⟨m, hm, hu⟩)

end Migration

end Retype
