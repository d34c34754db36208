import Retype.Proofs.Migration.Extent
/-!
# Unions and signatures at any depth

Where the unions and the signatures in a rewritten type come from, however deep
they stand (`migrate_formed`). A union is that of a nullable type, or none of
its members is `any`. A signature is that of a function type before; its
parameters stand in the same order, with the same markers, and with their names
or the ones that were invented for them (`Outlined`).
-/

namespace Retype

/-! ## What stands in a type -/

namespace FlowType

/-- One type stands in another one, at some depth. -/
inductive Within : FlowType → FlowType → Prop
  | refl (t : FlowType) : Within t t
  | part {u v t : FlowType} (mem : v ∈ t.parts) (within : Within u v) : Within u t

/-- The types of a member are smaller than the member. -/
theorem sizeOf_lt_of_mem_types {m : FlowMember FlowType} {t : FlowType} (h : t ∈ m.types) :
    sizeOf t < sizeOf m := by
  cases m <;> simp only [FlowMember.types, List.mem_cons, List.not_mem_nil, or_false] at h
  case indexer => rcases h with rfl | rfl <;> simp only [FlowMember.indexer.sizeOf_spec] <;> omega
  all_goals
    subst h
    simp only [FlowMember.property.sizeOf_spec, FlowMember.spread.sizeOf_spec,
      FlowMember.callProperty.sizeOf_spec]
    omega

/-- Those of type parameters are smaller than these. -/
theorem sizeOf_lt_of_mem_typeParams {params : FlowTypeParams FlowType} {t : FlowType}
    (h : t ∈ params.types) : sizeOf t < sizeOf params := by
  obtain ⟨node, params⟩ := params
  obtain ⟨p, hp, ht⟩ := List.mem_flatMap.1 h
  have hlt := List.sizeOf_lt_of_mem hp
  obtain ⟨_, _, bound, default, _⟩ := p
  simp only [List.mem_append, Option.mem_toList] at ht
  rcases ht with rfl | rfl <;>
    simp only [FlowTypeParam.mk.sizeOf_spec, FlowTypeParams.mk.sizeOf_spec,
      Option.some.sizeOf_spec] at hlt ⊢ <;>
    omega

/-- Those of parameters are smaller than these. -/
theorem sizeOf_lt_of_mem_params {params : List (FlowParam FlowType)} {t : FlowType}
    (h : t ∈ params.map (·.type)) : sizeOf t < sizeOf params := by
  obtain ⟨p, hp, rfl⟩ := List.mem_map.1 h
  have hlt := List.sizeOf_lt_of_mem hp
  obtain ⟨_, _, type, _⟩ := p
  simp only [FlowParam.mk.sizeOf_spec] at hlt ⊢
  omega

/-- So is that of a parameter that may be absent. -/
theorem sizeOf_lt_of_mem_param {param : Option (FlowParam FlowType)} {t : FlowType}
    (h : t ∈ param.toList.map (·.type)) : sizeOf t < sizeOf param := by
  cases param with
  | none => cases h
  | some p =>
    obtain rfl := List.mem_singleton.1 h
    obtain ⟨_, _, type, _⟩ := p
    simp only [Option.some.sizeOf_spec, FlowParam.mk.sizeOf_spec]
    omega

/-- The parts of a type are smaller than it. -/
theorem sizeOf_lt_of_mem_parts {t u : FlowType} (h : u ∈ t.parts) : sizeOf u < sizeOf t := by
  cases t with
  | keyword | literal => cases h
  | array | nullable | typeof =>
    obtain rfl := List.mem_singleton.1 h
    simp only [array.sizeOf_spec, nullable.sizeOf_spec, typeof.sizeOf_spec]
    omega
  | tuple node ts | union node ts | intersection node ts =>
    have hlt : sizeOf u < sizeOf ts := List.sizeOf_lt_of_mem h
    simp only [tuple.sizeOf_spec, union.sizeOf_spec, intersection.sizeOf_spec]
    omega
  | indexedAccess | optionalIndexedAccess =>
    simp only [parts, List.mem_cons, List.not_mem_nil, or_false] at h
    rcases h with rfl | rfl <;>
      simp only [indexedAccess.sizeOf_spec, optionalIndexedAccess.sizeOf_spec] <;> omega
  | generic node id args =>
    cases args with
    | none => cases h
    | some args =>
      obtain ⟨_, params⟩ := args
      have hlt : sizeOf u < sizeOf params := List.sizeOf_lt_of_mem h
      simp only [generic.sizeOf_spec, Option.some.sizeOf_spec, FlowArgs.mk.sizeOf_spec]
      omega
  | function node params result rest thisParam typeParams =>
    simp only [parts, List.cons_append, List.map_append, List.mem_cons, List.mem_append] at h
    rcases h with rfl | ((hparams | hrest) | hthis) | htypeParams
    · simp only [function.sizeOf_spec]
      omega
    · have hlt := sizeOf_lt_of_mem_params hparams
      simp only [function.sizeOf_spec]
      omega
    · have hlt := sizeOf_lt_of_mem_param hrest
      simp only [function.sizeOf_spec]
      omega
    · have hlt := sizeOf_lt_of_mem_param hthis
      simp only [function.sizeOf_spec]
      omega
    · cases typeParams with
      | none => cases htypeParams
      | some typeParams =>
        have hlt := sizeOf_lt_of_mem_typeParams htypeParams
        simp only [function.sizeOf_spec, Option.some.sizeOf_spec]
        omega
  | object node members =>
    obtain ⟨m, hm, hu⟩ := List.mem_flatMap.1 h
    have hlt := sizeOf_lt_of_mem_types hu
    have hlt' := List.sizeOf_lt_of_mem hm
    simp only [object.sizeOf_spec]
    omega

/-- What holds of a type if it holds of its parts holds of every type. -/
theorem induction_on_parts {P : FlowType → Prop} (h : ∀ t, (∀ u ∈ t.parts, P u) → P t)
    (t : FlowType) : P t :=
  h t fun u hu =>
    have := sizeOf_lt_of_mem_parts hu
    induction_on_parts h u
termination_by sizeOf t

end FlowType

/-- The signature of a member that is a method. -/
def TsMember.signature? {τ : Type} : TsMember τ → Option (TsSignature τ)
  | method _ _ signature _ _ => some signature
  | _ => none

namespace TsType

/-- One type stands in another one, at some depth. -/
inductive Within : TsType → TsType → Prop
  | refl (t : TsType) : Within t t
  | part {u v t : TsType} (mem : v ∈ t.parts) (within : Within u v) : Within u t

/-- The members of a union. -/
def alternatives? : TsType → Option (List TsType)
  | union _ types => some types
  | _ => none

/-- The signature of a function type, or those of the methods of a literal type. -/
def signatures : TsType → List (TsSignature TsType)
  | function _ signature => [signature]
  | typeLiteral _ members => members.filterMap TsMember.signature?
  | _ => []

variable (t : TsType) (node : Json)

/-- The node a type comes from changes no alternatives. -/
@[simp] theorem alternatives?_withOrigin : (t.withOrigin node).alternatives? = t.alternatives? := by
  cases t <;> rfl

/-- It changes no signature. -/
@[simp] theorem signatures_withOrigin : (t.withOrigin node).signatures = t.signatures := by
  cases t <;> rfl

/-- It changes no keyword. -/
@[simp] theorem isWord_withOrigin (k : TsKeyword) : (t.withOrigin node).isWord k = t.isWord k := by
  cases t <;> rfl

/-- Nor do parentheses. -/
@[simp] theorem isWord_parenthesizeFunction (k : TsKeyword) :
    t.parenthesizeFunction.isWord k = t.isWord k := by
  cases t <;> rfl

end TsType

namespace Migration

variable {A : List TsType → Prop} {S : TsSignature TsType → Prop}

/-- What holds of the members of each union, and of each signature, in a type
and at any depth of it. -/
inductive Formed (A : List TsType → Prop) (S : TsSignature TsType → Prop) : TsType → Prop
  | intro {t : TsType} (parts : ∀ u ∈ t.parts, Formed A S u)
      (union : ∀ us, t.alternatives? = some us → A us) (signatures : ∀ s ∈ t.signatures, S s) :
      Formed A S t

namespace Formed

/-- The parts of a well-formed type are well-formed. -/
theorem parts {t : TsType} (h : Formed A S t) : ∀ u ∈ t.parts, Formed A S u := by
  cases h with
  | intro hparts _ _ => exact hparts

/-- A well-formed union has the members it should. -/
theorem union {t : TsType} (h : Formed A S t) : ∀ us, t.alternatives? = some us → A us := by
  cases h with
  | intro _ hunion _ => exact hunion

/-- A well-formed type has the signatures it should. -/
theorem signatures {t : TsType} (h : Formed A S t) : ∀ s ∈ t.signatures, S s := by
  cases h with
  | intro _ _ hsignatures => exact hsignatures

/-- What holds of a type holds of whatever stands in it. -/
theorem within {t u : TsType} (hu : u.Within t) (h : Formed A S t) : Formed A S u := by
  induction hu with
  | refl => exact h
  | part mem _ ih => exact ih (h.parts _ mem)

/-- A type that is not a union, a function or a literal type. -/
theorem plain {t : TsType} (h : ∀ u ∈ t.parts, Formed A S u) (hunion : t.alternatives? = none)
    (hsignatures : t.signatures = []) : Formed A S t :=
  .intro h (by simp [hunion]) (by simp [hsignatures])

/-- A type without parts. -/
theorem leaf {t : TsType} (hparts : t.parts = []) (hunion : t.alternatives? = none)
    (hsignatures : t.signatures = []) : Formed A S t :=
  .plain (by simp [hparts]) hunion hsignatures

/-- A keyword is well-formed. -/
theorem word (k : TsKeyword) : Formed A S (.word k) := .leaf rfl rfl rfl

/-- A well-formed type stays so with its origin. -/
theorem withOrigin {t : TsType} (h : Formed A S t) (node : Json) :
    Formed A S (t.withOrigin node) :=
  .intro (by simpa using h.parts) (by simpa using h.union) (by simpa using h.signatures)

/-- It stays so in parentheses. -/
theorem parenthesizeFunction {t : TsType} (h : Formed A S t) :
    Formed A S t.parenthesizeFunction := by
  unfold TsType.parenthesizeFunction
  split
  · exact .plain (List.forall_mem_singleton.2 h) rfl rfl
  · exact h

/-- Arguments that are absent are well-formed. -/
theorem no_args : ∀ as, (none : Option (TsArgs TsType)) = some as →
    ∀ u ∈ as.params, Formed A S u := nofun

/-- A reference with well-formed arguments is well-formed. -/
theorem reference {name : TsEntity} {args : Option (TsArgs TsType)}
    (h : ∀ as, args = some as → ∀ u ∈ as.params, Formed A S u) :
    Formed A S (.reference none name args) := by
  refine .plain ?_ rfl rfl
  cases args with
  | none => exact List.forall_mem_nil _
  | some as => exact h as rfl

end Formed

/-! ## References and unions -/

variable (c : TypeContext)

/-- So is an alias of `any`. -/
theorem anyAlias_formed (a : AnyAlias) {args : Option (TsArgs TsType)}
    (h : ∀ as, args = some as → ∀ u ∈ as.params, Formed A S u) :
    (anyAlias a args).Yields (Formed A S) :=
  .bind (.trivial _ fun _ => .pure (.reference h))

/-- So is what a reference becomes. -/
theorem migrateReference_formed {name : TsEntity} {args : Option (TsArgs TsType)}
    (h : ∀ as, args = some as → ∀ u ∈ as.params, Formed A S u) :
    (migrateReference c name args).Yields (Formed A S) := by
  -- The rules that replace a reference by its arguments take them from here.
  have hparams : ∀ t ∈ (args.map (·.params)).getD [], Formed A S t := by
    cases args with
    | none => exact List.forall_mem_nil _
    | some as => exact h as rfl
  rw [migrateReference]
  split
  next => exact anyAlias_formed .object .no_args
  next => exact anyAlias_formed .function .no_args
  next => exact .pure (.reference h)
  next => exact .pure (.reference h)
  next t _ heq => exact .pure (.plain (by simpa [heq, TsType.parts] using hparams) rfl rfl)
  next => exact .pure (.reference h)
  next => exact .pure (.reference h)
  next t _ heq => exact .pure (hparams t (by simp [heq]))
  next => exact anyAlias_formed .subtype h
  next heq => exact .pure (.plain (by simpa [heq, TsType.parts] using hparams) rfl rfl)
  next heq => exact .pure (.plain (by simpa [heq, TsType.parts] using hparams) rfl rfl)
  next => exact .pure (.reference .no_args)
  next =>
    refine .ite (fun _ => .pure (.reference h)) fun _ => .pure (.reference ?_)
    rintro _ ⟨⟩
    exact List.forall_mem_singleton.2 (.reference h)
  next => exact .first (.pure (.reference h))

/-- A union is well-formed when its members are, unless one of them is `any`. -/
theorem unionOf_formed {us : List TsType} (h : ∀ u ∈ us, Formed A S u)
    (hunion : (∀ u ∈ us, u.isWord .any = false) → A us) : Formed A S (unionOf us) := by
  rw [unionOf]
  split
  next t ht => exact h t (List.mem_of_find?_eq_some ht)
  next hnone =>
    refine .intro h ?_ (List.forall_mem_nil _)
    rintro _ ⟨⟩
    exact hunion (by simpa using hnone)

/-- What `typeof` becomes is well-formed. -/
theorem migrateTypeof_formed (t : FlowType) : (migrateTypeof c t).Yields (Formed A S) := by
  unfold migrateTypeof
  split
  next =>
    split
    · exact .refuse _
    · exact .pure (.leaf rfl rfl rfl)
  next => exact .refuse _

/-! ## Signatures -/

/-- A parameter without its type. -/
structure ParamHead where
  name : String
  optional : Bool
  rest : Bool

def headOf (p : TsParam TsType) : ParamHead := ⟨p.name, p.optional, p.rest⟩

/-- The heads that parameters get, of which the first one has the given number. -/
def headsFrom : Nat → List (FlowParam FlowType) → List ParamHead
  | _, [] => []
  | number, p :: rest =>
    ⟨paramName p.name ("arg" ++ toString number), p.optional, false⟩ :: headsFrom (number + 1) rest

/-- The heads of the parameters of a function: `this` comes first, the rest
parameter last. -/
def headsOf (params : List (FlowParam FlowType)) (rest thisParam : Option (FlowParam FlowType)) :
    List ParamHead :=
  thisParam.toList.map (fun _ => ⟨"this", false, false⟩) ++ headsFrom 1 params
    ++ rest.toList.map fun p => ⟨paramName p.name "rest", false, true⟩

/-- A signature has the parameters of a function type, but for their types. -/
inductive Outlined : FlowType → TsSignature TsType → Prop
  | intro {node : Json} {params : List (FlowParam FlowType)} {result : FlowType}
      {rest thisParam : Option (FlowParam FlowType)}
      {typeParams : Option (FlowTypeParams FlowType)} {s : TsSignature TsType}
      (heads : s.params.map headOf = headsOf params rest thisParam) :
      Outlined (.function node params result rest thisParam typeParams) s

/-- Parameters keep their names and markers, and those without a name are numbered. -/
theorem migrateParams_heads (params : List (FlowParam FlowType)) (number : Nat) :
    (migrateParams c number params).Yields fun ps => ps.map headOf = headsFrom number params := by
  induction params generalizing number with
  | nil => exact .pure rfl
  | cons p rest ih =>
    refine .bind (.trivial _ fun type => .bind ((ih _).mono fun ps hps => .pure ?_))
    rw [List.map_cons, hps]
    rfl

/-- The `this` parameter keeps its name and is never optional. -/
theorem migrateThis_heads (param : Option (FlowParam FlowType)) :
    (migrateThis c param).Yields fun ps =>
      ps.map headOf = param.toList.map fun _ => ⟨"this", false, false⟩ := by
  cases param with
  | none => exact .pure rfl
  | some p => exact .bind (.trivial _ fun type => .pure rfl)

/-- The rest parameter keeps its name, or is called `rest`. -/
theorem migrateRest_heads (param : Option (FlowParam FlowType)) :
    (migrateRest c param).Yields fun ps =>
      ps.map headOf = param.toList.map fun p => ⟨paramName p.name "rest", false, true⟩ := by
  cases param with
  | none => exact .pure rfl
  | some p => exact .bind (.trivial _ fun type => .pure rfl)

/-! ## Objects -/

/-- What holds of the types and of the signature in a member. -/
structure MemberFormed (A : List TsType → Prop) (S : TsSignature TsType → Prop)
    (m : TsMember TsType) : Prop where
  types : ∀ u ∈ m.types, Formed A S u
  signature : ∀ s ∈ m.signature?, S s

/-- A type literal of well-formed members is well-formed. -/
theorem Formed.typeLiteral {members : List (TsMember TsType)}
    (h : ∀ m ∈ members, MemberFormed A S m) : Formed A S (.typeLiteral none members) := by
  refine .intro (fun u hu => ?_) nofun fun s hs => ?_
  · obtain ⟨m, hm, hu⟩ := List.mem_flatMap.1 hu
    exact (h m hm).types u hu
  · obtain ⟨m, hm, hs⟩ := List.mem_filterMap.1 hs
    exact (h m hm).signature s hs

/-- So is the object built from well-formed parts. -/
theorem objectOfParts_formed {parts : List ObjectPart}
    (h : ∀ p ∈ parts, p.Is (MemberFormed A S) (Formed A S)) : Formed A S (objectOfParts parts) := by
  have hts : ∀ t ∈ gatherParts [] parts, Formed A S t :=
    gatherParts_each (fun _ hms => .typeLiteral hms) (List.forall_mem_nil _) h
  rw [objectOfParts]
  split
  next => exact .leaf rfl rfl rfl
  next t heq => exact hts t (by simp [heq])
  next => exact .plain hts rfl rfl

/-- A property with a well-formed type is a well-formed member. -/
theorem propertyMember_formed {node key : Json} {traits : PropertyTraits} {value : TsType}
    (h : Formed A S value) : (propertyMember c node key traits value).Yields
      (MemberFormed A S) := by
  unfold propertyMember
  refine .ite (fun _ => ?_) fun _ => ?_
  · split
    next signature =>
      -- the signature of the method is that of the function type
      refine .pure ⟨h.parts, ?_⟩
      rintro _ ⟨⟩
      exact h.signatures _ List.mem_cons_self
    next => exact .refuse _
  · exact .pure ⟨List.forall_mem_singleton.2 h, by simp [TsMember.signature?]⟩

/-- An indexer of well-formed types is a well-formed part. -/
theorem indexerPart_formed (node : Json) (name : Option String) {key value : TsType}
    (hkey : Formed A S key) (hvalue : Formed A S value) (variance : Option Variance) :
    (indexerPart c node name key value variance).Is (MemberFormed A S) (Formed A S) := by
  have htypes : ∀ u ∈ [key, value], Formed A S u :=
    List.forall_mem_cons.2 ⟨hkey, List.forall_mem_singleton.2 hvalue⟩
  rw [indexerPart]
  split
  · exact ⟨htypes, by simp [TsMember.signature?]⟩
  · refine Formed.reference ?_
    rintro _ ⟨⟩
    exact htypes

/-- A member whose types become well-formed ones becomes a well-formed part. -/
theorem migrateMember_formed {m : FlowMember FlowType}
    (h : ∀ t ∈ m.types, (migrate c t).Yields (Formed A S)) :
    (migrateMember c m).Yields fun p => p.Is (MemberFormed A S) (Formed A S) := by
  cases m with
  | property node key value traits =>
    refine .bind (.trivial _ fun _ => .bind ((h value List.mem_cons_self).mono fun u hu => ?_))
    exact .bind ((propertyMember_formed c hu).mono fun m hm => .pure hm)
  | spread node argument =>
    exact .bind ((h argument List.mem_cons_self).mono fun u hu =>
      .pure (Formed.plain (List.forall_mem_singleton.2 hu) rfl rfl))
  | indexer node id key value variance isStatic =>
    rw [FlowMember.types, List.forall_mem_cons, List.forall_mem_singleton] at h
    refine .first (.first (.bind (h.1.mono fun t ht => .bind (h.2.mono fun u hu => .pure ?_))))
    exact indexerPart_formed c node id ht hu variance
  | callProperty node value => exact .refuse _
  | internalSlot node id => exact .refuse _

/-! ## Types -/

/-- **Where unions and signatures come from.** What holds of unions without
`any`, of the unions of nullable types, and of the signatures of function
types, holds of all unions and signatures of a rewritten type. -/
theorem migrate_formed {t : FlowType}
    (hunion : ∀ us, (∀ u ∈ us, u.isWord .any = false) → A us)
    (hnullable : ∀ node inner, (FlowType.nullable node inner).Within t →
      (migrate c inner).Yields fun u => A [u, TsType.word .null, TsType.word .undefined])
    (hfunction : ∀ f, f.Within t → ∀ s, Outlined f s → S s) :
    (migrate c t).Yields (Formed A S) := by
  induction t using FlowType.induction_on_parts with
  | h t ih =>
    replace ih : ∀ u ∈ t.parts, (migrate c u).Yields (Formed A S) := fun u hu =>
      ih u hu (fun node inner h => hnullable node inner (.part hu h))
        fun f h => hfunction f (.part hu h)
    cases t with
    | keyword node word =>
      cases word with
      | existential =>
        have halias : (anyAlias .existential none).Yields (Formed A S) :=
          anyAlias_formed .existential .no_args
        exact .map (halias.mono fun t ht => ht.withOrigin node)
      | interface => exact .refuse _
      | _ => exact .pure (.leaf rfl rfl rfl)
    | literal node v => exact .pure (.leaf rfl rfl rfl)
    | array node t =>
      exact .bind ((ih t List.mem_cons_self).mono fun u hu =>
        .pure (.plain (List.forall_mem_singleton.2 hu) rfl rfl))
    | nullable node t =>
      refine .bind (((ih t List.mem_cons_self).and (hnullable node t (.refl _))).mono
        fun u hu => .pure (.intro ?_ ?_ (List.forall_mem_nil _)))
      · simp only [TsType.parts, List.forall_mem_cons]
        exact ⟨hu.1, .word _, .word _, List.forall_mem_nil _⟩
      · rintro _ ⟨⟩
        exact hu.2
    | tuple node ts =>
      exact .bind ((migrateAll_each c ih).mono fun us hus => .pure (.plain hus rfl rfl))
    | union node ts =>
      refine .bind ((migrateAll_each c ih).mono fun us hus => .pure ?_)
      refine (unionOf_formed ?_ (hunion _)).withOrigin node
      exact List.forall_mem_map.2 fun u hu => (hus u hu).parenthesizeFunction
    | intersection node ts =>
      refine .bind ((migrateAll_each c ih).mono fun us hus => .pure (.plain ?_ rfl rfl))
      exact List.forall_mem_map.2 fun u hu => (hus u hu).parenthesizeFunction
    | typeof node t => exact .map ((migrateTypeof_formed c t).mono fun u hu => hu.withOrigin node)
    | indexedAccess node object index =>
      rw [FlowType.parts, List.forall_mem_cons, List.forall_mem_singleton] at ih
      refine .bind (ih.1.mono fun t ht => .bind (ih.2.mono fun u hu => .pure (.plain ?_ rfl rfl)))
      exact List.forall_mem_cons.2 ⟨ht, List.forall_mem_singleton.2 hu⟩
    | optionalIndexedAccess node object index => exact .refuse _
    | generic node id args =>
      refine .bind ((migrateArgsOption_each c ih).mono fun args hargs => .map ?_)
      exact (migrateReference_formed c hargs).mono fun u hu => hu.withOrigin node
    | function node params result rest thisParam typeParams =>
      simp only [FlowType.parts, List.cons_append, List.map_append, List.forall_mem_cons,
        List.forall_mem_append] at ih
      obtain ⟨hresult, ⟨⟨hparams, hrest⟩, hthis⟩, htypeParams⟩ := ih
      refine .bind (((migrateThis_each c hthis).and (migrateThis_heads c thisParam)).mono
        fun this' hthis => ?_)
      refine .bind (((migrateParams_each c hparams 1).and (migrateParams_heads c params 1)).mono
        fun params' hparams => ?_)
      refine .bind (((migrateRest_each c hrest).and (migrateRest_heads c rest)).mono
        fun rest' hrest => ?_)
      refine .bind (hresult.mono fun result' hresult => ?_)
      refine .bind ((migrateTypeParamsOption_each c htypeParams).mono fun ps hps =>
        .pure (.intro ?_ (by simp [TsType.alternatives?]) (List.forall_mem_singleton.2 ?_)))
      · simp only [TsType.parts, TsSignature.types, List.map_append, List.forall_mem_append,
          List.forall_mem_cons]
        exact ⟨⟨⟨hthis.1, hparams.1⟩, hrest.1⟩, hresult, hps⟩
      · refine hfunction _ (.refl _) _ (.intro ?_)
        rw [List.map_append, List.map_append, hthis.2, hparams.2, hrest.2]
        rfl
    | object node members exact =>
      refine .bind ((migrateMembers_each c fun m hm => migrateMember_formed c ?_).mono
        fun ps hps => .pure ((objectOfParts_formed hps).withOrigin node))
      exact fun u hu => ih u (List.mem_flatMap.2 ⟨m, hm, hu⟩)

end Migration

end Retype
