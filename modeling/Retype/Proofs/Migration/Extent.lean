import Retype.Proofs.Flow.Extent
import Retype.Proofs.Migration.Gathering
/-!
# How deep a rewritten type is

A type becomes one that is at most so many times as deep: each level of the
node that it was read from accounts for two types, and a type for at most four
nodes (`migrate_laid`). `Laid` counts the nodes, and has the names and the keys
of a type in view as `Spans` has those of the type before. It also says where a
function type may be a member of a union or an intersection (`isFenced`).
-/

namespace Retype

/-! ## What a type consists of -/

/-- How many names a name is made of. -/
def TsEntity.height : TsEntity → Nat
  | name _ => 1
  | qualified _ left _ => left.height + 1

/-- The bounds and defaults of type parameters. -/
def TsTypeParams.types (params : TsTypeParams TsType) : List TsType :=
  params.params.flatMap fun p => p.bound.toList ++ p.default.toList

/-- The types in a signature. -/
def TsSignature.types (s : TsSignature TsType) : List TsType :=
  s.params.map (·.type) ++ s.result :: (s.typeParams.map (·.types)).getD []

/-- The types in a member of a literal type. -/
def TsMember.types : TsMember TsType → List TsType
  | property _ _ type _ _ _ => [type]
  | method _ _ signature _ _ => signature.types
  | index _ _ key value _ => [key, value]

/-- The key of a member that has one. -/
def TsMember.key? : TsMember TsType → Option Json
  | property _ key _ _ _ _ => some key
  | method _ key _ _ _ => some key
  | index _ _ _ _ _ => none

namespace TsType

/-- The types that a type consists of. -/
def parts : TsType → List TsType
  | keyword _ _ => []
  | this _ => []
  | literal _ _ => []
  | array _ element => [element]
  | tuple _ types => types
  | union _ types => types
  | intersection _ types => types
  | parenthesized _ inner => [inner]
  | function _ signature => signature.types
  | reference _ _ args => (args.map (·.params)).getD []
  | operator _ _ inner => [inner]
  | indexedAccess _ object index => [object, index]
  | query _ _ => []
  | typeLiteral _ members => members.flatMap TsMember.types

/-- The keys of the members of a literal type. -/
def keys : TsType → List Json
  | .typeLiteral _ members => members.filterMap TsMember.key?
  | _ => []

/-- The name that a reference or a query refers to. -/
def name? : TsType → Option TsEntity
  | reference _ name _ => some name
  | query _ name => some name
  | _ => none

/-- Whether a type is a function type, without parentheses. -/
def isFunction : TsType → Bool
  | function _ _ => true
  | _ => false

/-- Whether some types are a function and `undefined`, or a function, `null` and
`undefined`. -/
def areBare : List TsType → Bool
  | [first, last] => first.isFunction && last.isWord .undefined
  | [first, second, last] => first.isFunction && second.isWord .null && last.isWord .undefined
  | _ => false

/-- Whether no member of a type is a bare function, but in a union with `undefined`, or
with `null` and `undefined`. -/
def isFenced : TsType → Bool
  | intersection _ types => types.all (!·.isFunction)
  | union _ types => types.all (!·.isFunction) || areBare types
  | _ => true

variable (t : TsType) (node : Json)

/-- The node a type comes from is no part of it. -/
@[simp] theorem parts_withOrigin : (t.withOrigin node).parts = t.parts := by cases t <;> rfl

/-- The node a type comes from is no key of it. -/
@[simp] theorem keys_withOrigin : (t.withOrigin node).keys = t.keys := by cases t <;> rfl

/-- The node a type comes from changes no name. -/
@[simp] theorem name?_withOrigin : (t.withOrigin node).name? = t.name? := by cases t <;> rfl

/-- The node a type comes from changes no parentheses. -/
@[simp] theorem isFenced_withOrigin : (t.withOrigin node).isFenced = t.isFenced := by
  cases t <;> rfl

/-- In parentheses a function type is no bare function type. -/
@[simp] theorem isFunction_parenthesizeFunction : t.parenthesizeFunction.isFunction = false := by
  cases t <;> rfl

/-- Members none of which is a function type need no parentheses. -/
theorem all_not_isFunction {ts : List TsType} (h : ∀ u ∈ ts, u.isFunction = false) :
    ts.all (!·.isFunction) = true := by simpa using h

/-- A type without functions among its parts. -/
theorem isFenced_of_parts {t : TsType} (h : ∀ u ∈ t.parts, u.isFunction = false) :
    t.isFenced = true := by
  cases t with
  | union origin types => exact Bool.or_eq_true_iff.2 (.inl (all_not_isFunction h))
  | intersection origin types => exact all_not_isFunction h
  | _ => rfl

end TsType

namespace Migration

open Retype.Flow (Spans)

variable {K : Json → Prop}

/-- A type is written so many nodes deep at most; its keys, for which a
condition holds, may each be read as a type again. Functions among the members
of a union or an intersection are fenced. -/
inductive Laid (K : Json → Prop) : Nat → TsType → Prop
  | intro {k : Nat} {t : TsType} (parts : ∀ u ∈ t.parts, Laid K k u)
      (keys : ∀ key ∈ t.keys, 8 * key.nesting + 4 ≤ k ∧ K key)
      (name : ∀ e, t.name? = some e → e.height ≤ k + 3) (fenced : t.isFenced = true) :
      Laid K (k + 4) t

namespace Laid

/-- What is laid within a bound is laid within a larger one. -/
theorem mono {k k' : Nat} {t : TsType} (h : Laid K k t) (hk : k ≤ k') : Laid K k' t := by
  induction h generalizing k' with
  | @intro k t _ keys name fenced ih =>
    obtain ⟨m, rfl⟩ : ∃ m, k' = m + 4 := ⟨k' - 4, by omega⟩
    have hm : k ≤ m := Nat.le_of_add_le_add_right hk
    refine .intro (fun u hu => ih u hu hm) (fun key hkey => ?_) (fun e he => ?_) fenced
    · exact (keys key hkey).imp_left fun hle => Nat.le_trans hle hm
    · exact Nat.le_trans (name e he) (Nat.add_le_add_right hm 3)

/-- A type without parts, keys and names. -/
theorem leaf (k : Nat) {t : TsType} (hparts : t.parts = []) (hkeys : t.keys = [])
    (hname : t.name? = none) : Laid K (k + 4) t :=
  .intro (by simp [hparts]) (by simp [hkeys]) (by simp [hname])
    (TsType.isFenced_of_parts (by simp [hparts]))

/-- A keyword is laid within four nodes. -/
theorem word {k : Nat} (w : TsKeyword) : Laid K (k + 4) (.word w) := .leaf k rfl rfl rfl

/-- A type that is not a literal type, nor a name. -/
theorem of_parts {k : Nat} {t : TsType} (h : ∀ u ∈ t.parts, Laid K k u) (hkeys : t.keys = [])
    (hname : t.name? = none) (hfenced : t.isFenced = true) : Laid K (k + 4) t :=
  .intro h (by simp [hkeys]) (by simp [hname]) hfenced

/-- Where a type comes from makes no difference. -/
theorem withOrigin {k : Nat} {t : TsType} (h : Laid K k t) (node : Json) :
    Laid K k (t.withOrigin node) := by
  cases h with
  | intro hparts hkeys hname hfenced =>
    exact .intro (by simpa) (by simpa) (by simpa) (by simpa)

/-- Parentheses take four more. -/
theorem parenthesizeFunction {k : Nat} {t : TsType} (h : Laid K k t) :
    Laid K (k + 4) t.parenthesizeFunction := by
  unfold TsType.parenthesizeFunction
  split
  · exact .of_parts (List.forall_mem_singleton.2 h) rfl rfl rfl
  · exact h.mono (Nat.le_add_right k 4)

/-- A reference is laid four above its name and its arguments. -/
theorem reference {k : Nat} {name : TsEntity} {args : Option (TsArgs TsType)}
    (hname : name.height ≤ k + 3) (hargs : ∀ as, args = some as → ∀ u ∈ as.params, Laid K k u) :
    Laid K (k + 4) (.reference none name args) := by
  refine .intro ?_ nofun ?_ rfl
  · cases args with
    | none => exact nofun
    | some as => exact hargs as rfl
  · rintro _ ⟨⟩
    exact hname

end Laid

/-! ## References and unions -/

variable (c : TypeContext) {k : Nat}

/-- So is an alias of `any`. -/
theorem anyAlias_laid (a : AnyAlias) {args : Option (TsArgs TsType)}
    (hargs : ∀ as, args = some as → ∀ u ∈ as.params, Laid K k u) :
    (anyAlias a args).Yields (Laid K (k + 4)) :=
  .bind (.trivial _ fun _ => .pure (.reference (Nat.le_add_left 1 (k + 2)) hargs))

/-- A reference to one of the known names of one or two parts. -/
theorem Laid.known {name : TsEntity} {args : Option (TsArgs TsType)} (hname : name.height ≤ 3)
    (hargs : ∀ as, args = some as → ∀ u ∈ as.params, Laid K k u) :
    Laid K (k + 4) (.reference none name args) :=
  .reference (Nat.le_trans hname (Nat.le_add_left 3 k)) hargs

/-- What a reference becomes stays within eight. -/
theorem migrateReference_laid {name : TsEntity} {args : Option (TsArgs TsType)}
    (hname : name.height ≤ k + 7) (hargs : ∀ as, args = some as → ∀ u ∈ as.params, Laid K k u) :
    (migrateReference c name args).Yields (Laid K (k + 8)) := by
  have hargs' : ∀ as, args = some as → ∀ u ∈ as.params, Laid K (k + 4) u :=
    fun as has u hu => (hargs as has u hu).mono (Nat.le_add_right k 4)
  -- The rules that replace a reference by its arguments take them from here.
  have hparams : ∀ t ∈ (args.map (·.params)).getD [], Laid K (k + 4) t := by
    cases args with
    | none => exact nofun
    | some as => exact hargs' as rfl
  rw [migrateReference]
  split
  next => exact anyAlias_laid .object nofun
  next => exact anyAlias_laid .function nofun
  next => exact .pure (.known (by decide) hargs')
  next => exact .pure (.known (by decide) hargs')
  next t _ heq => exact .pure (.of_parts (by simpa [heq, TsType.parts] using hparams) rfl rfl rfl)
  next => exact .pure (.known (by simp [TsEntity.ofPair, TsEntity.ofText, TsEntity.height]) hargs')
  next => exact .pure (.known (by decide) hargs')
  next t _ heq => exact .pure ((hparams t (by simp [heq])).mono (Nat.le_add_right _ 4))
  next => exact anyAlias_laid .subtype hargs'
  next heq => exact .pure (.of_parts (by simpa [heq, TsType.parts] using hparams) rfl rfl rfl)
  next heq => exact .pure (.of_parts (by simpa [heq, TsType.parts] using hparams) rfl rfl rfl)
  next => exact .pure (.known (by decide) nofun)
  next =>
    refine .ite (fun _ => .pure (.known (by decide) hargs')) fun _ => ?_
    refine .pure (.known (by decide) ?_)
    rintro _ ⟨⟩
    exact List.forall_mem_singleton.2 (.known (by decide) hargs)
  next => exact .first (.pure (.reference hname hargs'))

/-- A union of bracketed members is laid four above them. -/
theorem unionOf_laid {ts : List TsType} (h : ∀ t ∈ ts, Laid K k t)
    (hbare : ∀ t ∈ ts, t.isFunction = false) : Laid K (k + 4) (unionOf ts) := by
  rw [unionOf]
  split
  next t ht => exact (h t (List.mem_of_find?_eq_some ht)).mono (Nat.le_add_right k 4)
  next => exact .of_parts h rfl rfl (TsType.isFenced_of_parts hbare)

/-- A qualified name keeps its height. -/
theorem migrateEntity_height (e : FlowEntity) : (migrateEntity e).height = e.height := by
  induction e with
  | name n => rfl
  | qualified node q id ih => simp [migrateEntity, TsEntity.height, FlowEntity.height, ih]

/-- What `typeof` becomes is laid within eight times the span of what it stands on. -/
theorem migrateTypeof_laid {d : Nat} {t : FlowType} (h : Spans K d t) :
    (migrateTypeof c t).Yields (Laid K (8 * d)) := by
  obtain ⟨_, _, hname⟩ := h
  unfold migrateTypeof
  split
  next node id args _ _ =>
    split
    · exact .refuse _
    · refine .pure (.intro (k := 8 * _ + 4) nofun nofun ?_ rfl)
      rintro _ ⟨⟩
      have hheight := hname id rfl
      rw [migrateEntity_height]
      omega
  next => exact .refuse _

/-! ## Objects -/

/-- What holds of a member of a literal type that lies so deep. -/
structure MemberLaid (K : Json → Prop) (k : Nat) (m : TsMember TsType) : Prop where
  types : ∀ u ∈ m.types, Laid K k u
  key : ∀ key, m.key? = some key → 8 * key.nesting + 4 ≤ k ∧ K key

/-- What holds of a part of an object. -/
def PartLaid (K : Json → Prop) (k : Nat) : ObjectPart → Prop
  | .member m => MemberLaid K k m
  | .type t => Laid K (k + 4) t ∧ t.isFunction = false

/-- A type literal is laid four above its members. -/
theorem Laid.typeLiteral {members : List (TsMember TsType)} (h : ∀ m ∈ members, MemberLaid K k m) :
    Laid K (k + 4) (.typeLiteral none members) := by
  refine .intro (fun u hu => ?_) (fun key hkey => ?_) nofun rfl
  · obtain ⟨m, hm, hu⟩ := List.mem_flatMap.1 hu
    exact (h m hm).types u hu
  · obtain ⟨m, hm, hkey⟩ := List.mem_filterMap.1 hkey
    exact (h m hm).key key hkey

/-- The object built from its parts is laid eight above them. -/
theorem objectOfParts_laid {parts : List ObjectPart} (h : ∀ p ∈ parts, PartLaid K k p) :
    Laid K (k + 8) (objectOfParts parts) := by
  have hts : ∀ t ∈ gatherParts [] parts, Laid K (k + 4) t ∧ t.isFunction = false := by
    refine gatherParts_each (M := MemberLaid K k) (fun ms hms => ⟨.typeLiteral hms, rfl⟩) nofun ?_
    intro p hp
    cases p with
    | member m => exact h _ hp
    | type t => exact h _ hp
  rw [objectOfParts]
  split
  next => exact .leaf _ rfl rfl rfl
  next t heq => exact (hts t (by simp [heq])).1.mono (Nat.le_add_right _ 4)
  next =>
    exact .of_parts (fun t ht => (hts t ht).1) rfl rfl
      (TsType.isFenced_of_parts fun t ht => (hts t ht).2)

/-- A property's member is laid as its key and its value are. -/
theorem propertyMember_laid {node key : Json} {traits : PropertyTraits} {value : TsType}
    (hkey : 8 * key.nesting + 4 ≤ k ∧ K key) (hvalue : Laid K k value) :
    (propertyMember c node key traits value).Yields (MemberLaid K k) := by
  have hmember (m : TsMember TsType) (htypes : ∀ u ∈ m.types, Laid K k u)
      (hm : m.key? = some key) : MemberLaid K k m :=
    ⟨htypes, fun key' hkey' => by
      obtain rfl : key = key' := Option.some.inj (hm.symm.trans hkey')
      exact hkey⟩
  unfold propertyMember
  refine .ite (fun _ => ?_) fun _ => ?_
  · split
    next signature =>
      -- the parts of the method are those of the function type
      refine .pure (hmember _ ?_ rfl)
      generalize hk : k = k' at hvalue
      cases hvalue with
      | intro hparts _ _ _ =>
        subst hk
        exact fun u hu => (hparts u hu).mono (Nat.le_add_right _ 4)
    next => exact .refuse _
  · exact .pure (hmember _ (List.forall_mem_singleton.2 hvalue) rfl)

/-- An indexer's part is laid as its two types are. -/
theorem indexerPart_laid (node : Json) (name : Option String) {key value : TsType}
    (hkey : Laid K k key) (hvalue : Laid K k value) (variance : Option Variance) :
    PartLaid K k (indexerPart c node name key value variance) := by
  have htypes : ∀ u ∈ [key, value], Laid K k u :=
    List.forall_mem_cons.2 ⟨hkey, List.forall_mem_singleton.2 hvalue⟩
  rw [indexerPart]
  split
  · exact ⟨htypes, nofun⟩
  · refine ⟨Laid.known (by simp [TsEntity.ofPair, TsEntity.ofText, TsEntity.height]) ?_, rfl⟩
    rintro _ ⟨⟩
    exact htypes

/-! ## Lists of parts -/

/-- What a rewriting does to each type in a list, it does to what becomes of
the list. -/
def Becomes (c : TypeContext) (K : Json → Prop) (k : Nat) (ts : List FlowType) : Prop :=
  ∀ t ∈ ts, (migrate c t).Yields (Laid K k)

section Each

variable {Q : TsType → Prop}

/-- What each type of a list yields, the list yields of each. -/
theorem migrateAll_each {ts : List FlowType} (h : ∀ t ∈ ts, (migrate c t).Yields Q) :
    (migrateAll c ts).Yields fun us => ∀ u ∈ us, Q u := by
  induction ts with
  | nil => exact .pure nofun
  | cons t ts ih =>
    rw [List.forall_mem_cons] at h
    refine .bind (h.1.mono fun u hu => .bind ((ih h.2).mono fun us hus => .pure ?_))
    exact List.forall_mem_cons.2 ⟨hu, hus⟩

/-- The same of a type that may be absent. -/
theorem migrateOption_each {t : Option FlowType} (h : ∀ u ∈ t.toList, (migrate c u).Yields Q) :
    (migrateOption c t).Yields fun u => ∀ v ∈ u.toList, Q v := by
  cases t with
  | none => exact .pure nofun
  | some t =>
    exact .bind ((h t List.mem_cons_self).mono fun u hu => .pure (List.forall_mem_singleton.2 hu))

/-- The same of type arguments. -/
theorem migrateArgs_each {args : FlowArgs FlowType}
    (h : ∀ t ∈ args.params, (migrate c t).Yields Q) :
    (migrateArgs c args).Yields fun as => ∀ u ∈ as.params, Q u := by
  obtain ⟨node, params⟩ := args
  exact .bind ((migrateAll_each c h).mono fun _ hus => .pure hus)

/-- The same of type arguments that may be absent. -/
theorem migrateArgsOption_each {args : Option (FlowArgs FlowType)}
    (h : ∀ t ∈ (args.map (·.params)).getD [], (migrate c t).Yields Q) :
    (migrateArgsOption c args).Yields fun args => ∀ as, args = some as → ∀ u ∈ as.params, Q u := by
  match args with
  | none => exact .pure nofun
  | some ⟨_, []⟩ => exact .pure nofun
  | some ⟨node, t :: ts⟩ =>
    refine .bind ((migrateArgs_each c h).mono fun as has => .pure ?_)
    rintro _ ⟨⟩
    exact has

/-- The same of the bounds and defaults of type parameters. -/
theorem migrateTypeParamList_each {params : List (FlowTypeParam FlowType)}
    (h : ∀ t ∈ params.flatMap fun p => p.bound.toList ++ p.default.toList,
      (migrate c t).Yields Q) :
    (migrateTypeParamList c params).Yields fun ps =>
      ∀ u ∈ ps.flatMap fun p => p.bound.toList ++ p.default.toList, Q u := by
  induction params with
  | nil => exact .pure nofun
  | cons p rest ih =>
    obtain ⟨node, name, bound, default, variance⟩ := p
    simp only [List.flatMap_cons, List.forall_mem_append] at h
    refine .first (.bind ((migrateOption_each c h.1.1).mono fun bound hbound => ?_))
    refine .bind ((migrateOption_each c h.1.2).mono fun default hdefault => ?_)
    refine .bind ((ih h.2).mono fun ps hps => .pure ?_)
    simp only [List.flatMap_cons, List.forall_mem_append]
    exact ⟨⟨hbound, hdefault⟩, hps⟩

/-- The same of type parameters with their node. -/
theorem migrateTypeParams_each {params : FlowTypeParams FlowType}
    (h : ∀ t ∈ params.types, (migrate c t).Yields Q) :
    (migrateTypeParams c params).Yields fun ps => ∀ u ∈ ps.types, Q u := by
  obtain ⟨node, params⟩ := params
  exact .bind ((migrateTypeParamList_each c h).mono fun _ hps => .pure hps)

/-- The same of type parameters that may be absent. -/
theorem migrateTypeParamsOption_each {params : Option (FlowTypeParams FlowType)}
    (h : ∀ t ∈ (params.map (·.types)).getD [], (migrate c t).Yields Q) :
    (migrateTypeParamsOption c params).Yields fun params =>
      ∀ u ∈ (params.map (·.types)).getD [], Q u := by
  cases params with
  | none => exact .pure nofun
  | some params => exact .bind ((migrateTypeParams_each c h).mono fun _ hps => .pure hps)

/-- The same of the types of parameters. -/
theorem migrateParams_each {params : List (FlowParam FlowType)}
    (h : ∀ t ∈ params.map (·.type), (migrate c t).Yields Q) (number : Nat) :
    (migrateParams c number params).Yields fun ps => ∀ u ∈ ps.map (·.type), Q u := by
  induction params generalizing number with
  | nil => exact .pure nofun
  | cons p rest ih =>
    rw [List.map_cons, List.forall_mem_cons] at h
    refine .bind (h.1.mono fun u hu => .bind ((ih h.2 _).mono fun ps hps => .pure ?_))
    rw [List.map_cons, List.forall_mem_cons]
    exact ⟨hu, hps⟩

/-- The same of the `this` parameter. -/
theorem migrateThis_each {param : Option (FlowParam FlowType)}
    (h : ∀ t ∈ param.toList.map (·.type), (migrate c t).Yields Q) :
    (migrateThis c param).Yields fun ps => ∀ u ∈ ps.map (·.type), Q u := by
  cases param with
  | none => exact .pure nofun
  | some p =>
    exact .bind ((h p.type List.mem_cons_self).mono fun u hu =>
      .pure (List.forall_mem_singleton.2 hu))

/-- The same of the rest parameter. -/
theorem migrateRest_each {param : Option (FlowParam FlowType)}
    (h : ∀ t ∈ param.toList.map (·.type), (migrate c t).Yields Q) :
    (migrateRest c param).Yields fun ps => ∀ u ∈ ps.map (·.type), Q u := by
  cases param with
  | none => exact .pure nofun
  | some p =>
    exact .bind ((h p.type List.mem_cons_self).mono fun u hu =>
      .pure (List.forall_mem_singleton.2 hu))

/-- The same of an object's members. -/
theorem migrateMembers_each {P : ObjectPart → Prop} {members : List (FlowMember FlowType)}
    (h : ∀ m ∈ members, (migrateMember c m).Yields P) :
    (migrateMembers c members).Yields fun ps => ∀ p ∈ ps, P p := by
  induction members with
  | nil => exact .pure nofun
  | cons m rest ih =>
    rw [List.forall_mem_cons] at h
    refine .bind (h.1.mono fun p hp => .bind ((ih h.2).mono fun ps hps => .pure ?_))
    exact List.forall_mem_cons.2 ⟨hp, hps⟩

end Each

/-- A member whose types become something laid is a part laid above them. -/
theorem migrateMember_laid {m : FlowMember FlowType} (h : Becomes c K k m.types)
    (hkey : ∀ key, m.key? = some key → 8 * key.nesting + 4 ≤ k ∧ K key) :
    (migrateMember c m).Yields (PartLaid K k) := by
  cases m with
  | property node key value traits =>
    refine .bind (.trivial _ fun _ => .bind ((h value List.mem_cons_self).mono fun u hu => ?_))
    exact .bind ((propertyMember_laid c (hkey key rfl) hu).mono fun m hm => .pure hm)
  | spread node argument =>
    exact .bind ((h argument List.mem_cons_self).mono fun u hu =>
      .pure ⟨Laid.of_parts (List.forall_mem_singleton.2 hu) rfl rfl rfl, rfl⟩)
  | indexer node id key value variance isStatic =>
    rw [Becomes, FlowMember.types, List.forall_mem_cons, List.forall_mem_singleton] at h
    refine .first (.first (.bind (h.1.mono fun t ht => .bind (h.2.mono fun u hu => .pure ?_))))
    exact indexerPart_laid c node id ht hu variance
  | callProperty node value => exact .refuse _
  | internalSlot node id => exact .refuse _

/-! ## Types -/

/-- **How deep a rewritten type is.** A level of the type before accounts for
eight nodes of the type after. -/
theorem migrate_laid {d : Nat} {t : FlowType} (h : Spans K d t) :
    (migrate c t).Yields (Laid K (8 * d)) := by
  induction h with
  | @intro d t hparts hkeys hname ih =>
    replace ih : Becomes c K (8 * d) t.parts := ih
    rw [show 8 * (d + 1) = 8 * d + 8 from rfl]
    cases t with
    | keyword node word =>
      cases word with
      | existential =>
        have halias : (anyAlias .existential none).Yields (Laid K (8 * d + 8)) :=
          anyAlias_laid .existential nofun
        exact .map (halias.mono fun t ht => ht.withOrigin node)
      | interface => exact .refuse _
      | _ => exact .pure (.leaf (8 * d + 4) rfl rfl rfl)
    | literal node v => exact .pure (.leaf (8 * d + 4) rfl rfl rfl)
    | array node t =>
      exact .bind ((ih t List.mem_cons_self).mono fun u hu =>
        .pure (.of_parts
          (List.forall_mem_singleton.2 (hu.mono (Nat.le_add_right _ 4))) rfl rfl rfl))
    | nullable node t =>
      refine .bind ((ih t List.mem_cons_self).mono fun u hu => .pure (.of_parts ?_ rfl rfl ?_))
      · simp only [TsType.parts, List.forall_mem_cons]
        exact ⟨hu.mono (Nat.le_add_right _ 4), .word _, .word _, nofun⟩
      · -- a function stays bare here, with `null` and `undefined`
        cases u <;> rfl
    | tuple node ts =>
      exact .bind ((migrateAll_each c ih).mono fun us hus =>
        .pure (.of_parts (fun u hu => (hus u hu).mono (Nat.le_add_right _ 4)) rfl rfl rfl))
    | union node ts =>
      refine .bind ((migrateAll_each c ih).mono fun us hus => .pure ?_)
      refine (unionOf_laid ?_ ?_).withOrigin node
      · exact List.forall_mem_map.2 fun u hu => (hus u hu).parenthesizeFunction
      · exact List.forall_mem_map.2 fun u _ => u.isFunction_parenthesizeFunction
    | intersection node ts =>
      refine .bind ((migrateAll_each c ih).mono fun us hus => .pure (.of_parts ?_ rfl rfl ?_))
      · exact List.forall_mem_map.2 fun u hu => (hus u hu).parenthesizeFunction
      · refine TsType.isFenced_of_parts (List.forall_mem_map.2 fun u _ => ?_)
        exact u.isFunction_parenthesizeFunction
    | typeof node t =>
      refine .map ((migrateTypeof_laid c (hparts t List.mem_cons_self)).mono fun u hu => ?_)
      exact (hu.mono (Nat.le_add_right _ 8)).withOrigin node
    | indexedAccess node object index =>
      rw [FlowType.parts, Becomes, List.forall_mem_cons, List.forall_mem_singleton] at ih
      refine .bind (ih.1.mono fun t ht => .bind (ih.2.mono fun u hu =>
        .pure (.of_parts ?_ rfl rfl rfl)))
      simp only [TsType.parts, List.forall_mem_cons]
      exact ⟨ht.mono (Nat.le_add_right _ 4), hu.mono (Nat.le_add_right _ 4), nofun⟩
    | optionalIndexedAccess node object index => exact .refuse _
    | generic node id args =>
      have hheight := hname id rfl
      refine .bind ((migrateArgsOption_each c ih).mono fun args hargs => .map ?_)
      refine (migrateReference_laid c ?_ hargs).mono fun u hu => hu.withOrigin node
      rw [migrateEntity_height]
      omega
    | function node params result rest thisParam typeParams =>
      simp only [FlowType.parts, Becomes, List.cons_append, List.map_append, List.forall_mem_cons,
        List.forall_mem_append] at ih
      obtain ⟨hresult, ⟨⟨hparams, hrest⟩, hthis⟩, htypeParams⟩ := ih
      refine .bind ((migrateThis_each c hthis).mono fun this' hthis => ?_)
      refine .bind ((migrateParams_each c hparams 1).mono fun params' hparams => ?_)
      refine .bind ((migrateRest_each c hrest).mono fun rest' hrest => ?_)
      refine .bind (hresult.mono fun result' hresult => ?_)
      refine .bind ((migrateTypeParamsOption_each c htypeParams).mono fun ps hps => .pure ?_)
      refine Laid.mono (.of_parts (k := 8 * d) ?_ rfl rfl rfl) (Nat.le_add_right _ 4)
      simp only [TsType.parts, TsSignature.types, List.map_append, List.forall_mem_append,
        List.forall_mem_cons]
      exact ⟨⟨⟨hthis, hparams⟩, hrest⟩, hresult, hps⟩
    | object node members exact =>
      refine .bind ((migrateMembers_each c fun m hm => migrateMember_laid c ?_ ?_).mono
        fun ps hps => .pure ((objectOfParts_laid hps).withOrigin node))
      · exact fun u hu => ih u (List.mem_flatMap.2 ⟨m, hm, hu⟩)
      · intro key hkey
        have hkey := hkeys key (List.mem_filterMap.2 ⟨m, hm, hkey⟩)
        exact hkey.imp_left fun hlt => by omega

end Migration

end Retype
