import Retype.Proofs.Migration.Becoming
import Retype.Proofs.Migration.Formed
import Retype.Proofs.Report.Algebra
/-!
# What is found in a type

What the rewriting of a type records, as a multiset: what each type in it
records by itself, each type once (`migrate_findings`). A type records by itself
only the marks of its parameters and members, a utility type without a rule, and
an alias of `any`. So the places in a report grow by the marks in the type, and
the utility types by the names without a rule (`marks_recorded`).
-/

namespace Retype

namespace FlowEntity

/-- The dotted text of a name. -/
def text : FlowEntity → String
  | name n => n.text
  | qualified _ qualification id => qualification.text ++ "." ++ id.text

end FlowEntity

namespace Migration

/-- The location that is recorded for a node: its own one, or the unknown one. -/
def placeOf (path : String) (n : Json) : Location :=
  ((Location.ofNode? path n).toOption.getD none).getD (Location.unknown path)

end Migration

/-! ## Marks -/

/-- Whether a category is about a type parameter. -/
def FlowTypeParam.isMarked {τ : Type} (category : PlaceCategory) (p : FlowTypeParam τ) : Bool :=
  category == .typeParameterWithVariance && p.variance.isSome

/-- Whether a category is about a member of an object type. -/
def FlowMember.isMarked {τ : Type} (category : PlaceCategory) : FlowMember τ → Bool
  | property _ key _ traits =>
    category == .objectPropertyWithMinusVariance && traits.variance == some .minus ||
      category == .objectPropertyWithInternalName && key.hasText "type" "Identifier" &&
        Migration.isInternal (((key.get? "name").map Json.text).getD "")
  | indexer _ _ _ _ variance _ =>
    category == .objectPropertyWithMinusVariance && variance == some .minus
  | _ => false

namespace FlowType

/-- The nodes in a type that a category is about, those in its parts aside. -/
def marks (category : PlaceCategory) : FlowType → List Json
  | function _ _ _ _ _ typeParams =>
    (((typeParams.map (·.params)).getD []).filter (·.isMarked category)).map (·.node)
  | object _ members _ => (members.filter (·.isMarked category)).map (·.node)
  | _ => []

/-- The names with a rule, and the number of arguments that each rule takes. -/
def ruledNames : List (String × Nat) :=
  [("Object", 0), ("Function", 0), ("$ReadOnlyArray", 1), ("$ReadOnly", 1), ("$Keys", 1),
    ("$Values", 1), ("$Shape", 1), ("$Exact", 1), ("$Subtype", 1), ("$PropertyType", 2),
    ("$ElementType", 2), ("React.Node", 0), ("React.Element", 1)]

/-- The utility type that a type is, if no rule covers it. -/
def unknownUtility? : FlowType → Option String
  | generic _ id args =>
    if Migration.isInternal id.text ∧
        (id.text, ((args.map (·.params)).getD []).length) ∉ ruledNames then some id.text
    else none
  | _ => none

/-- The parts of a type that are rewritten: the argument of `typeof` is not. -/
def operands : FlowType → List FlowType
  | typeof .. => []
  | t => t.parts

/-- What is rewritten in a type is part of it. -/
theorem mem_parts_of_mem_operands {t u : FlowType} (h : u ∈ t.operands) : u ∈ t.parts := by
  cases t with
  | typeof => cases h
  | _ => exact h

/-- A type and the types in it, at every depth. -/
def everything (t : FlowType) : List FlowType := t :: t.parts.attach.flatMap fun u => u.1.everything
termination_by sizeOf t
decreasing_by exact sizeOf_lt_of_mem_parts u.2

/-- A type and the types in it that are rewritten, at every depth. -/
def rewritten (t : FlowType) : List FlowType :=
    t :: t.operands.attach.flatMap fun u => u.1.rewritten
termination_by sizeOf t
decreasing_by exact sizeOf_lt_of_mem_parts (mem_parts_of_mem_operands u.2)

variable (t : FlowType)

/-- All types in a type are itself and those in its parts. -/
theorem everything_eq : t.everything = t :: t.parts.flatMap everything := by
  rw [everything, List.flatMap_subtype (fun _ _ => rfl), List.unattach_attach]

/-- The types that are rewritten are the type and those in its operands. -/
theorem rewritten_eq : t.rewritten = t :: t.operands.flatMap rewritten := by
  rw [rewritten, List.flatMap_subtype (fun _ _ => rfl), List.unattach_attach]

end FlowType

namespace Migration

variable (c : TypeContext)

/-! ## What a type records by itself -/

/-- The categories of the marks of types, in the order in which they are recorded. -/
def markCategories : List PlaceCategory :=
  [.typeParameterWithVariance, .objectPropertyWithInternalName, .objectPropertyWithMinusVariance]

/-- What is recorded for a node with some marks. -/
def markFindings (isMarked : PlaceCategory → Bool) (n : Json) : List Finding :=
  (markCategories.filter isMarked).map fun category => .place category (placeOf c.path n)

def typeParamFindings (p : FlowTypeParam FlowType) : List Finding :=
  markFindings c (fun category => p.isMarked category) p.node

def memberFindings (m : FlowMember FlowType) : List Finding :=
  markFindings c (fun category => m.isMarked category) m.node

/-- The rules that make an alias of `any`. -/
def aliasRules : List ((String × Nat) × AnyAlias) :=
  [(("Object", 0), .object), (("Function", 0), .function), (("$Subtype", 1), .subtype)]

/-- What is recorded for a reference with some arguments. -/
def referenceFindings (text : String) (args : Nat) : List Finding :=
  match aliasRules.lookup (text, args) with
  | some a => [.anyAlias a.name]
  | none =>
    if isInternal text ∧ (text, args) ∉ FlowType.ruledNames then [.utilityType text] else []

/-- What is recorded for a type, what is recorded for its parts aside. -/
def ownFindings : FlowType → List Finding
  | .keyword _ .existential => [.anyAlias AnyAlias.existential.name]
  | .generic _ id args => referenceFindings id.text ((args.map (·.params)).getD []).length
  | .function _ _ _ _ _ typeParams =>
    ((typeParams.map (·.params)).getD []).flatMap (typeParamFindings c)
  | .object _ members _ => members.flatMap (memberFindings c)
  | _ => []

/-- Some types were rewritten, and what was recorded is what was recorded for
each of them, once, beside some findings. -/
structure Recording (own : List Finding) (ts : List FlowType) (fs : List Finding) : Prop where
  findings : fs.Perm (own ++ ts.flatMap fun t => (migrate c t).findings)
  succeeded : ∀ t ∈ ts, ∃ u, (migrate c t).result = .ok u

namespace Recording

variable {c} {own own' fs fs' : List Finding} {ts ts' : List FlowType}

/-- Nothing records nothing. -/
theorem nil : Recording c [] [] [] := ⟨.nil, List.forall_mem_nil _⟩

/-- What two parts record is recorded part by part. -/
theorem append (h : Recording c own ts fs) (h' : Recording c own' ts' fs') :
    Recording c (own ++ own') (ts ++ ts') (fs ++ fs') where
  findings := by
    refine (h.findings.append h'.findings).trans ?_
    rw [List.flatMap_append, List.append_assoc, List.append_assoc, List.perm_append_left_iff,
      ← List.append_assoc, ← List.append_assoc, List.perm_append_right_iff]
    exact List.perm_append_comm
  succeeded := List.forall_mem_append.2 ⟨h.succeeded, h'.succeeded⟩

/-- Records count, not the order in which parts are met. -/
theorem congr (h : Recording c own ts fs) (hown : own = own') (hts : ts.Perm ts') :
    Recording c own' ts' fs where
  findings := h.findings.trans (hown ▸ (hts.flatMap_right _).append_left _)
  succeeded t ht := h.succeeded t (hts.mem_iff.2 ht)

/-- What is recorded for no type. -/
theorem alone (fs : List Finding) : Recording c fs [] fs :=
  ⟨.of_eq (List.append_nil fs).symm, List.forall_mem_nil _⟩

/-- What is recorded first. -/
theorem noted (h : Recording c own ts fs) (gs : List Finding) :
    Recording c (gs ++ own) ts (gs ++ fs) := (Recording.alone gs).append h

end Recording

/-- One type. -/
theorem migrate_recording (t : FlowType) :
    (migrate c t).Gives fun fs _ => Recording c [] [t] fs :=
  fun u hu => ⟨.of_eq (by simp), List.forall_mem_singleton.2 ⟨u, hu⟩⟩

/-- A list of types records what its types do. -/
theorem migrateAll_recording (ts : List FlowType) :
    (migrateAll c ts).Gives fun fs _ => Recording c [] ts fs := by
  induction ts with
  | nil => exact .pure .nil
  | cons t ts ih =>
    exact .bind ((migrate_recording c t).mono fun fs u hu => .last (ih.mono fun gs us hus =>
      hu.append hus))

/-- A type that may be absent records what it does if it is there. -/
theorem migrateOption_recording (t : Option FlowType) :
    (migrateOption c t).Gives fun fs _ => Recording c [] t.toList fs := by
  cases t with
  | none => exact .pure .nil
  | some t => exact .last ((migrate_recording c t).mono fun _ _ hu => hu)

/-- Type arguments record what their types do. -/
theorem migrateArgsOption_recording (args : Option (FlowArgs FlowType)) :
    (migrateArgsOption c args).Gives fun fs _ =>
      Recording c [] ((args.map (·.params)).getD []) fs := by
  match args with
  | none => exact .pure .nil
  | some ⟨_, []⟩ => exact .pure .nil
  | some ⟨node, t :: ts⟩ =>
    have hargs : (migrateArgs c ⟨node, t :: ts⟩).Gives fun fs _ => Recording c [] (t :: ts) fs :=
      .last (migrateAll_recording c (t :: ts))
    exact .last hargs

/-- A place that was read is the place of its node. -/
theorem placeOf_of_ofNodeOrRefuse {path : String} {n : Json} {l : Location}
    (h : Location.ofNodeOrRefuse path n = .ok l) : l = placeOf path n := by
  rw [Location.ofNodeOrRefuse, Location.ofNode] at h
  rw [placeOf]
  cases hnode : Location.ofNode? path n with
  | error e =>
    rw [hnode] at h
    cases h
  | ok found =>
    rw [hnode] at h
    exact (Except.ok.inj h).symm

/-- A place is recorded for a node, or the node is refused. -/
theorem notePlace_gives (category : PlaceCategory) (n : Json) :
    (notePlace c category n).Gives fun fs _ => fs = [.place category (placeOf c.path n)] := by
  intro a ha
  rw [notePlace] at ha ⊢
  cases hl : Location.ofNodeOrRefuse c.path n with
  | error e =>
    rw [hl] at ha
    cases ha
  | ok l =>
    rw [← placeOf_of_ofNodeOrRefuse hl]
    rfl

/-- A mark is recorded before the rest. -/
theorem mark_first {α : Type} {isMarked : Prop} [Decidable isMarked] {category : PlaceCategory}
    {n : Json} {f : Unit → Recorded α} {P : List Finding → α → Prop}
    (h : (f ()).Gives fun fs a =>
      P ((if isMarked then [Finding.place category (placeOf c.path n)] else []) ++ fs) a) :
    Recorded.Gives (if isMarked then notePlace c category n >>= f else f ()) P := by
  split
  next hmarked =>
    rw [if_pos hmarked] at h
    exact .bind ((notePlace_gives c category n).mono fun fs _ hfs => hfs ▸ h)
  next hplain =>
    rw [if_neg hplain] at h
    exact h

/-- Nothing is refused before the rest. -/
theorem unless_refused {α β : Type} {refused : Prop} [Decidable refused] {n : Json}
    {detail : String} {f : α → Recorded β} {rest : Recorded β} {P : List Finding → β → Prop}
    (h : rest.Gives P) : Recorded.Gives
      (if refused then refuseAt c n detail >>= f else rest) P := by
  split
  · exact .bind (.refuse _)
  · exact h

/-- A type parameter records its variance. -/
theorem typeParamFindings_eq (p : FlowTypeParam FlowType) : typeParamFindings c p =
    if p.variance.isSome = true then
      [.place .typeParameterWithVariance (placeOf c.path p.node)] else [] := by
  rw [typeParamFindings, markFindings, markCategories]
  cases h : p.variance.isSome <;> simp [FlowTypeParam.isMarked, h]

/-- A property records an internal name, a variance, and that it is a prototype's. -/
theorem propertyFindings_eq (node key : Json) (value : FlowType) (traits : PropertyTraits) :
    memberFindings c (.property node key value traits) =
      (if key.hasText "type" "Identifier" = true ∧
          isInternal (((key.get? "name").map Json.text).getD "") = true then
        [Finding.place .objectPropertyWithInternalName (placeOf c.path node)] else []) ++
      if traits.variance = some .minus then
        [Finding.place .objectPropertyWithMinusVariance (placeOf c.path node)] else [] := by
  rw [memberFindings, markFindings, markCategories]
  by_cases hminus : traits.variance = some .minus <;>
    by_cases hname : key.hasText "type" "Identifier" = true ∧
      isInternal (((key.get? "name").map Json.text).getD "") = true <;>
    simp [FlowMember.isMarked, FlowMember.node, hminus, hname]

/-- An indexer records a variance that only allows writing. -/
theorem indexerFindings_eq (node : Json) (id : Option String) (key value : FlowType)
    (variance : Option Variance) (isStatic : Bool) :
    memberFindings c (.indexer node id key value variance isStatic) =
      if variance = some .minus then
        [Finding.place .objectPropertyWithMinusVariance (placeOf c.path node)] else [] := by
  rw [memberFindings, markFindings, markCategories]
  by_cases hminus : variance = some .minus <;>
    simp [FlowMember.isMarked, FlowMember.node, hminus]

/-- Type parameters record their own marks and what their types do. -/
theorem migrateTypeParamList_recording (params : List (FlowTypeParam FlowType)) :
    (migrateTypeParamList c params).Gives fun fs _ =>
      Recording c (params.flatMap (typeParamFindings c))
        (params.flatMap fun p => p.bound.toList ++ p.default.toList) fs := by
  induction params with
  | nil => exact .pure .nil
  | cons p rest ih =>
    obtain ⟨node, name, bound, default, variance⟩ := p
    rw [migrateTypeParamList]
    refine mark_first c ?_
    refine .bind ((migrateOption_recording c bound).mono fun fs bound' hbound => ?_)
    refine .bind ((migrateOption_recording c default).mono fun gs default' hdefault => ?_)
    refine .last (ih.mono fun hs ps hps => ?_)
    have hall := ((hbound.append hdefault).append hps).noted
      (typeParamFindings c ⟨node, name, bound, default, variance⟩)
    rw [List.append_assoc fs, typeParamFindings_eq c] at hall
    rw [List.flatMap_cons, List.flatMap_cons, typeParamFindings_eq c]
    exact hall

theorem migrateTypeParamsOption_recording (params : Option (FlowTypeParams FlowType)) :
    (migrateTypeParamsOption c params).Gives fun fs _ =>
      Recording c (((params.map (·.params)).getD []).flatMap (typeParamFindings c))
        ((params.map (·.types)).getD []) fs := by
  match params with
  | none => exact .pure .nil
  | some ⟨node, params⟩ =>
    have hparams : (migrateTypeParams c ⟨node, params⟩).Gives fun fs _ =>
        Recording c (params.flatMap (typeParamFindings c)) (FlowTypeParams.types ⟨node, params⟩)
          fs := .last (migrateTypeParamList_recording c params)
    exact .last hparams

/-- Parameters record what their types do. -/
theorem migrateParams_recording (params : List (FlowParam FlowType)) (number : Nat) :
    (migrateParams c number params).Gives fun fs _ =>
      Recording c [] (params.map (·.type)) fs := by
  induction params generalizing number with
  | nil => exact .pure .nil
  | cons p rest ih =>
    exact .bind ((migrate_recording c p.type).mono fun fs u hu => .last ((ih _).mono
      fun gs ps hps => hu.append hps))

/-- The parameter `this` records what its type does. -/
theorem migrateThis_recording (param : Option (FlowParam FlowType)) :
    (migrateThis c param).Gives fun fs _ =>
      Recording c [] (param.toList.map (·.type)) fs := by
  cases param with
  | none => exact .pure .nil
  | some p => exact .last ((migrate_recording c p.type).mono fun _ _ hu => hu)

/-- A rest parameter records what its type does. -/
theorem migrateRest_recording (param : Option (FlowParam FlowType)) :
    (migrateRest c param).Gives fun fs _ =>
      Recording c [] (param.toList.map (·.type)) fs := by
  cases param with
  | none => exact .pure .nil
  | some p => exact .last ((migrate_recording c p.type).mono fun _ _ hu => hu)

/-- The marks of a property are its own findings. -/
theorem checkProperty_gives (node key : Json) (value : FlowType) (traits : PropertyTraits) :
    (checkProperty c node key traits).Gives fun fs _ =>
      fs = memberFindings c (.property node key value traits) := by
  rw [checkProperty, propertyFindings_eq]
  refine mark_first c (mark_first c ?_)
  refine unless_refused c (unless_refused c ?_)
  split
  · exact .refuse _
  · exact .pure (by simp)

/-- A property that is written records nothing more. -/
theorem propertyMember_gives (node key : Json) (traits : PropertyTraits) (u : TsType) :
    (propertyMember c node key traits u).Gives fun fs _ => fs = [] := by
  unfold propertyMember
  split
  · split
    · exact .pure rfl
    · exact .refuse _
  · exact .pure rfl

/-- A member records its own marks and what its types do. -/
theorem migrateMember_recording (m : FlowMember FlowType) :
    (migrateMember c m).Gives fun fs _ => Recording c (memberFindings c m) m.types fs := by
  cases m with
  | property node key value traits =>
    refine .bind ((checkProperty_gives c node key value traits).mono fun fs _ hfs => ?_)
    refine .bind ((migrate_recording c value).mono fun gs u hu => .last ?_)
    refine (propertyMember_gives c node key traits u).mono fun hs _ hhs => ?_
    have hall := hu.noted (memberFindings c (.property node key value traits))
    simpa [hfs, hhs, FlowMember.types] using hall
  | spread node argument => exact .last ((migrate_recording c argument).mono fun _ _ hu => hu)
  | indexer node id key value variance isStatic =>
    rw [migrateMember, indexerFindings_eq]
    refine mark_first c (unless_refused c ?_)
    refine .bind ((migrate_recording c key).mono fun fs u hu => ?_)
    refine .last ((migrate_recording c value).mono fun gs v hv => ?_)
    simpa [FlowMember.types] using (hu.append hv).noted _
  | callProperty | internalSlot => exact .refuse _

/-- Members record what each of them does. -/
theorem migrateMembers_recording (members : List (FlowMember FlowType)) :
    (migrateMembers c members).Gives fun fs _ =>
      Recording c (members.flatMap (memberFindings c)) (members.flatMap FlowMember.types) fs := by
  induction members with
  | nil => exact .pure .nil
  | cons m rest ih =>
    exact .bind ((migrateMember_recording c m).mono fun fs part hm => .last (ih.mono
      fun gs parts hrest => hm.append hrest))

/-- A name keeps its text. -/
theorem text_migrateEntity (id : FlowEntity) : (migrateEntity id).text = id.text := by
  induction id with
  | name n => rfl
  | qualified node qualification id ih => rw [migrateEntity, TsEntity.text, ih]; rfl

/-- An alias of `any` records itself. -/
theorem anyAlias_gives (a : AnyAlias) (args : Option (TsArgs TsType)) :
    (anyAlias a args).Gives fun fs _ => fs = [.anyAlias a.name] := by
  rintro u ⟨⟩
  rfl

/-- A rule that makes no alias records nothing. -/
theorem ruled_gives {text : String} {args : List TsType} {u : TsType} (number : Nat)
    (hnumber : args.length = number) (hruled : (text, number) ∈ FlowType.ruledNames)
    (halias : aliasRules.lookup (text, number) = none) :
    (pure u : Recorded TsType).Gives fun fs _ => fs = referenceFindings text args.length := by
  refine .pure ?_
  rw [hnumber, referenceFindings, halias]
  simp [hruled]

/-- A name without a rule records itself if it is internal. -/
theorem referenceFindings_unruled {text : String} {args : Nat}
    (h : (text, args) ∉ FlowType.ruledNames) : referenceFindings text args =
      if isInternal text then [.utilityType text] else [] := by
  have halias : aliasRules.lookup (text, args) = none := by
    have hruled : ∀ rule ∈ aliasRules, rule.1 ∈ FlowType.ruledNames := by decide
    rw [List.lookup_eq_none_iff]
    exact fun rule hrule => bne_iff_ne.2 fun heq => h (heq ▸ hruled rule hrule)
  rw [referenceFindings, halias]
  simp [h]

/-- What is recorded for a reference, by the rules for names. -/
theorem migrateReference_gives (name : TsEntity) (args : Option (TsArgs TsType)) :
    (migrateReference c name args).Gives fun fs _ =>
      fs = referenceFindings name.text ((args.map (·.params)).getD []).length := by
  unfold migrateReference
  generalize (args.map (·.params)).getD [] = params
  generalize name.text = text
  split
  next => exact anyAlias_gives .object none
  next => exact anyAlias_gives .function none
  next => exact ruled_gives 1 rfl (by decide) (by decide)
  next => exact ruled_gives 1 rfl (by decide) (by decide)
  next => exact ruled_gives 1 rfl (by decide) (by decide)
  next => exact ruled_gives 1 rfl (by decide) (by decide)
  next => exact ruled_gives 1 rfl (by decide) (by decide)
  next => exact ruled_gives 1 rfl (by decide) (by decide)
  next => exact anyAlias_gives .subtype args
  next => exact ruled_gives 2 rfl (by decide) (by decide)
  next => exact ruled_gives 2 rfl (by decide) (by decide)
  next => exact ruled_gives 0 rfl (by decide) (by decide)
  next => split <;> exact ruled_gives 1 rfl (by decide) (by decide)
  next =>
    have hunruled : (text, params.length) ∉ FlowType.ruledNames := by
      rcases params with _ | ⟨t, _ | ⟨u, _ | _⟩⟩ <;> simp_all [FlowType.ruledNames]
    rw [referenceFindings_unruled hunruled]
    split
    · rintro u ⟨⟩
      rfl
    · exact .pure rfl

/-- The types of a signature are its parts in another order. -/
theorem signatureTypes_perm (node : Json) {params : List (FlowParam FlowType)} {result : FlowType}
    {rest thisParam : Option (FlowParam FlowType)}
    {typeParams : Option (FlowTypeParams FlowType)} :
    (signatureTypes params result rest thisParam typeParams).Perm
      (FlowType.function node params result rest thisParam typeParams).parts := by
  have hparams : (thisParam.toList ++ params ++ rest.toList).Perm
      (params ++ rest.toList ++ thisParam.toList) := by
    rw [List.append_assoc]
    exact List.perm_append_comm
  exact List.perm_middle.trans (((hparams.map _).append_right _).cons result)

/-- **What a type records.** Its own findings, and those of its operands, each
operand once. -/
theorem migrate_records (t : FlowType) :
    (migrate c t).Gives fun fs _ => Recording c (ownFindings c t) t.operands fs := by
  cases t with
  | keyword node word =>
    cases word with
    | existential =>
      exact .map ((anyAlias_gives .existential none).mono fun fs u hu =>
        hu ▸ .alone [.anyAlias AnyAlias.existential.name])
    | interface => exact .refuse _
    | _ => exact .pure .nil
  | literal node v => exact .pure .nil
  | array node t | nullable node t =>
    exact .last ((migrate_recording c t).mono fun fs u hu => hu)
  | tuple node ts | union node ts | intersection node ts =>
    exact .last ((migrateAll_recording c ts).mono fun fs us hus => hus)
  | typeof node t =>
    exact .map ((migrateTypeof_bare c t).mono fun fs u hu => hu.2.1 ▸ .nil)
  | indexedAccess node object index =>
    exact .bind ((migrate_recording c object).mono fun fs u hu =>
      .last ((migrate_recording c index).mono fun gs v hv => hu.append hv))
  | optionalIndexedAccess node object index => exact .refuse _
  | generic node id args =>
    have hnumber : (migrateArgsOption c args).Yields fun args' =>
        ((args.map (·.params)).getD []).length = ((args'.map (·.params)).getD []).length :=
      fun args' h => (migrateArgsOption_became c args args' h).types.length_eq
    refine .bind (((migrateArgsOption_recording c args).and_yields hnumber).mono
      fun fs args' hargs => .map ?_)
    refine (migrateReference_gives c (migrateEntity id) args').mono fun gs u hu => ?_
    rw [text_migrateEntity, ← hargs.2] at hu
    have hall := hargs.1.append (.alone gs)
    rw [List.append_nil, hu] at hall
    exact hu ▸ hall
  | function node params result rest thisParam typeParams =>
    refine .bind ((migrateThis_recording c thisParam).mono fun fs₁ _ hthis => ?_)
    refine .bind ((migrateParams_recording c params 1).mono fun fs₂ _ hparams => ?_)
    refine .bind ((migrateRest_recording c rest).mono fun fs₃ _ hrest => ?_)
    refine .bind ((migrate_recording c result).mono fun fs₄ _ hresult => ?_)
    refine .last ((migrateTypeParamsOption_recording c typeParams).mono fun fs₅ _ hps => ?_)
    have hall : Recording c (ownFindings c (.function node params result rest thisParam typeParams))
        (signatureTypes params result rest thisParam typeParams)
        (fs₁ ++ (fs₂ ++ (fs₃ ++ (fs₄ ++ fs₅)))) := by
      simpa only [signatureTypes, ownFindings, List.map_append, List.append_assoc,
        List.singleton_append, List.nil_append] using
        ((hthis.append hparams).append hrest).append (hresult.append hps)
    exact hall.congr rfl (signatureTypes_perm node)
  | object node members exact =>
    exact .last ((migrateMembers_recording c members).mono fun fs parts hparts => hparts)

/-- **What is found in a type.** What each type in it that is rewritten records
by itself, each type once. -/
theorem migrate_findings (t : FlowType) : (migrate c t).Gives fun fs _ =>
    fs.Perm (t.rewritten.flatMap (ownFindings c)) := by
  induction t using FlowType.induction_on_parts with
  | h t ih =>
  intro u hu
  have hrecords := migrate_records c t u hu
  refine hrecords.findings.trans ?_
  rw [FlowType.rewritten_eq, List.flatMap_cons, List.flatMap_assoc]
  refine List.Perm.append_left _ (List.Perm.flatMap_left _ fun v hv => ?_)
  obtain ⟨w, hw⟩ := hrecords.succeeded v hv
  exact ih v (FlowType.mem_parts_of_mem_operands hv) w hw

/-! ## What a report gains -/

variable {category : PlaceCategory}

theorem mem_of_typeParam_isMarked {p : FlowTypeParam FlowType}
    (h : p.isMarked category = true) : category ∈ markCategories := by
  cases category <;> first | decide | simp [FlowTypeParam.isMarked] at h

theorem mem_of_member_isMarked {m : FlowMember FlowType}
    (h : m.isMarked category = true) : category ∈ markCategories := by
  cases category <;> first | decide | cases m <;> simp [FlowMember.isMarked] at h

/-- A mark is recorded at the place of its node. -/
theorem places_markFindings {isMarked : PlaceCategory → Bool} (n : Json)
    (h : isMarked category = true → category ∈ markCategories) :
    (markFindings c isMarked n).filterMap (Report.locationIn? category) =
      if isMarked category then [placeOf c.path n] else [] := by
  have hother (k : PlaceCategory) : Report.locationIn? category (.place k (placeOf c.path n)) =
      if k = category then some (placeOf c.path n) else none := rfl
  rw [markFindings, List.filterMap_map, List.filterMap_filter]
  cases hmarked : isMarked category with
  | true =>
    have hmem := h hmarked
    simp only [markCategories, List.mem_cons, List.not_mem_nil, or_false] at hmem
    rcases hmem with rfl | rfl | rfl <;> simp [markCategories, hother, hmarked]
  | false =>
    rw [if_neg (by simp), List.filterMap_eq_nil_iff]
    intro k _
    by_cases hk : k = category
    · simp [hk, hmarked]
    · simp [hother, hk]

/-- Marks are recorded one for each marked item, in order. -/
theorem places_flatMap_marked {ι : Type} {isMarked : ι → Bool} {node : ι → Json}
    {found : ι → List Finding}
    (h : ∀ x, (found x).filterMap (Report.locationIn? category) =
      if isMarked x then [placeOf c.path (node x)] else []) (xs : List ι) :
    (xs.flatMap found).filterMap (Report.locationIn? category) =
      ((xs.filter isMarked).map node).map (placeOf c.path) := by
  induction xs with
  | nil => rfl
  | cons x xs ih =>
    rw [List.flatMap_cons, List.filterMap_append, h, ih]
    cases hx : isMarked x <;> simp [hx]

/-- **The places that a type records are those of its marks.** -/
theorem places_ownFindings (t : FlowType) :
    (ownFindings c t).filterMap (Report.locationIn? category) =
      (t.marks category).map (placeOf c.path) := by
  cases t with
  | keyword node word => cases word <;> rfl
  | generic node id args =>
    change (referenceFindings ..).filterMap _ = []
    unfold referenceFindings
    split
    · rfl
    · split <;> rfl
  | function node params result rest thisParam typeParams =>
    exact places_flatMap_marked c (fun p : FlowTypeParam FlowType =>
      places_markFindings c p.node mem_of_typeParam_isMarked) _
  | object node members exact =>
    exact places_flatMap_marked c (fun m : FlowMember FlowType =>
      places_markFindings c m.node mem_of_member_isMarked) _
  | _ => rfl

/-- A mark records no utility type. -/
theorem utilities_markFindings (isMarked : PlaceCategory → Bool) (n : Json) :
    (markFindings c isMarked n).filterMap Report.utilityIn? = [] := by
  rw [markFindings, List.filterMap_map, List.filterMap_eq_nil_iff]
  exact fun _ _ => rfl

/-- The utility type that a type records is its own unknown name. -/
theorem utilities_ownFindings (t : FlowType) :
    (ownFindings c t).filterMap Report.utilityIn? = t.unknownUtility?.toList := by
  cases t with
  | keyword node word => cases word <;> rfl
  | generic node id args =>
    rw [ownFindings, FlowType.unknownUtility?]
    by_cases hruled : (id.text, ((args.map (·.params)).getD []).length) ∈ FlowType.ruledNames
    · rw [if_neg (by simp [hruled]), referenceFindings]
      split
      · rfl
      · rw [if_neg (by simp [hruled])]
        rfl
    · rw [referenceFindings_unruled hruled]
      by_cases hinternal : isInternal id.text = true <;>
        simp [hinternal, hruled, Report.utilityIn?]
  | function node params result rest thisParam typeParams =>
    rw [ownFindings, List.filterMap_flatMap]
    exact List.flatMap_eq_nil_iff.2 fun p _ => utilities_markFindings c _ p.node
  | object node members exact =>
    rw [ownFindings, List.filterMap_flatMap]
    exact List.flatMap_eq_nil_iff.2 fun m _ => utilities_markFindings c _ m.node
  | _ => rfl

/-- All parts of a type are rewritten, unless it is the type of a value. -/
theorem operands_eq_parts_or (t : FlowType) :
    t.operands = t.parts ∨ ∃ node argument, t = .typeof node argument := by
  cases t with
  | typeof node argument => exact .inr ⟨node, argument, rfl⟩
  | _ => exact .inl rfl

/-- A type that is rewritten has no marks that are not rewritten, since what
`typeof` takes has none. -/
theorem marks_rewritten (category : PlaceCategory) (t : FlowType) : (migrate c t).Gives fun _ _ =>
    t.everything.flatMap (·.marks category) = t.rewritten.flatMap (·.marks category) := by
  induction t using FlowType.induction_on_parts with
  | h t ih =>
  intro u hu
  rw [FlowType.everything_eq, FlowType.rewritten_eq, List.flatMap_cons, List.flatMap_cons,
    List.flatMap_assoc, List.flatMap_assoc]
  obtain hoperands | ⟨node, argument, rfl⟩ := operands_eq_parts_or t
  · have hrecords := migrate_records c t u hu
    rw [hoperands] at hrecords ⊢
    refine congrArg _ (List.flatMap_congr fun v hv => ?_)
    obtain ⟨w, hw⟩ := hrecords.succeeded v hv
    exact ih v hv w hw
  · have hbare : (migrate c (.typeof node argument)).Gives fun _ _ => IsBareName argument :=
      .map ((migrateTypeof_bare c argument).mono fun _ _ h => h.1)
    obtain ⟨_, id, args, rfl, hparts⟩ := hbare u hu
    rw [FlowType.parts, List.flatMap_singleton, FlowType.everything_eq, hparts]
    rfl

/-- What a report gains by the rewriting of a type. -/
theorem migrate_reported (t : FlowType) (before : List Finding) :
    (migrate c t).Gives fun fs _ =>
      (∀ category, ∃ added,
        (Report.ofFindings (before ++ fs)).places category =
          (Report.ofFindings before).places category ++ added ∧
        added.Perm ((t.everything.flatMap (·.marks category)).map (placeOf c.path))) ∧
      ∀ name, name ∈ (Report.ofFindings (before ++ fs)).utilityTypes ↔
        name ∈ (Report.ofFindings before).utilityTypes ∨
          ∃ u ∈ t.rewritten, u.unknownUtility? = some name := by
  refine fun u hu => ⟨fun category => ?_, fun name => ?_⟩
  · have hplaces := (migrate_findings c t u hu).filterMap (Report.locationIn? category)
    refine ⟨_, List.filterMap_append, hplaces.trans (.of_eq ?_)⟩
    rw [marks_rewritten c category t u hu, List.filterMap_flatMap, List.map_flatMap]
    exact List.flatMap_congr fun v _ => places_ownFindings c v
  · have hnames := (migrate_findings c t u hu).filterMap Report.utilityIn?
    rw [List.filterMap_flatMap] at hnames
    simp only [Report.ofFindings, Report.mem_sortText_eraseDups, List.filterMap_append,
      List.mem_append, hnames.mem_iff, utilities_ownFindings, List.mem_flatMap, Option.mem_toList]

/-- **Marks are recorded once each.** The places that a report gains by the
rewriting of a type are those of the marks in the type, each once, and the
utility types it gains are those in the type that no rule covers. -/
theorem marks_recorded (node : Json) (before : List Finding) :
    (migrateNode c node).Gives fun fs _ => ∃ t, Flow.decodeType c.path node = .ok t ∧
      (∀ category, ∃ added,
        (Report.ofFindings (before ++ fs)).places category =
          (Report.ofFindings before).places category ++ added ∧
        added.Perm ((t.everything.flatMap (·.marks category)).map (placeOf c.path))) ∧
      ∀ name, name ∈ (Report.ofFindings (before ++ fs)).utilityTypes ↔
        name ∈ (Report.ofFindings before).utilityTypes ∨
          ∃ u ∈ t.rewritten, u.unknownUtility? = some name :=
  .bind fun t ht u hu => ⟨t, ht, migrate_reported c t before u hu⟩

open TypeScript (node identifier) in
/-- `{-$a: $Unknown<typeof $b>}` -/
def markedObject : Json :=
  let variance := node "Variance" [("kind", .str "minus")]
  let query := node "TypeofTypeAnnotation" [("argument",
    node "GenericTypeAnnotation" [("id", identifier "$b" []), ("typeParameters", .null)])]
  let unknown := node "GenericTypeAnnotation" [("id", identifier "$Unknown" []),
    ("typeParameters", node "TypeParameterInstantiation" [("params", .arr [query])])]
  node "ObjectTypeAnnotation" [("properties", .arr [
    node "ObjectTypeProperty" [("key", identifier "$a" []), ("value", unknown),
      ("variance", variance), ("kind", .str "init"), ("method", .bool false),
      ("static", .bool false), ("proto", .bool false), ("optional", .bool false)]]),
    ("indexers", .arr []), ("callProperties", .arr []), ("internalSlots", .arr []),
    ("exact", .bool false)]

/-- What is recorded for it. -/
def markedObjectFindings : List Finding :=
  [.place .objectPropertyWithInternalName (Location.unknown "a.js"),
    .place .objectPropertyWithMinusVariance (Location.unknown "a.js"), .utilityType "$Unknown"]

theorem marks_recorded_markedObject :
    (migrateNode ⟨"a.js", "h"⟩ markedObject).findings = markedObjectFindings ∧
    ∃ t, Flow.decodeType "a.js" markedObject = .ok t ∧
      (∀ category, ∃ added,
        (Report.ofFindings ([] ++ markedObjectFindings)).places category =
          (Report.ofFindings []).places category ++ added ∧
        added.Perm ((t.everything.flatMap (·.marks category)).map (placeOf "a.js"))) ∧
      ∀ name, name ∈ (Report.ofFindings ([] ++ markedObjectFindings)).utilityTypes ↔
        name ∈ (Report.ofFindings []).utilityTypes ∨
          ∃ u ∈ t.rewritten, u.unknownUtility? = some name := by
  have hrun : (migrateNode ⟨"a.js", "h"⟩ markedObject).findings = markedObjectFindings ∧
      (migrateNode ⟨"a.js", "h"⟩ markedObject).result.toOption.isSome = true := by
    decide +kernel
  obtain ⟨hfindings, hsome⟩ := hrun
  cases hu : (migrateNode ⟨"a.js", "h"⟩ markedObject).result with
  | error e =>
    rw [hu] at hsome
    cases hsome
  | ok u => exact ⟨hfindings, hfindings ▸ marks_recorded ⟨"a.js", "h"⟩ markedObject [] u hu⟩

end Migration

end Retype
