import Retype.Proofs.Migration.Becoming
import Retype.Proofs.Migration.Nodes
import Retype.Proofs.Report.Algebra
/-!
# The count of the aliases of `any`

A report counts how often an alias of `any` was inserted, and what was written
refers to it so often, unless a union that has become `any` has dropped types
that were counted before (`aliases_counted`). What is counted for a type is
counted for its parts, and so are the references (`Balanced.of_parts`).
-/

namespace Retype

/-- A report counts an alias as often as it was found. -/
theorem Report.usageOf_ofFindings (fs : List Finding) (name : String) :
    (ofFindings fs).usageOf name = ((fs.filterMap aliasIn?).count name : Int) := by
  have happart : (ofFindings fs).CountsApart := by
    rw [CountsApart, ofFindings, List.map_map]
    exact (List.map_id _).symm ▸ nodup_eraseDups _
  rw [← totalUsage_singleton happart, totalUsage_eq, List.flatMap_singleton, sum_aliasUsage]

namespace Migration

open TypeScript (node encode encodeEntity encodeName encodeMember encodeMembers)
open Json (nodesIn tally)

/-! ## References -/

/-- A node is a reference to a name that is not qualified. -/
def refersTo (name : String) (n : Json) : Bool :=
  n.hasText "type" "TSTypeReference" && (n.get? "typeName").any fun id =>
    id.hasText "type" "Identifier" && id.hasText "name" name

/-- Like `refersTo`, of a type that is to be written. -/
def isReferenceTo (name : String) : TsType → Bool
  | .reference _ (.name n) _ => n.text == name
  | _ => false

/-- How many references to a name there are in what is written for a type. -/
def references (name : String) (t : TsType) : Nat := (nodesIn (encode t)).countP (refersTo name)

variable {name : String}

/-- A written reference refers to a name when its identifier is that name. -/
theorem refersTo_reference (origin : Option Json) (id : TsEntity) (args : Option (TsArgs TsType)) :
    refersTo name (encode (.reference origin id args)) =
      ((encodeEntity id).hasText "type" "Identifier" && (encodeEntity id).hasText "name" name) := by
  rw [refersTo, encode, hasText_of_kind (get?_type_inheritOption ..),
    get?_inheritOption_ne (by decide)]
  rfl

/-- Writing a type neither makes nor loses a reference to a name. -/
theorem refersTo_encode (t : TsType) : refersTo name (encode t) = isReferenceTo name t := by
  cases t with
  | reference origin id args =>
    rw [refersTo_reference]
    cases id with
    | name n =>
      have hname : (encodeName n).hasText "name" name = (n.text == name) :=
        (Json.hasText_congr (get?_inheritOption_ne (by decide)) name).trans rfl
      rw [encodeEntity, hname, encodeName, TypeScript.identifier,
        hasText_of_kind (get?_type_inheritOption ..)]
      rfl
    | qualified origin' left right =>
      rw [encodeEntity, hasText_of_kind (get?_type_inheritOption ..)]
      rfl
  | keyword origin word =>
    rw [refersTo, encode, hasText_of_kind (get?_type_inheritOption ..)]
    cases word <;> rfl
  | _ =>
    rw [refersTo, encode, hasText_of_kind (get?_type_inheritOption ..)]
    rfl

/-- A reference is seen in types only. -/
theorem refersTo_ofTypes (name : String) : OfTypes (refersTo name) := by
  intro n hkind
  rw [refersTo, Bool.and_eq_false_iff]
  left
  by_contra htext
  rw [Bool.not_eq_false] at htext
  rw [kind_of_kind (get?_of_hasText htext)] at hkind
  revert hkind
  decide

/-- How many references there are in some types. -/
def referencesAll (name : String) (ts : List TsType) : Nat := tallyTypes (refersTo name) ts

/-- The references in a type are itself, and those in its parts and keys. -/
theorem references_eq (t : TsType) : references name t = (isReferenceTo name t).toNat +
    referencesAll name t.parts + (t.keys.map (tally (refersTo name))).sum := by
  rw [references, ← tally, tally_encode (refersTo_ofTypes name), refersTo_encode]
  cases isReferenceTo name t <;> rfl

/-- A type that is no reference, and no literal. -/
theorem references_of_parts {t : TsType} (hnot : isReferenceTo name t = false)
    (hkeys : t.keys = []) :
    references name t = referencesAll name t.parts := by
  rw [references_eq, hnot, hkeys]
  exact (Nat.zero_add _)

/-- The node a type comes from adds no reference. -/
theorem references_withOrigin (t : TsType) (n : Json) :
    references name (t.withOrigin n) = references name t := by
  have hsame : isReferenceTo name (t.withOrigin n) = isReferenceTo name t := by
    cases t with
    | reference origin id args => cases id <;> rfl
    | _ => rfl
  rw [references_eq, references_eq, hsame, TsType.parts_withOrigin, TsType.keys_withOrigin]

/-- Nor do parentheses. -/
theorem references_parenthesizeFunction (t : TsType) :
    references name t.parenthesizeFunction = references name t := by
  cases t with
  | function origin s =>
    exact references_of_parts (t := .parenthesized none (.function origin s)) rfl rfl
  | _ => rfl

/-- Nor do parentheses around each member. -/
theorem referencesAll_parenthesized (ts : List TsType) :
    referencesAll name (ts.map TsType.parenthesizeFunction) = referencesAll name ts := by
  rw [referencesAll, tallyTypes, List.map_map]
  exact congrArg List.sum (List.map_congr_left fun t _ => references_parenthesizeFunction t)

/-- How many references there are in what is written for some parts of an object. -/
def partReferences (name : String) (parts : List ObjectPart) : Nat :=
  (parts.map fun p => tally (refersTo name) (encodePart p)).sum

/-- The references of two lists of parts add up. -/
theorem partReferences_append (parts parts' : List ObjectPart) :
    partReferences name (parts ++ parts') =
      partReferences name parts + partReferences name parts' := by
  rw [partReferences, List.map_append, List.sum_append]
  rfl

/-- The references of a type are those of its parts laid out. -/
theorem references_laidOut (t : TsType) : references name t = partReferences name (laidOut t) := by
  cases t with
  | typeLiteral origin members =>
    have hmembers : references name (.typeLiteral origin members) =
        tally (refersTo name) (.arr (encodeMembers members)) := by
      rw [references_eq, tally_encodeMembers (refersTo_ofTypes name)]
      exact congrArg (· + _) (Nat.zero_add _)
    rw [hmembers, laidOut]
    clear hmembers
    induction members with
    | nil => rfl
    | cons m members ih =>
      rw [encodeMembers, tally_arr_cons, ih]
      rfl
  | _ => exact (Nat.add_zero _).symm

/-- What is written for an object type refers to what its parts refer to. -/
theorem references_objectParts (t : TsType) :
    references name t = partReferences name (objectParts t) := by
  have hall (types : List TsType) :
      referencesAll name types = partReferences name (types.flatMap laidOut) := by
    induction types with
    | nil => rfl
    | cons t types ih =>
      rw [List.flatMap_cons, partReferences_append, ← ih, ← references_laidOut]
      rfl
  cases t with
  | intersection origin types =>
    rw [references_of_parts rfl rfl]
    exact hall types
  | _ => exact (Nat.add_zero _).symm.trans (hall [_])

/-! ## What is counted -/

variable (c : TypeContext)

/-- A type that amounts to `any` has dropped nothing that was counted, at any
depth of a type. -/
def NothingDropped (name : String) (t : FlowType) : Prop :=
  ∀ v : FlowType, v.Within t → AmountsToAny v → name ∉ aliasesOf c v

/-- Nothing is dropped from a type when its `any` hides no alias and its parts drop
nothing. -/
theorem nothingDropped_iff {t : FlowType} : NothingDropped c name t ↔
    (AmountsToAny t → name ∉ aliasesOf c t) ∧ ∀ p ∈ t.parts, NothingDropped c name p := by
  constructor
  · exact fun h => ⟨h t (.refl t), fun p hp v hv => h v (.part hp hv)⟩
  · rintro ⟨hself, hparts⟩ v hv
    cases hv with
    | refl => exact hself
    | part mem within => exact hparts _ mem v within

/-- So many uses were counted as there are references, or more if something was
dropped. -/
def Balanced (uses refs : Nat) (kept : Prop) : Prop :=
  ∃ dropped, uses = refs + dropped ∧ (dropped = 0 ↔ kept)

namespace Balanced

variable {uses refs uses' refs' : Nat} {kept kept' : Prop}

/-- No use and no reference are balanced when nothing is dropped. -/
theorem zero (h : kept) : Balanced 0 0 kept := ⟨0, rfl, iff_of_true rfl h⟩

/-- Balances add up. -/
theorem add (h : Balanced uses refs kept) (h' : Balanced uses' refs' kept') :
    Balanced (uses + uses') (refs + refs') (kept ∧ kept') := by
  obtain ⟨dropped, rfl, hkept⟩ := h
  obtain ⟨dropped', rfl, hkept'⟩ := h'
  exact ⟨dropped + dropped', by omega, by rw [Nat.add_eq_zero_iff, hkept, hkept']⟩

/-- A balance is read from its numbers only. -/
theorem congr (h : Balanced uses refs kept) (huses : uses' = uses) (hrefs : refs' = refs)
    (hkept : kept' ↔ kept) : Balanced uses' refs' kept' := by
  obtain ⟨dropped, hsum, hdropped⟩ := h
  exact ⟨dropped, by omega, hdropped.trans hkept.symm⟩

/-- A reference that was counted itself. -/
theorem own (h : Balanced uses refs kept) (n : Nat) : Balanced (n + uses) (n + refs) kept := by
  obtain ⟨dropped, rfl, hdropped⟩ := h
  exact ⟨dropped, by omega, hdropped⟩

/-- All references are dropped. -/
theorem drop (h : Balanced uses refs kept) : Balanced uses 0 (uses = 0 ∧ kept) := by
  obtain ⟨dropped, rfl, hdropped⟩ := h
  exact ⟨_, (Nat.zero_add _).symm, by rw [← hdropped]; omega⟩

end Balanced

/-- What is counted for a type, and what it becomes. -/
def Counted (name : String) (t : FlowType) (u : TsType) : Prop :=
  Balanced ((aliasesOf c t).count name) (references name u) (NothingDropped c name t)

variable {c}

/-- The uses and references of a list of types balance when those of each type do. -/
theorem balanced_all {ts : List FlowType} {us : List TsType}
    (h : List.Forall₂ (fun t u => (migrate c t).result = .ok u) ts us)
    (hts : ∀ t ∈ ts, (migrate c t).Yields (Counted c name t)) :
    Balanced ((ts.flatMap (aliasesOf c)).count name) (referencesAll name us)
      (∀ t ∈ ts, NothingDropped c name t) := by
  induction h with
  | nil => exact .zero (List.forall_mem_nil _)
  | cons htu _ ih =>
    rw [List.forall_mem_cons] at hts
    refine ((hts.1 _ htu).add (ih hts.2)).congr ?_ rfl List.forall_mem_cons
    rw [List.flatMap_cons, List.count_append]

/-- So do those of types that became others one by one. -/
theorem Became.balanced {ts : List FlowType} {fs : List Finding} {us : List TsType}
    (h : Became c ts fs us) (hts : ∀ t ∈ ts, (migrate c t).Yields (Counted c name t)) :
    Balanced ((aliasesIn fs).count name) (referencesAll name us)
      (∀ t ∈ ts, NothingDropped c name t) :=
  (balanced_all h.types hts).congr (by rw [h.aliases]) rfl Iff.rfl

/-- Nothing in a type refers to a name already: no reference is to it, and no
node in a key is one. -/
def NeverRefersTo (name : String) (t : FlowType) : Prop :=
  ∀ v : FlowType, v.Within t → (∀ node, v.name? ≠ some (.name ⟨node, name⟩)) ∧
    ∀ key ∈ v.keys, tally (refersTo name) key = 0

/-- A type that never refers to a name has no part that does. -/
theorem NeverRefersTo.part {t p : FlowType} (h : NeverRefersTo name t) (hp : p ∈ t.parts) :
    NeverRefersTo name p := fun v hv => h v (.part hp hv)

/-! ### Objects -/

variable (c)

/-- Checking a property counts no alias. -/
theorem checkProperty_aliases (n key : Json) (traits : PropertyTraits) :
    (checkProperty c n key traits).Gives fun fs _ => aliasesIn fs = [] := by
  have hplace (category : PlaceCategory) (gs : List Finding) (_ : Unit) (h : aliasesIn gs = []) :
      aliasesIn ((notePlace c category n).findings ++ gs) = [] := by
    rw [aliasesIn_append, aliasesIn_notePlace, h, List.append_nil]
  have hrefuse (detail : String) (gs : List Finding) (_ : Unit) (h : aliasesIn gs = []) :
      aliasesIn ((refuseAt (α := Unit) c n detail).findings ++ gs) = [] := h
  refine .first (.first (.first (.first ?_ (hrefuse _)) (hrefuse _)) (hplace _)) (hplace _)
  split
  · exact .refuse _
  · exact .pure rfl

/-- Nor does building its member. -/
theorem propertyMember_aliases (n key : Json) (traits : PropertyTraits) (value : TsType) :
    (propertyMember c n key traits value).Gives fun fs _ => fs = [] := by
  unfold propertyMember
  dsimp only
  split
  · split
    · exact .pure rfl
    · exact .refuse _
  · exact .pure rfl

/-- What is recorded for a member is recorded for its types. -/
theorem migrateMember_aliases (m : FlowMember FlowType) : (migrateMember c m).Gives fun fs _ =>
    aliasesIn fs = m.types.flatMap (aliasesOf c) := by
  cases m with
  | property n key value traits =>
    refine .bind ((checkProperty_aliases c n key traits).mono fun fs _ hfs => ?_)
    refine .bind ((migrate_became c value).mono fun gs u hu => .last ?_)
    refine (propertyMember_aliases c n key traits u).mono fun hs m' hhs => ?_
    rw [aliasesIn_append, hfs, hhs, List.append_nil]
    exact hu.aliases
  | spread n argument => exact .last ((migrate_became c argument).mono fun fs u hu => hu.aliases)
  | indexer n id key value variance isStatic =>
    rw [migrateMember]
    refine .first ?_ fun gs p hp => ?_
    · refine .first ?_ fun gs p hp => hp
      refine .bind ((migrate_became c key).mono fun fs k hk => .last ?_)
      exact (migrate_became c value).mono fun gs u hu => (hk.append hu).aliases
    · rw [aliasesIn_append, aliasesIn_notePlace]
      exact hp
  | callProperty n value => exact .refuse _
  | internalSlot n id => exact .refuse _

variable {c}

/-- What is written for a member refers to what its types refer to. -/
theorem MemberBecomes.references_part {m : FlowMember FlowType} {p : ObjectPart}
    (h : MemberBecomes c m p) (hkey : ∀ key, m.key? = some key → tally (refersTo name) key = 0) :
    ∃ us, List.Forall₂ (fun t u => (migrate c t).result = .ok u) m.types us ∧
      tally (refersTo name) (encodePart p) = referencesAll name us := by
  have hp := refersTo_ofTypes name
  cases h with
  | property plain value' =>
    refine ⟨_, .cons value' .nil, ?_⟩
    rw [encodePart, tally_encodeMember hp, TsMember.types, TsMember.key?, Option.toList_some,
      List.map_singleton, List.sum_singleton, hkey _ rfl]
    rfl
  | @method n key value traits origin s method value' =>
    refine ⟨_, .cons value' .nil, ?_⟩
    have hfunction : references name (.function origin s) = referencesAll name s.types :=
      references_of_parts rfl rfl
    rw [encodePart, tally_encodeMember hp, TsMember.types, TsMember.key?, Option.toList_some,
      List.map_singleton, List.sum_singleton, hkey _ rfl]
    exact hfunction.symm
  | spread argument' => exact ⟨_, .cons argument' .nil, references_of_parts rfl rfl⟩
  | index key' value' indexable =>
    refine ⟨_, .cons key' (.cons value' .nil), ?_⟩
    rw [encodePart, tally_encodeMember hp]
    rfl
  | map key' value' other =>
    exact ⟨_, .cons key' (.cons value' .nil), references_of_parts rfl rfl⟩

variable (c)

/-- The uses and references of an object's members balance. -/
theorem migrateMembers_balanced {members : List (FlowMember FlowType)}
    (htypes : ∀ m ∈ members, ∀ t ∈ m.types, (migrate c t).Yields (Counted c name t))
    (hkeys : ∀ m ∈ members, ∀ key, m.key? = some key → tally (refersTo name) key = 0) :
    (migrateMembers c members).Gives fun fs parts => Balanced ((aliasesIn fs).count name)
      (partReferences name parts) (∀ m ∈ members, ∀ t ∈ m.types, NothingDropped c name t) := by
  induction members with
  | nil => exact .pure (.zero (List.forall_mem_nil _))
  | cons m rest ih =>
    rw [List.forall_mem_cons] at htypes hkeys
    refine .bind (((migrateMember_aliases c m).and_yields (migrateMember_becomes c m)).mono
      fun fs p hp => .last ((ih htypes.2 hkeys.2).mono fun gs parts hparts => ?_))
    obtain ⟨haliases, hbecomes⟩ := hp
    obtain ⟨us, hus, hreferences⟩ := hbecomes.references_part hkeys.1
    refine ((balanced_all hus htypes.1).add hparts).congr ?_ ?_ List.forall_mem_cons
    · rw [aliasesIn_append, List.count_append, haliases]
    · rw [partReferences, List.map_cons, List.sum_cons, hreferences]
      rfl

/-! ### References -/

variable {a : AnyAlias}

/-- A reference to another name is no alias. -/
theorem isReferenceTo_known {text : String} {args : Option (TsArgs TsType)}
    (h : text ∉ AnyAlias.all.map AnyAlias.name) :
    isReferenceTo a.name (.reference none (TsEntity.ofText text) args) = false := by
  refine beq_eq_false_iff_ne.2 fun heq : text = a.name => h ?_
  exact heq ▸ List.mem_map_of_mem (by cases a <;> decide)

/-- An alias counts itself once, and its arguments count for themselves. -/
theorem anyAlias_references (a' : AnyAlias) (as : Option (TsArgs TsType)) :
    (anyAlias a' as).Gives fun fs u => references a.name u =
      (aliasesIn fs).count a.name + referencesAll a.name ((as.map (·.params)).getD []) := by
  intro u hu
  obtain rfl : TsType.reference none (TsEntity.ofText a'.name) as = u := Except.ok.inj hu
  have hown : (isReferenceTo a.name (.reference none (TsEntity.ofText a'.name) as)).toNat =
      [a'.name].count a.name := by
    rw [List.count_singleton]
    change (a'.name == a.name).toNat = _
    cases a'.name == a.name <;> rfl
  rw [references_eq, hown]
  rfl

/-- What a reference becomes refers to what its arguments refer to, and to an
alias if one was recorded. -/
theorem migrateReference_references {id : TsEntity} {args : Option (TsArgs TsType)}
    (hid : ∀ n, id = .name n → n.text ≠ a.name) :
    (migrateReference c id args).Gives fun fs u => references a.name u =
      (aliasesIn fs).count a.name + referencesAll a.name ((args.map (·.params)).getD []) := by
  have hplain {u : TsType} (hnot : isReferenceTo a.name u = false) (hkeys : u.keys = [])
      (hparts : u.parts = (args.map (·.params)).getD []) : references a.name u =
        (aliasesIn []).count a.name + referencesAll a.name ((args.map (·.params)).getD []) := by
    rw [references_of_parts hnot hkeys, hparts]
    exact (Nat.zero_add _).symm
  have hknown (text : String) (h : text ∉ AnyAlias.all.map AnyAlias.name) :=
    hplain (u := .reference none (TsEntity.ofText text) args) (isReferenceTo_known h) rfl rfl
  have halias (a' : AnyAlias) (as : Option (TsArgs TsType))
      (has : (as.map (·.params)).getD [] = (args.map (·.params)).getD []) :
      (anyAlias a' as).Gives fun fs u => references a.name u =
        (aliasesIn fs).count a.name + referencesAll a.name ((args.map (·.params)).getD []) :=
    has ▸ anyAlias_references a' as
  have hid' : isReferenceTo a.name (.reference none id args) = false := by
    cases id with
    | name n => exact beq_eq_false_iff_ne.2 (hid n rfl)
    | qualified => rfl
  rw [migrateReference]
  split
  next hparams => exact halias _ _ hparams.symm
  next hparams => exact halias _ _ hparams.symm
  next => exact .pure (hknown _ (by decide))
  next => exact .pure (hknown _ (by decide))
  next hparams => exact .pure (hplain rfl rfl hparams.symm)
  next => exact .pure (hplain rfl rfl rfl)
  next => exact .pure (hknown _ (by decide))
  next hparams =>
    rw [hparams]
    exact .pure (Nat.zero_add _).symm
  next => exact halias _ _ rfl
  next hparams => exact .pure (hplain rfl rfl hparams.symm)
  next hparams => exact .pure (hplain rfl rfl hparams.symm)
  next hparams => exact .pure (hplain rfl rfl hparams.symm)
  next hparams =>
    split
    · exact .pure (hplain rfl rfl rfl)
    · refine .pure ?_
      -- the properties of a component, which the element is one of
      have hinner := hplain (u := .reference none (TsEntity.ofPair "React" "ComponentProps") args)
        rfl rfl rfl
      rw [references_of_parts rfl rfl]
      exact hinner
  next => exact .first (.pure (hplain hid' rfl rfl)) fun gs u hu => hu

/-! ### Types -/

/-- The keyword `any` refers to nothing. -/
theorem references_any {u : TsType} (h : u.isWord .any = true) : references name u = 0 := by
  obtain ⟨origin, rfl⟩ := exists_of_isWord h
  exact references_of_parts rfl rfl

/-- A type that has become `any` has dropped what was counted in it. -/
theorem counted_any {t : FlowType} {u : TsType} {refs : Nat} (hamounts : AmountsToAny t)
    (hany : u.isWord .any = true) (h : Balanced ((aliasesOf c t).count name) refs
      (∀ p ∈ t.parts, NothingDropped c name p)) : Counted c name t u := by
  rw [Counted, references_any hany]
  refine h.drop.congr rfl rfl ?_
  rw [nothingDropped_iff, List.count_eq_zero, imp_iff_right hamounts]

/-- A type that has not keeps it. -/
theorem counted_open {t : FlowType} {u : TsType} {uses refs k : Nat} (hopen : ¬ AmountsToAny t)
    (h : Balanced uses refs (∀ p ∈ t.parts, NothingDropped c name p))
    (huses : (aliasesOf c t).count name = k + uses) (hrefs : references name u = k + refs) :
    Counted c name t u := by
  refine (h.own k).congr huses hrefs ?_
  rw [nothingDropped_iff, and_iff_right fun hamounts => absurd hamounts hopen]

/-- Most types keep all of what their parts become, and record nothing themselves. -/
theorem counted_all {t : FlowType} {ts : List FlowType}
    (ih : ∀ p ∈ t.parts, (migrate c p).Yields (Counted c name p)) (hopen : ¬ AmountsToAny t)
    (hts : ∀ p, p ∈ ts ↔ p ∈ t.parts) (h : (migrate c t).Gives fun fs u => ∃ us,
      Became c ts fs us ∧ references name u = referencesAll name us) :
    (migrate c t).Yields (Counted c name t) := by
  intro u hu
  obtain ⟨us, hus, hrefs⟩ := h u hu
  have hbalanced := hus.balanced fun p hp => ih p ((hts p).1 hp)
  refine counted_open c (k := 0) hopen (hbalanced.congr rfl rfl (by simp only [hts])) ?_ ?_
  · exact (Nat.zero_add _).symm
  · rw [hrefs, Nat.zero_add]

/-- **A union counts what its members do, and drops them when one is `any`.** -/
theorem union_counted (node : Json) {ts : List FlowType}
    (ih : ∀ t ∈ ts, (migrate c t).Yields (Counted c name t)) :
    (migrate c (.union node ts)).Yields (Counted c name (.union node ts)) := by
  intro u hu
  obtain ⟨us, hus, hunion⟩ := migrate_union_became c node ts u hu
  have hbalanced := hus.balanced ih
  by_cases hamounts : AmountsToAny (.union node ts)
  · exact counted_any c hamounts ((migrate_isAny c _ u hu).2 hamounts) hbalanced
  · have hrefs : references name u = referencesAll name us := by
      rw [hunion hamounts]
      exact (references_of_parts rfl rfl).trans (referencesAll_parenthesized us)
    exact counted_open c (k := 0) hamounts hbalanced (Nat.zero_add _).symm
      (hrefs.trans (Nat.zero_add _).symm)

/-- A `typeof` counts no alias. -/
theorem typeof_counted (node : Json) (t : FlowType) :
    (migrate c (.typeof node t)).Yields (Counted c name (.typeof node t)) := by
  have htypeof : (migrate c (.typeof node t)).Gives fun fs u =>
      IsBareName t ∧ fs = [] ∧ references name u = 0 := by
    refine .map fun u hu => ?_
    obtain ⟨hbare, hfs, id, rfl⟩ := migrateTypeof_bare c t u hu
    exact ⟨hbare, hfs, references_of_parts rfl rfl⟩
  intro u hu
  obtain ⟨⟨n, id, args, rfl, hparts⟩, hfs, hrefs⟩ := htypeof u hu
  have hkept : NothingDropped c name (.generic n id args) := by
    rw [nothingDropped_iff, hparts]
    refine ⟨fun hamounts => ?_, List.forall_mem_nil _⟩
    obtain ⟨-, p, hp, -⟩ := amountsToAny_generic.1 hamounts
    cases hparts.symm.trans hp
  refine counted_open c (k := 0) nofun (.zero (List.forall_mem_singleton.2 hkept)) ?_ hrefs
  rw [aliasesOf, hfs]
  rfl

/-- A generic that is no alias by name counts as its arguments do. -/
theorem generic_counted {node : Json} {id : FlowEntity} {args : Option (FlowArgs FlowType)}
    (hname : ∀ n, id ≠ .name ⟨n, a.name⟩)
    (ih : ∀ p ∈ (args.map (·.params)).getD [], (migrate c p).Yields (Counted c a.name p)) :
    (migrate c (.generic node id args)).Yields (Counted c a.name (.generic node id args)) := by
  have hid : ∀ n, migrateEntity id = .name n → n.text ≠ a.name := by
    intro n hn htext
    cases id with
    | name m =>
      obtain rfl := TsEntity.name.inj hn
      obtain ⟨origin, text⟩ := m
      exact hname origin (congrArg (fun s => FlowEntity.name ⟨origin, s⟩) htext)
    | qualified => cases hn
  have hgeneric : (migrate c (.generic node id args)).Gives fun fs u => ∃ gs hs args',
      fs = gs ++ hs ∧ Became c ((args.map (·.params)).getD []) gs args' ∧
        references a.name u = (aliasesIn hs).count a.name + referencesAll a.name args' := by
    refine .bind ((migrateArgsOption_became c args).mono fun gs args' hargs => .map ?_)
    exact (migrateReference_references c hid).mono fun hs u hu =>
      ⟨gs, hs, _, rfl, hargs, (references_withOrigin u node).trans hu⟩
  intro u hu
  obtain ⟨gs, hs, args', hfs, hargs, hrefs⟩ := hgeneric u hu
  have hbalanced := hargs.balanced ih
  have huses : (aliasesOf c (.generic node id args)).count a.name =
      (aliasesIn hs).count a.name + (aliasesIn gs).count a.name := by
    rw [aliasesOf, hfs, aliasesIn_append, List.count_append, Nat.add_comm]
  by_cases hamounts : AmountsToAny (.generic node id args)
  · have hany := (migrate_isAny c _ u hu).2 hamounts
    rw [references_any hany] at hrefs
    exact counted_any c hamounts hany (hbalanced.congr (by omega) rfl Iff.rfl)
  · exact counted_open c hamounts hbalanced huses hrefs

/-- An object counts as its members do. -/
theorem object_counted (node : Json) {members : List (FlowMember FlowType)} (exact : Bool)
    (hkeys : ∀ m ∈ members, ∀ key, m.key? = some key → tally (refersTo name) key = 0)
    (ih : ∀ m ∈ members, ∀ t ∈ m.types, (migrate c t).Yields (Counted c name t)) :
    (migrate c (.object node members exact)).Yields
      (Counted c name (.object node members exact)) := by
  have hparts : (migrateMembers c members).Gives fun fs parts =>
      Balanced ((aliasesIn fs).count name) (partReferences name parts)
        (∀ m ∈ members, ∀ t ∈ m.types, NothingDropped c name t) ∧
      List.Forall₂ (MemberBecomes c) members parts :=
    (migrateMembers_balanced c ih hkeys).and_yields
      (migrateMembers_related c fun m _ => migrateMember_becomes c m)
  have hobject : (migrate c (.object node members exact)).Gives fun fs u =>
      Balanced ((aliasesIn fs).count name) (references name u)
        (∀ m ∈ members, ∀ t ∈ m.types, NothingDropped c name t) := by
    refine .last (hparts.mono fun fs parts ⟨hbalanced, hbecomes⟩ => ?_)
    have hgathered : Gathered parts (objectOfParts parts) := by
      refine objectOfParts_gathered fun p hp => ?_
      obtain ⟨m, -, hm⟩ := Entries.exists_of_forall₂ hbecomes hp
      exact hm.isSingle
    rwa [references_withOrigin, references_objectParts, hgathered.reading]
  intro u hu
  refine counted_open c (k := 0) nofun ((hobject u hu).congr rfl rfl ?_) (Nat.zero_add _).symm
    (Nat.zero_add _).symm
  simp only [FlowType.parts, List.mem_flatMap]
  exact ⟨fun h m hm t ht => h t ⟨m, hm, ht⟩, fun h t ⟨m, hm, ht⟩ => h m hm t ht⟩

/-- Each type is counted as it should be, if nothing in it refers to the alias. -/
theorem migrate_counted {t : FlowType} (h : NeverRefersTo a.name t) :
    (migrate c t).Yields (Counted c a.name t) := by
  induction t using FlowType.induction_on_parts with
  | h t ih =>
    -- most types keep what their parts become and record nothing: a union may drop its types,
    -- and a reference may be to an alias itself
    replace ih : ∀ p ∈ t.parts, (migrate c p).Yields (Counted c a.name p) :=
      fun p hp => ih p hp (h.part hp)
    have hsame (p : FlowType) : p ∈ t.parts ↔ p ∈ t.parts := Iff.rfl
    cases t with
    | keyword node word =>
      cases word with
      | any => exact .pure (counted_any c (.word node) rfl (.zero (List.forall_mem_nil _)))
      | existential =>
        intro u hu
        have halias : (migrate c (.keyword node .existential)).Gives fun fs u =>
            references a.name u = (aliasesIn fs).count a.name + 0 :=
          .map ((anyAlias_references .existential none).mono fun fs u hu =>
            (references_withOrigin u node).trans hu)
        exact counted_open c nofun (.zero (List.forall_mem_nil _)) rfl (halias u hu)
      | interface => exact .refuse _
      | _ => exact counted_all c ih nofun hsame (.pure ⟨[], .nil, references_of_parts rfl rfl⟩)
    | literal node v =>
      exact counted_all c ih nofun hsame (.pure ⟨[], .nil, references_of_parts rfl rfl⟩)
    | array node t | nullable node t =>
      exact counted_all c ih nofun hsame (.last ((migrate_became c t).mono fun fs u hu =>
        ⟨[u], hu, references_of_parts rfl rfl⟩))
    | tuple node ts =>
      exact counted_all c ih nofun hsame (.last ((migrateAll_became c ts).mono fun fs us hus =>
        ⟨us, hus, references_of_parts rfl rfl⟩))
    | union node ts => exact union_counted c node ih
    | intersection node ts =>
      exact counted_all c ih nofun hsame (.last ((migrateAll_became c ts).mono fun fs us hus =>
        ⟨us, hus, (references_of_parts rfl rfl).trans (referencesAll_parenthesized us)⟩))
    | typeof node t => exact typeof_counted c node t
    | indexedAccess node object index =>
      exact counted_all c ih nofun hsame (.bind ((migrate_became c object).mono fun fs u hu =>
        .last ((migrate_became c index).mono fun gs v hv =>
          ⟨[u, v], hu.append hv, references_of_parts rfl rfl⟩)))
    | optionalIndexedAccess node object index => exact .refuse _
    | generic node id args =>
      exact generic_counted c (fun n hid => (h _ (.refl _)).1 n (congrArg some hid)) ih
    | function node params result rest thisParam typeParams =>
      refine counted_all c ih nofun (fun p => mem_signatureTypes) ?_
      refine (migrate_function_became c node params result rest thisParam typeParams).mono ?_
      rintro fs _ ⟨s, rfl, hs⟩
      exact ⟨_, hs, references_of_parts rfl rfl⟩
    | object node members exact =>
      refine object_counted c node exact (fun m hm key hkey => ?_) fun m hm t ht =>
        ih t (List.mem_flatMap.2 ⟨m, hm, ht⟩)
      exact (h _ (.refl _)).2 key (List.mem_filterMap.2 ⟨m, hm, hkey⟩)

/-- **A report counts an alias as often as what was written refers to it.** A
type that does not refer to the alias already adds to the count of the alias the
references in what is written for it, and more only if a type in it that has
become `any` has dropped some that were counted. -/
theorem aliases_counted (a : AnyAlias) {t : FlowType} (h : NeverRefersTo a.name t)
    (before : List Finding) : (migrate c t).Gives fun fs u => ∃ dropped : Nat,
      (Report.ofFindings (before ++ fs)).usageOf a.name =
        (Report.ofFindings before).usageOf a.name + references a.name u + dropped ∧
      (dropped = 0 ↔ NothingDropped c a.name t) := by
  intro u hu
  obtain ⟨dropped, hcount, hdropped⟩ := migrate_counted c h u hu
  refine ⟨dropped, ?_, hdropped⟩
  rw [Report.usageOf_ofFindings, Report.usageOf_ofFindings, List.filterMap_append,
    List.count_append]
  change (aliasesIn _).count _ = _ at hcount
  rw [aliasesIn] at hcount
  omega

/-- `Object` -/
def bareObject : FlowType := .generic .null (.name ⟨.null, "Object"⟩) none

/-- `any | Object` -/
def anyOrObject : FlowType := .union .null [.keyword .null .any, bareObject]

/-- `[Object, *, any | Object]` -/
def severalAliases : FlowType :=
  .tuple .null [bareObject, .keyword .null .existential, anyOrObject]

/-- A type refers to a name by its own name, its keys or its parts only. -/
theorem NeverRefersTo.of_parts {t : FlowType} (hname : ∀ node, t.name? ≠ some (.name ⟨node, name⟩))
    (hkeys : t.keys = [])
    (hparts : ∀ p ∈ t.parts, NeverRefersTo name p) : NeverRefersTo name t := by
  intro v hv
  cases hv with
  | refl => exact ⟨hname, hkeys ▸ List.forall_mem_nil _⟩
  | part mem within => exact hparts _ mem v within

/-- A bare object refers to no alias by itself. -/
theorem bareObject_neverRefersTo : NeverRefersTo AnyAlias.object.name bareObject := by
  refine .of_parts (fun node hname => ?_) rfl (List.forall_mem_nil _)
  simp [bareObject, FlowType.name?, AnyAlias.name] at hname

/-- Nor does a keyword. -/
theorem keyword_neverRefersTo (word : FlowKeyword) :
    NeverRefersTo name (.keyword .null word) :=
  .of_parts (fun _ h => by cases h) rfl (List.forall_mem_nil _)

/-- Nor does the union of `any` and an object. -/
theorem anyOrObject_neverRefersTo : NeverRefersTo AnyAlias.object.name anyOrObject :=
  .of_parts (fun _ h => by cases h) rfl (List.forall_mem_cons.2
    ⟨keyword_neverRefersTo .any, List.forall_mem_singleton.2 bareObject_neverRefersTo⟩)

/-- Two uses of the alias are counted; there is one reference to it, and one is dropped. -/
theorem aliases_counted_severalAliases :
    NeverRefersTo AnyAlias.object.name severalAliases ∧
    ∃ fs u, migrate ⟨"a.js", "h"⟩ severalAliases = ⟨fs, .ok u⟩ ∧
      (Report.ofFindings fs).usageOf "FlowAnyObject" = 2 ∧ references "FlowAnyObject" u = 1 ∧
      ¬ NothingDropped ⟨"a.js", "h"⟩ "FlowAnyObject" severalAliases := by
  have hnever : NeverRefersTo AnyAlias.object.name severalAliases :=
    .of_parts (fun _ h => by cases h) rfl (List.forall_mem_cons.2 ⟨bareObject_neverRefersTo,
      List.forall_mem_cons.2 ⟨keyword_neverRefersTo .existential,
        List.forall_mem_singleton.2 anyOrObject_neverRefersTo⟩⟩)
  refine ⟨hnever, _, _, rfl, by decide +kernel, by decide +kernel, fun hnone => ?_⟩
  obtain ⟨dropped, hcount, hdropped⟩ :=
    aliases_counted ⟨"a.js", "h"⟩ .object hnever [] _ rfl
  rw [hdropped.2 hnone] at hcount
  exact absurd hcount (by decide +kernel)

/-- The alias is counted, and nothing that is written refers to it. -/
theorem dropped_alias_counted : NeverRefersTo AnyAlias.object.name anyOrObject ∧
    ∃ fs u, migrate ⟨"a.js", "h"⟩ anyOrObject = ⟨fs, .ok u⟩ ∧
      (Report.ofFindings fs).usageOf "FlowAnyObject" = 1 ∧ references "FlowAnyObject" u = 0 := by
  refine ⟨anyOrObject_neverRefersTo, _, _, rfl, ?_, references_any rfl⟩
  rw [Report.usageOf_ofFindings]
  rfl

end Migration

end Retype
