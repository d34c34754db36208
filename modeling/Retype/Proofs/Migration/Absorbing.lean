import Retype.Proofs.Migration.Formed
/-!
# Unions with `any` in them

A union with `any` among its members becomes `any` itself, through all the
unions around it (`migrate_isAny`). The union that a nullable type becomes is
not collapsed: with a type that amounts to `any` it is the only sort of union
that has `any` as a member (`any_absorbs`).
-/

namespace Retype.Migration

open TypeScript (encode annotationNode)

/-- A type amounts to `any`: it is `any`, a union with a member that amounts to
it, or the exact form of such a type. -/
inductive AmountsToAny : FlowType → Prop
  | word (node : Json) : AmountsToAny (.keyword node .any)
  | union (node : Json) {types : List FlowType} {t : FlowType} (member : t ∈ types)
      (amounts : AmountsToAny t) : AmountsToAny (.union node types)
  | exact (node : Json) {id : FlowEntity} (args : Json) {t : FlowType}
      (name : (migrateEntity id).text = "$Exact") (amounts : AmountsToAny t) :
      AmountsToAny (.generic node id (some ⟨args, [t]⟩))

theorem amountsToAny_union {node : Json} {ts : List FlowType} :
    AmountsToAny (.union node ts) ↔ ∃ t ∈ ts, AmountsToAny t := by
  constructor
  · intro h
    cases h with
    | union _ member amounts => exact ⟨_, member, amounts⟩
  · rintro ⟨t, member, amounts⟩
    exact .union node member amounts

theorem amountsToAny_generic {node : Json} {id : FlowEntity} {args : Option (FlowArgs FlowType)} :
    AmountsToAny (.generic node id args) ↔ (migrateEntity id).text = "$Exact" ∧
      ∃ t, (args.map (·.params)).getD [] = [t] ∧ AmountsToAny t := by
  constructor
  · intro h
    cases h with
    | exact _ _ name amounts => exact ⟨name, _, rfl, amounts⟩
  · rintro ⟨hname, t, hparams, amounts⟩
    cases args with
    | none => cases hparams
    | some args =>
      obtain ⟨argsNode, params⟩ := args
      obtain rfl : params = [t] := hparams
      exact .exact node argsNode hname amounts

variable (c : TypeContext)

/-! ## Lists of types -/

/-- What relates each type to what it becomes relates the lists. -/
theorem migrateAll_related {R : FlowType → TsType → Prop} {ts : List FlowType}
    (h : ∀ t ∈ ts, (migrate c t).Yields (R t)) : (migrateAll c ts).Yields (List.Forall₂ R ts) := by
  induction ts with
  | nil => exact .pure .nil
  | cons t ts ih =>
    rw [List.forall_mem_cons] at h
    exact .bind (h.1.mono fun u hu => .bind ((ih h.2).mono fun us hus => .pure (.cons hu hus)))

theorem migrateArgsOption_related {R : FlowType → TsType → Prop} {args : Option (FlowArgs FlowType)}
    (h : ∀ t ∈ (args.map (·.params)).getD [], (migrate c t).Yields (R t)) :
    (migrateArgsOption c args).Yields fun args' =>
      List.Forall₂ R ((args.map (·.params)).getD []) ((args'.map (·.params)).getD []) := by
  match args with
  | none => exact .pure .nil
  | some ⟨_, []⟩ => exact .pure .nil
  | some ⟨node, t :: ts⟩ =>
    exact .bind (.bind ((migrateAll_related c h).mono fun us hus => .pure (.pure hus)))

theorem exists_mem_iff_of_related {α β : Type} {p : α → Prop} {q : β → Prop} {xs : List α}
    {ys : List β} (h : List.Forall₂ (fun x y => q y ↔ p x) xs ys) :
    (∃ y ∈ ys, q y) ↔ ∃ x ∈ xs, p x := by
  induction h with
  | nil => exact iff_of_false nofun nofun
  | cons hxy _ ih => simp [hxy, ih]

/-! ## Where `any` goes -/

theorem unionOf_isAny (us : List TsType) :
    (unionOf us).isWord .any = true ↔ ∃ u ∈ us, u.isWord .any = true := by
  rw [unionOf]
  split
  next t ht =>
    have hany : t.isWord .any = true := by simpa using List.find?_some ht
    exact iff_of_true hany ⟨t, List.mem_of_find?_eq_some ht, hany⟩
  next hnone => exact iff_of_false Bool.false_ne_true (by simpa using hnone)

theorem unionOf_of_notAny {us : List TsType} (h : ∀ u ∈ us, u.isWord .any = false) :
    unionOf us = .union none us := by
  have hnone : us.find? (·.isWord .any) = none :=
    List.find?_eq_none.2 fun u hu => by simp [h u hu]
  rw [unionOf, hnone]

/-- Only `$Exact` hands on its argument. -/
theorem migrateReference_isAny (name : TsEntity) (args : Option (TsArgs TsType)) :
    (migrateReference c name args).Yields fun u => u.isWord .any = true ↔
      name.text = "$Exact" ∧ ∃ t, (args.map (·.params)).getD [] = [t] ∧ t.isWord .any = true := by
  have hother {x : Recorded TsType} (h : name.text ≠ "$Exact")
      (hx : x.Yields fun u => u.isWord .any = false) :
      x.Yields fun u => u.isWord .any = true ↔ name.text = "$Exact" ∧
        ∃ t, (args.map (·.params)).getD [] = [t] ∧ t.isWord .any = true :=
    hx.mono fun u hu => iff_of_false (by simp [hu]) fun h' => h h'.1
  have halias (a : AnyAlias) (as : Option (TsArgs TsType)) :
      (anyAlias a as).Yields fun u => u.isWord .any = false := .bind (.trivial _ fun _ => .pure rfl)
  rw [migrateReference]
  split
  next hname _ => exact hother (by simp [hname]) (halias _ _)
  next hname _ => exact hother (by simp [hname]) (halias _ _)
  next hname _ => exact hother (by simp [hname]) (.pure rfl)
  next hname _ => exact hother (by simp [hname]) (.pure rfl)
  next hname _ => exact hother (by simp [hname]) (.pure rfl)
  next hname _ => exact hother (by simp [hname]) (.pure rfl)
  next hname _ => exact hother (by simp [hname]) (.pure rfl)
  next t hname hparams => exact .pure (by simp [hname, hparams])
  next hname _ => exact hother (by simp [hname]) (halias _ _)
  next hname _ => exact hother (by simp [hname]) (.pure rfl)
  next hname _ => exact hother (by simp [hname]) (.pure rfl)
  next hname _ => exact hother (by simp [hname]) (.pure rfl)
  next hname _ => exact hother (by simp [hname]) (.ite (fun _ => .pure rfl) fun _ => .pure rfl)
  next hexact _ _ _ _ _ =>
    refine .first (.pure (iff_of_false Bool.false_ne_true ?_))
    rintro ⟨hname, t, hparams, -⟩
    exact hexact t hname hparams

theorem objectOfParts_notAny {parts : List ObjectPart}
    (h : ∀ p ∈ parts, p.Is (fun _ => True) fun t => t.isWord .any = false) :
    (objectOfParts parts).isWord .any = false := by
  have hts : ∀ t ∈ gatherParts [] parts, t.isWord .any = false :=
    gatherParts_each (fun _ _ => rfl) (List.forall_mem_nil _) h
  rw [objectOfParts]
  split
  next => rfl
  next t heq => exact hts t (by simp [heq])
  next => rfl

theorem migrateMember_notAny (m : FlowMember FlowType) :
    (migrateMember c m).Yields fun p => p.Is (fun _ => True) fun t => t.isWord .any = false := by
  cases m with
  | property node key value traits =>
    exact .bind (.trivial _ fun _ => .bind (.trivial _ fun _ => .bind (.trivial _ fun _ =>
      .pure trivial)))
  | spread node argument => exact .bind (.trivial _ fun _ => .pure rfl)
  | indexer node id key value variance isStatic =>
    refine .first (.first (.bind (.trivial _ fun key => .bind (.trivial _ fun value => .pure ?_))))
    rw [indexerPart]
    split
    · exact trivial
    · rfl
  | callProperty node value => exact .refuse _
  | internalSlot node id => exact .refuse _

/-- **What becomes `any`**, by itself, is what amounts to it. -/
theorem migrate_isAny (t : FlowType) :
    (migrate c t).Yields fun u => u.isWord .any = true ↔ AmountsToAny t := by
  induction t using FlowType.induction_on_parts with
  | h t ih =>
    cases t with
    | keyword node word =>
      cases word with
      | any => exact .pure (iff_of_true rfl (.word node))
      | existential =>
        exact .map (.bind (.trivial _ fun _ => .pure (iff_of_false nofun nofun)))
      | interface => exact .refuse _
      | _ => exact .pure (iff_of_false nofun nofun)
    | literal node v => exact .pure (iff_of_false nofun nofun)
    | array node t => exact .bind (.trivial _ fun _ => .pure (iff_of_false nofun nofun))
    | nullable node t => exact .bind (.trivial _ fun _ => .pure (iff_of_false nofun nofun))
    | tuple node ts => exact .bind (.trivial _ fun _ => .pure (iff_of_false nofun nofun))
    | union node ts =>
      refine .bind ((migrateAll_related c ih).mono fun us hus => .pure ?_)
      rw [TsType.isWord_withOrigin, unionOf_isAny, amountsToAny_union]
      simpa [FlowType.parts] using exists_mem_iff_of_related hus
    | intersection node ts => exact .bind (.trivial _ fun _ => .pure (iff_of_false nofun nofun))
    | typeof node t =>
      refine .map ?_
      unfold migrateTypeof
      split
      next =>
        split
        · exact .refuse _
        · exact .pure (iff_of_false nofun nofun)
      next => exact .refuse _
    | indexedAccess node object index =>
      exact .bind (.trivial _ fun _ => .bind (.trivial _ fun _ => .pure (iff_of_false nofun nofun)))
    | optionalIndexedAccess node object index => exact .refuse _
    | generic node id args =>
      refine .bind ((migrateArgsOption_related c ih).mono fun args' hargs => .map ?_)
      refine (migrateReference_isAny c (migrateEntity id) args').mono fun u hu => ?_
      rw [TsType.isWord_withOrigin, hu, amountsToAny_generic]
      refine and_congr_right fun _ => ?_
      generalize (args.map (·.params)).getD [] = ts, (args'.map (·.params)).getD [] = us at hargs
      cases hargs with
      | nil => exact iff_of_false nofun nofun
      | cons hfirst hrest =>
        cases hrest with
        | nil => simp [hfirst]
        | cons => exact iff_of_false nofun nofun
    | function node params result rest thisParam typeParams =>
      exact .bind (.trivial _ fun _ => .bind (.trivial _ fun _ => .bind (.trivial _ fun _ =>
        .bind (.trivial _ fun _ => .bind (.trivial _ fun _ => .pure (iff_of_false nofun nofun))))))
    | object node members exact =>
      refine .bind ((migrateMembers_each c fun m _ => migrateMember_notAny c m).mono
        fun ps hps => .pure (iff_of_false ?_ nofun))
      rw [TsType.isWord_withOrigin, objectOfParts_notAny hps]
      exact nofun

/-! ## Unions -/

/-- A union in a type that another one became has `any` as a member only if it
is that of a nullable type, of one that amounts to `any`. -/
def AnyFromNullable (t : FlowType) (u : TsType) : Prop :=
  ∀ v : TsType, v.Within u → ∀ us, v.alternatives? = some us → ∀ w ∈ us, w.isWord .any = true →
    ∃ node inner, (FlowType.nullable node inner).Within t ∧ AmountsToAny inner ∧
      ∃ origin, us = [.keyword origin .any, TsType.word .null, TsType.word .undefined]

theorem exists_of_isWord {u : TsType} {k : TsKeyword} (h : u.isWord k = true) :
    ∃ origin, u = .keyword origin k := by
  cases u with
  | keyword origin k' =>
    obtain rfl : k' = k := of_decide_eq_true h
    exact ⟨origin, rfl⟩
  | _ => cases h

theorem migrate_anyFromNullable (t : FlowType) : (migrate c t).Yields (AnyFromNullable t) := by
  have hformed : (migrate c t).Yields (Formed (fun us => ∀ w ∈ us, w.isWord .any = true →
      ∃ node inner, (FlowType.nullable node inner).Within t ∧ AmountsToAny inner ∧
        ∃ origin, us = [.keyword origin .any, TsType.word .null, TsType.word .undefined])
      fun _ => True) := by
    refine migrate_formed c (fun us hus w hw hany => ?_) (fun node inner hinner => ?_)
      fun _ _ _ _ => trivial
    · rw [hus w hw] at hany
      cases hany
    · refine (migrate_isAny c inner).mono fun u hu w hw hany => ?_
      -- neither `null` nor `undefined` is `any`
      have hfirst : u.isWord .any = true := by
        simp only [List.mem_cons, List.not_mem_nil, or_false] at hw
        rcases hw with rfl | rfl | rfl
        · exact hany
        · cases hany
        · cases hany
      obtain ⟨origin, rfl⟩ := exists_of_isWord hfirst
      exact ⟨node, inner, hinner, hu.1 hfirst, origin, rfl⟩
  exact hformed.mono fun u hu v hv => (hu.within hv).union

/-! ## Annotations -/

/-- The alias for what was inferred to be `any`. -/
def inferredAlias : TsType := .reference none (TsEntity.ofText AnyAlias.inferred.name) none

/-- What an annotation for an inferred type is: the alias for `any`, if the type
amounts to `any`, or what the type becomes, which is not `any`. -/
def InferredAs (o : FileOptions) (type annotation : Json) : Prop :=
  ((type.stripPositions.hasText "type" "EmptyTypeAnnotation" = true ∨
      ∃ t, Flow.decodeType o.path type.stripPositions = .ok t ∧ AmountsToAny t) ∧
    annotation = annotationNode (encode inferredAlias)) ∨
  ∃ t u, Flow.decodeType o.path type.stripPositions = .ok t ∧ ¬ AmountsToAny t ∧
    (migrate o.types t).result = .ok u ∧ u.isWord .any = false ∧ AnyFromNullable t u ∧
    annotation = annotationNode (encode u)

theorem annotationInferred_as (o : FileOptions) (location : Location) (type : Json) :
    (annotationInferred o location (some type)).Yields fun a =>
      ∀ annotation, a = some annotation → InferredAs o type annotation := by
  refine annotationInferred_yields fun type' htype => ?_
  obtain rfl : type = type' := Option.some.inj htype
  have halias {t : TsType} (ht : t.isWord .any = true)
      (hamounts : type.stripPositions.hasText "type" "EmptyTypeAnnotation" = true ∨
        ∃ t, Flow.decodeType o.path type.stripPositions = .ok t ∧ AmountsToAny t) :
      (annotationOf t).Yields fun a => ∀ annotation, a = some annotation →
        InferredAs o type annotation := by
    rw [annotationOf, if_pos ht]
    refine .bind (.bind (.trivial _ fun _ => .pure (.pure ?_)))
    rintro _ ⟨⟩
    exact .inl ⟨hamounts, rfl⟩
  refine .ite (fun hempty => .pure (halias rfl (.inl hempty))) fun _ => ?_
  refine .bind (.ofResult fun t ht => ?_)
  have hmigrated := (migrate_isAny o.types t).and (migrate_anyFromNullable o.types t)
  intro u hu
  obtain ⟨hany, hunions⟩ := hmigrated u hu
  cases hword : u.isWord .any with
  | true => exact halias hword (.inr ⟨t, ht, hany.1 hword⟩)
  | false =>
    rw [annotationOf, hword]
    refine .bind (.pure (.pure ?_))
    rintro _ ⟨⟩
    have hamounts : ¬ AmountsToAny t := fun h => by simp [hany.2 h] at hword
    exact .inr ⟨t, u, ht, hamounts, hu, hword, hunions, rfl⟩

/-- **Only a nullable type leaves `any` in a union.** Whatever a type becomes,
no union in it has `any` as a member, at any depth, except for those of nullable
types that amount to `any`. The same holds of an annotation for an inferred type,
which is the alias for `any` where the type amounts to it, and is not `any`
elsewhere. -/
theorem any_absorbs (o : FileOptions) :
    (∀ t, (migrate o.types t).Yields (AnyFromNullable t)) ∧
    ∀ (location : Location) (type : Json), (annotationInferred o location (some type)).Yields
      fun a => ∀ annotation, a = some annotation → InferredAs o type annotation :=
  ⟨migrate_anyFromNullable o.types, annotationInferred_as o⟩

/-- `?any` -/
def nullableAny : FlowType := .nullable .null (.keyword .null .any)

/-- The union of a nullable type has `any` as a member. -/
theorem union_with_any : ∃ u us, (migrate ⟨"a.js", "h"⟩ nullableAny).result = .ok u ∧
    u.alternatives? = some us ∧ us.any (·.isWord .any) = true :=
  ⟨_, _, rfl, rfl, rfl⟩

end Retype.Migration
