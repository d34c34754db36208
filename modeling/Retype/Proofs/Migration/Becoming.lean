import Retype.Proofs.Migration.Members
import Retype.Report.Basic
/-!
# What lists of types become

The lists of types in a type are rewritten item by item, and each alias of `any`
that is recorded on the way is recorded for one of the items (`Became`). `Gives`
is `Yields` with what was recorded in view.
-/

namespace Retype

variable {α β : Type}

/-- What holds of what is recorded and of the result, if there is one. -/
def Recorded.Gives (x : Recorded α) (P : List Finding → α → Prop) : Prop :=
  ∀ a, x.result = .ok a → P x.findings a

namespace Recorded.Gives

variable {P Q : List Finding → α → Prop}

/-- A weaker relation of findings and value is given too. -/
theorem mono {x : Recorded α} (h : x.Gives P) (hPQ : ∀ fs a, P fs a → Q fs a) : x.Gives Q :=
  fun a ha => hPQ _ a (h a ha)

/-- What is yielded apart may be given together. -/
theorem and_yields {x : Recorded α} {R : α → Prop} (h : x.Gives P) (hR : x.Yields R) :
    x.Gives fun fs a => P fs a ∧ R a := fun a ha => ⟨h a ha, hR a ha⟩

/-- A value returned has no findings. -/
theorem pure {a : α} (h : P [] a) : Recorded.Gives (Pure.pure a) P := by
  rintro _ ⟨⟩
  exact h

/-- A refusal gives anything. -/
theorem refuse (e : Refusal) : Recorded.Gives (Recorded.refuse e) P := nofun

/-- The findings of two steps stand one after the other. -/
theorem bind {x : Recorded α} {f : α → Recorded β} {P : List Finding → β → Prop}
    (h : x.Gives fun fs a => (f a).Gives fun gs b => P (fs ++ gs) b) : (x >>= f).Gives P := by
  obtain ⟨findings, result⟩ := x
  cases result with
  | error e => exact nofun
  | ok a => exact h a rfl

/-- What is done last, before the result is made. -/
theorem last {x : Recorded α} {f : α → β} {P : List Finding → β → Prop}
    (h : x.Gives fun fs a => P fs (f a)) : Recorded.Gives (x >>= fun a => Pure.pure (f a)) P :=
  bind (h.mono fun fs _ ha => pure ((List.append_nil fs).symm ▸ ha))

/-- The image of a step has its findings. -/
theorem map {x : Recorded α} {f : α → β} {P : List Finding → β → Prop}
    (h : x.Gives fun fs a => P fs (f a)) : (f <$> x).Gives P := by
  rw [map_eq_pure_bind]
  exact last h

/-- What is done first only under a condition, where its findings do not count. -/
theorem first {c : Prop} [Decidable c] {x : Recorded Unit} {f : Unit → Recorded α}
    (h : (f ()).Gives P) (hx : ∀ gs a, P gs a → P (x.findings ++ gs) a) :
    Recorded.Gives (if c then x >>= f else f ()) P := by
  split
  · refine bind fun _ _ => h.mono hx
  · exact h

end Recorded.Gives

namespace Migration

variable (c : TypeContext)

/-- The aliases of `any` that some findings are about. -/
def aliasesIn (fs : List Finding) : List String := fs.filterMap Report.aliasIn?

/-- The aliases in joined findings are joined. -/
theorem aliasesIn_append (fs gs : List Finding) :
    aliasesIn (fs ++ gs) = aliasesIn fs ++ aliasesIn gs := List.filterMap_append

/-- A place is no alias. -/
theorem aliasesIn_notePlace (category : PlaceCategory) (n : Json) :
    aliasesIn (notePlace c category n).findings = [] := by
  rw [notePlace]
  cases Location.ofNodeOrRefuse c.path n with
  | ok l => exact (rfl : aliasesIn [.place category l] = [])
  | error e => rfl

/-- The aliases that are recorded for a type. -/
def aliasesOf (t : FlowType) : List String := aliasesIn (migrate c t).findings

/-- Some types have become others, one each, and the aliases that were recorded
are those of the types. -/
structure Became (ts : List FlowType) (fs : List Finding) (us : List TsType) : Prop where
  aliases : aliasesIn fs = ts.flatMap (aliasesOf c)
  types : List.Forall₂ (fun t u => (migrate c t).result = .ok u) ts us

namespace Became

variable {c} {ts ts' : List FlowType} {fs fs' : List Finding} {us us' : List TsType}

/-- No types become none, without findings. -/
theorem nil : Became c [] [] [] := ⟨rfl, .nil⟩

/-- Types that become others list by list do so when joined. -/
theorem append (h : Became c ts fs us) (h' : Became c ts' fs' us') :
    Became c (ts ++ ts') (fs ++ fs') (us ++ us') where
  aliases := by rw [aliasesIn_append, h.aliases, h'.aliases, List.flatMap_append]
  types := List.rel_append h.types h'.types

/-- Only the aliases among the findings matter. -/
theorem recorded (h : Became c ts fs us) (hfs : aliasesIn fs' = aliasesIn fs) :
    Became c ts fs' us := ⟨hfs.trans h.aliases, h.types⟩

end Became

/-- One type. -/
theorem migrate_became (t : FlowType) : (migrate c t).Gives fun fs u => Became c [t] fs [u] :=
  fun _ hu => ⟨(List.append_nil _).symm, .cons hu .nil⟩

/-- The types of a list become others one by one. -/
theorem migrateAll_became (ts : List FlowType) : (migrateAll c ts).Gives (Became c ts) := by
  induction ts with
  | nil => exact .pure .nil
  | cons t ts ih =>
    exact .bind ((migrate_became c t).mono fun fs u hu => .last (ih.mono fun gs us hus =>
      hu.append hus))

/-- A union, which keeps all its types unless it has become `any`. -/
theorem migrate_union_became (node : Json) (ts : List FlowType) :
    (migrate c (.union node ts)).Gives fun fs u => ∃ us, Became c ts fs us ∧
      (¬ AmountsToAny (.union node ts) →
        u = .union (some node) (us.map TsType.parenthesizeFunction)) := by
  have hwords : (migrateAll c ts).Gives fun fs us => Became c ts fs us ∧
      List.Forall₂ (fun t u => u.isWord .any = true ↔ AmountsToAny t) ts us :=
    (migrateAll_became c ts).and_yields (migrateAll_related c fun t _ => migrate_isAny c t)
  refine .last (hwords.mono fun fs us hboth => ⟨us, hboth.1, fun hopen => ?_⟩)
  -- `unionOf` looks for `any` among the types, and there is none
  have hnone : ∀ u ∈ us, u.isWord .any = false := by
    rw [amountsToAny_union, ← exists_mem_iff_of_related hboth.2] at hopen
    simpa using hopen
  rw [unionOf_of_notAny (List.forall_mem_map.2 fun u hu => by simpa using hnone u hu)]
  rfl

/-- So does a type that may be absent. -/
theorem migrateOption_became (t : Option FlowType) :
    (migrateOption c t).Gives fun fs u => Became c t.toList fs u.toList := by
  cases t with
  | none => exact .pure .nil
  | some t => exact .last ((migrate_became c t).mono fun _ _ hu => hu)

/-- So do type arguments. -/
theorem migrateArgsOption_became (args : Option (FlowArgs FlowType)) :
    (migrateArgsOption c args).Gives fun fs args' =>
      Became c ((args.map (·.params)).getD []) fs ((args'.map (·.params)).getD []) := by
  match args with
  | none => exact .pure .nil
  | some ⟨_, []⟩ => exact .pure .nil
  | some ⟨node, t :: ts⟩ =>
    have hargs : (migrateArgs c ⟨node, t :: ts⟩).Gives fun fs as =>
        Became c (t :: ts) fs as.params := .last (migrateAll_became c (t :: ts))
    exact .last hargs

/-- So do the bounds and defaults of type parameters. -/
theorem migrateTypeParamList_became (params : List (FlowTypeParam FlowType)) :
    (migrateTypeParamList c params).Gives fun fs ps =>
      Became c (params.flatMap fun p => p.bound.toList ++ p.default.toList) fs
        (ps.flatMap fun p => p.bound.toList ++ p.default.toList) := by
  induction params with
  | nil => exact .pure .nil
  | cons p rest ih =>
    obtain ⟨node, name, bound, default, variance⟩ := p
    rw [migrateTypeParamList]
    refine .first ?_ fun gs ps hps => hps.recorded ?_
    · refine .bind ((migrateOption_became c bound).mono fun fs bound' hbound => ?_)
      refine .bind ((migrateOption_became c default).mono fun gs default' hdefault => ?_)
      refine .last (ih.mono fun hs ps hps => ?_)
      rw [← List.append_assoc]
      exact (hbound.append hdefault).append hps
    · rw [aliasesIn_append, aliasesIn_notePlace, List.nil_append]

/-- So do those of type parameters that may be absent. -/
theorem migrateTypeParamsOption_became (params : Option (FlowTypeParams FlowType)) :
    (migrateTypeParamsOption c params).Gives fun fs params' =>
      Became c ((params.map (·.types)).getD []) fs ((params'.map (·.types)).getD []) := by
  match params with
  | none => exact .pure .nil
  | some ⟨node, params⟩ =>
    have hparams : (migrateTypeParams c ⟨node, params⟩).Gives fun fs ps =>
        Became c (FlowTypeParams.types ⟨node, params⟩) fs ps.types :=
      .last (migrateTypeParamList_became c params)
    exact .last hparams

/-- So do the types of parameters. -/
theorem migrateParams_became (params : List (FlowParam FlowType)) (number : Nat) :
    (migrateParams c number params).Gives fun fs ps =>
      Became c (params.map (·.type)) fs (ps.map (·.type)) := by
  induction params generalizing number with
  | nil => exact .pure .nil
  | cons p rest ih =>
    exact .bind ((migrate_became c p.type).mono fun fs u hu => .last ((ih _).mono fun gs ps hps =>
      hu.append hps))

/-- So does that of the `this` parameter. -/
theorem migrateThis_became (param : Option (FlowParam FlowType)) :
    (migrateThis c param).Gives fun fs ps =>
      Became c (param.toList.map (·.type)) fs (ps.map (·.type)) := by
  cases param with
  | none => exact .pure .nil
  | some p => exact .last ((migrate_became c p.type).mono fun _ _ hu => hu)

/-- So does that of the rest parameter. -/
theorem migrateRest_became (param : Option (FlowParam FlowType)) :
    (migrateRest c param).Gives fun fs ps =>
      Became c (param.toList.map (·.type)) fs (ps.map (·.type)) := by
  cases param with
  | none => exact .pure .nil
  | some p => exact .last ((migrate_became c p.type).mono fun _ _ hu => hu)

/-- A name without arguments. -/
def IsBareName (t : FlowType) : Prop := ∃ node id args, t = .generic node id args ∧ t.parts = []

/-- The argument of `typeof` is not rewritten as a type. -/
theorem migrateTypeof_bare (t : FlowType) : (migrateTypeof c t).Gives fun fs u =>
    IsBareName t ∧ fs = [] ∧ ∃ id, u = .query none id := by
  unfold migrateTypeof
  split
  next _ argument id args =>
    split
    next => exact .refuse _
    next hargs =>
      refine .pure ⟨⟨argument, id, args, rfl, ?_⟩, rfl, _, rfl⟩
      match args with
      | none => rfl
      | some ⟨_, []⟩ => rfl
      | some ⟨_, _ :: _⟩ => exact absurd rfl (hargs _ _ _)
  next => exact .refuse _

/-! ## Signatures -/

/-- The types in a function type, in the order in which they are rewritten. -/
def signatureTypes (params : List (FlowParam FlowType)) (result : FlowType)
    (rest thisParam : Option (FlowParam FlowType)) (typeParams : Option (FlowTypeParams FlowType)) :
    List FlowType :=
  (thisParam.toList ++ params ++ rest.toList).map (·.type)
    ++ result :: (typeParams.map (·.types)).getD []

/-- The types of a signature are those of its parts. -/
theorem mem_signatureTypes {node : Json} {params : List (FlowParam FlowType)} {result : FlowType}
    {rest thisParam : Option (FlowParam FlowType)} {typeParams : Option (FlowTypeParams FlowType)}
    {t : FlowType} : t ∈ signatureTypes params result rest thisParam typeParams ↔
      t ∈ (FlowType.function node params result rest thisParam typeParams).parts := by
  simp only [signatureTypes, FlowType.parts, List.map_append, List.mem_append, List.mem_cons,
    List.cons_append]
  tauto

/-- **A function becomes one with the types that its own became.** -/
theorem migrate_function_became (node : Json) (params : List (FlowParam FlowType))
    (result : FlowType) (rest thisParam : Option (FlowParam FlowType))
    (typeParams : Option (FlowTypeParams FlowType)) :
    (migrate c (.function node params result rest thisParam typeParams)).Gives fun fs u =>
      ∃ s, u = .function (some node) s ∧
        Became c (signatureTypes params result rest thisParam typeParams) fs s.types := by
  refine .bind ((migrateThis_became c thisParam).mono fun fs₁ this' hthis => ?_)
  refine .bind ((migrateParams_became c params 1).mono fun fs₂ params' hparams => ?_)
  refine .bind ((migrateRest_became c rest).mono fun fs₃ rest' hrest => ?_)
  refine .bind ((migrate_became c result).mono fun fs₄ result' hresult => ?_)
  refine .last ((migrateTypeParamsOption_became c typeParams).mono fun fs₅ ps hps => ?_)
  refine ⟨_, rfl, ?_⟩
  have hall := ((hthis.append hparams).append hrest).append (hresult.append hps)
  simpa only [signatureTypes, TsSignature.types, List.map_append, List.append_assoc,
    List.singleton_append] using hall

end Migration

end Retype
