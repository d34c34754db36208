import Retype.Proofs.Migration.Formed
import Retype.Proofs.Syntax.Steps
/-!
# What rewriting a file can find

Rewriting a file finds places in that file, aliases and utility types
(`Finding.IsIn`), never a file: that a file is too large or has failed is found
by whoever has it rewritten. The parameters that wait stand in the file as well.
Types are recorded results, so their findings go by what they are made of
(`Recorded.Finds`); a walk keeps what each of its steps keeps (`Rewrite.Keeps`).
-/

namespace Retype

/-- A finding that rewriting the file at a path can make. -/
def Finding.IsIn (path : String) : Finding → Prop
  | .file .. => False
  | .place _ location => location.path = path
  | .anyAlias _ => True
  | .utilityType _ => True

/-- A finding in the file at a path that is made without a cast. -/
structure Finding.IsOrdinary (path : String) (f : Finding) : Prop where
  isIn : f.IsIn path
  castless : ∀ l, f ≠ .place .unsupportedTypeCast l

/-- A finding that a type makes in the file at a path: no cast, and no parameter
that is left without a type. -/
structure Finding.IsOfType (path : String) (f : Finding) : Prop extends f.IsOrdinary path where
  annotated : ∀ l, f ≠ .place .unannotatedParameter l

theorem Finding.isOfType_anyAlias (path name : String) : (anyAlias name).IsOfType path :=
  ⟨⟨trivial, by simp⟩, by simp⟩

theorem Finding.isOfType_utilityType (path name : String) : (utilityType name).IsOfType path :=
  ⟨⟨trivial, by simp⟩, by simp⟩

/-- A place in the file is an ordinary finding, unless it is that of a cast. -/
theorem Finding.isOrdinary_place {path : String} {category : PlaceCategory} {l : Location}
    (hcategory : category ≠ .unsupportedTypeCast) (hl : l.path = path) :
    (place category l).IsOrdinary path :=
  ⟨hl, fun _ heq => hcategory (place.inj heq).1⟩

/-- The location of a node is in the file that the node was read from. -/
theorem Location.path_of_ofNode? {path : String} {node : Json} {l : Location}
    (h : Location.ofNode? path node = .ok (some l)) : l.path = path := by
  unfold ofNode? at h
  split at h
  · cases h
  · split at h
    next start stop _ _ =>
      cases hstart : Position.ofJson start with
      | error e =>
        rw [hstart] at h
        cases h
      | ok first =>
        cases hstop : Position.ofJson stop with
        | error e =>
          rw [hstart, hstop] at h
          cases h
        | ok last =>
          rw [hstart, hstop] at h
          cases h
          rfl
    · cases h

/-- A node that is in a file stands in that file. -/
theorem Location.path_of_ofNodeOrRefuse {path : String} {node : Json} {l : Location}
    (h : Location.ofNodeOrRefuse path node = .ok l) : l.path = path := by
  unfold ofNodeOrRefuse Location.ofNode at h
  cases hnode : Location.ofNode? path node with
  | error e =>
    rw [hnode] at h
    cases h
  | ok found =>
    rw [hnode] at h
    cases h
    cases found with
    | none => rfl
    | some l => exact path_of_ofNode? hnode

/-! ## Recorded results -/

variable {α β : Type} {P : Finding → Prop}

/-- What holds of all findings of a recorded result. -/
def Recorded.Finds (x : Recorded α) (P : Finding → Prop) : Prop := ∀ f ∈ x.findings, P f

namespace Recorded.Finds

/-- A weaker condition holds of the findings too. -/
theorem mono {Q : Finding → Prop} {x : Recorded α} (h : x.Finds P) (hPQ : ∀ f, P f → Q f) :
    x.Finds Q := fun f hf => hPQ f (h f hf)

/-- A value by itself finds nothing. -/
theorem pure (a : α) : Recorded.Finds (Pure.pure a) P := fun _ h => absurd h List.not_mem_nil

/-- A result finds nothing, be it a value or an error. -/
theorem ofResult (r : Result α) : Recorded.Finds (Recorded.ofResult r) P :=
  fun _ h => absurd h List.not_mem_nil

/-- A refusal finds nothing. -/
theorem refuse (e : Refusal) : Recorded.Finds (Recorded.refuse e : Recorded α) P :=
  fun _ h => absurd h List.not_mem_nil

/-- A note finds what it notes. -/
theorem note {f : Finding} (h : P f) : Recorded.Finds (Recorded.note f) P :=
  List.forall_mem_singleton.2 h

/-- What is found on the way to a result, and from there on. -/
theorem bind_yields {x : Recorded α} {f : α → Recorded β} (hx : x.Finds P)
    (hf : x.Yields fun a => (f a).Finds P) : Recorded.Finds (x >>= f) P := by
  obtain ⟨findings, result⟩ := x
  cases result with
  | error e => exact hx
  | ok a => exact List.forall_mem_append.2 ⟨hx, hf a rfl⟩

/-- What two steps find in a row was found by one of them. -/
theorem bind {x : Recorded α} {f : α → Recorded β} (hx : x.Finds P) (hf : ∀ a, (f a).Finds P) :
    Recorded.Finds (x >>= f) P :=
  bind_yields hx (.trivial x hf)

/-- A map finds nothing of its own. -/
theorem map {x : Recorded α} (f : α → β) (hx : x.Finds P) : Recorded.Finds (f <$> x) P := by
  rw [map_eq_pure_bind]
  exact bind hx fun a => pure _

/-- A choice finds what its branches find. -/
theorem ite {c : Prop} [Decidable c] {x y : Recorded α} (hx : x.Finds P) (hy : y.Finds P) :
    Recorded.Finds (if c then x else y) P := by
  split
  · exact hx
  · exact hy

/-- What is done first only under a condition. -/
theorem first {c : Prop} [Decidable c] {x : Recorded Unit} {f : Unit → Recorded α}
    (hx : x.Finds P) (hf : (f ()).Finds P) : Recorded.Finds (if c then x >>= f else f ()) P :=
  ite (bind hx fun _ => hf) hf

end Recorded.Finds

namespace Migration

variable (c : TypeContext)

/-! ## Types -/

/-- Types note places of their file, and none of a cast or of a parameter. -/
theorem notePlace_finds {category : PlaceCategory}
    (h : category ∉ [.unsupportedTypeCast, .unannotatedParameter]) (node : Json) :
    (notePlace c category node).Finds (Finding.IsOfType c.path) := by
  simp only [List.mem_cons, List.not_mem_nil, or_false, not_or] at h
  refine .bind_yields (.ofResult _) (.ofResult fun _ hl => .note ⟨?_, fun _ heq => ?_⟩)
  · exact Finding.isOrdinary_place h.1 (Location.path_of_ofNodeOrRefuse hl)
  · exact h.2 (Finding.place.inj heq).1

/-- Where a place is noted that is no cast's, it is an ordinary finding. -/
theorem notePlace_isOrdinary {category : PlaceCategory} (h : category ≠ .unsupportedTypeCast)
    (node : Json) : (notePlace c category node).Finds (Finding.IsOrdinary c.path) :=
  .bind_yields (.ofResult _) (.ofResult fun _ hl =>
    .note (Finding.isOrdinary_place h (Location.path_of_ofNodeOrRefuse hl)))

/-- An alias of `any` is a finding that any type may make. -/
theorem anyAlias_finds {path : String} (a : AnyAlias) (args : Option (TsArgs TsType)) :
    (anyAlias a args).Finds (Finding.IsOfType path) :=
  .bind (.note (Finding.isOfType_anyAlias _ _)) fun _ => .pure _

/-- A reference finds aliases and utility types only. -/
theorem migrateReference_finds (name : TsEntity) (args : Option (TsArgs TsType)) :
    (migrateReference c name args).Finds (Finding.IsOfType c.path) := by
  rw [migrateReference]
  split
  case h_1 | h_2 | h_9 => exact anyAlias_finds _ _
  case h_13 => exact .ite (.pure _) (.pure _)
  case h_14 => exact .first (.note (Finding.isOfType_utilityType _ _)) (.pure _)
  all_goals exact .pure _

/-- The type of a value finds nothing but what types find. -/
theorem migrateTypeof_finds (t : FlowType) :
    (migrateTypeof c t).Finds (Finding.IsOfType c.path) := by
  unfold migrateTypeof
  split
  next =>
    split
    · exact .refuse _
    · exact .pure _
  next => exact .refuse _

/-- The marks of a property are places in the file. -/
theorem checkProperty_finds (node key : Json) (traits : PropertyTraits) :
    (checkProperty c node key traits).Finds (Finding.IsOfType c.path) := by
  unfold checkProperty
  exact .first (notePlace_finds c (by decide) _) (.first (notePlace_finds c (by decide) _)
    (.first (.refuse _) (.first (.refuse _) (.ite (.refuse _) (.pure _)))))

/-- A property finds what its marks are. -/
theorem propertyMember_finds (node key : Json) (traits : PropertyTraits) (value : TsType) :
    (propertyMember c node key traits value).Finds P := by
  unfold propertyMember
  refine .ite ?_ (.pure _)
  split
  · exact .pure _
  · exact .refuse _

/-- A list of types finds what its types find. -/
theorem migrateAll_finds {ts : List FlowType} (h : ∀ t ∈ ts, (migrate c t).Finds P) :
    (migrateAll c ts).Finds P := by
  induction ts with
  | nil => exact .pure _
  | cons t ts ih =>
    rw [List.forall_mem_cons] at h
    exact .bind h.1 fun _ => .bind (ih h.2) fun _ => .pure _

/-- A type that may be absent finds what it finds if it is there. -/
theorem migrateOption_finds {t : Option FlowType} (h : ∀ u ∈ t.toList, (migrate c u).Finds P) :
    (migrateOption c t).Finds P := by
  cases t with
  | none => exact .pure _
  | some t => exact .bind (h t List.mem_cons_self) fun _ => .pure _

/-- Type arguments find what their types find. -/
theorem migrateArgs_finds {args : FlowArgs FlowType}
    (h : ∀ t ∈ args.params, (migrate c t).Finds P) :
    (migrateArgs c args).Finds P := by
  obtain ⟨node, params⟩ := args
  exact .bind (migrateAll_finds c h) fun _ => .pure _

/-- Type arguments that may be absent find what their types find. -/
theorem migrateArgsOption_finds {args : Option (FlowArgs FlowType)}
    (h : ∀ t ∈ (args.map (·.params)).getD [], (migrate c t).Finds P) :
    (migrateArgsOption c args).Finds P := by
  match args with
  | none => exact .pure _
  | some ⟨_, []⟩ => exact .pure _
  | some ⟨node, t :: ts⟩ => exact .bind (migrateArgs_finds c h) fun _ => .pure _

/-- Parameters find what their types find. -/
theorem migrateParams_finds {params : List (FlowParam FlowType)}
    (h : ∀ t ∈ params.map (·.type), (migrate c t).Finds P) (number : Nat) :
    (migrateParams c number params).Finds P := by
  induction params generalizing number with
  | nil => exact .pure _
  | cons p rest ih =>
    rw [List.map_cons, List.forall_mem_cons] at h
    exact .bind h.1 fun _ => .bind (ih h.2 _) fun _ => .pure _

/-- The parameter `this` finds what its type finds. -/
theorem migrateThis_finds {param : Option (FlowParam FlowType)}
    (h : ∀ t ∈ param.toList.map (·.type), (migrate c t).Finds P) :
    (migrateThis c param).Finds P := by
  cases param with
  | none => exact .pure _
  | some p => exact .bind (h p.type List.mem_cons_self) fun _ => .pure _

/-- A rest parameter finds what its type finds. -/
theorem migrateRest_finds {param : Option (FlowParam FlowType)}
    (h : ∀ t ∈ param.toList.map (·.type), (migrate c t).Finds P) :
    (migrateRest c param).Finds P := by
  cases param with
  | none => exact .pure _
  | some p => exact .bind (h p.type List.mem_cons_self) fun _ => .pure _

/-- Members find what each of them finds. -/
theorem migrateMembers_finds {members : List (FlowMember FlowType)}
    (h : ∀ m ∈ members, (migrateMember c m).Finds P) : (migrateMembers c members).Finds P := by
  induction members with
  | nil => exact .pure _
  | cons m rest ih =>
    rw [List.forall_mem_cons] at h
    exact .bind h.1 fun _ => .bind (ih h.2) fun _ => .pure _

/-- Type parameters find what bounds and defaults find, and places of their own marks. -/
theorem migrateTypeParamList_finds {params : List (FlowTypeParam FlowType)}
    (h : ∀ t ∈ params.flatMap fun p => p.bound.toList ++ p.default.toList,
      (migrate c t).Finds (Finding.IsOfType c.path)) :
    (migrateTypeParamList c params).Finds (Finding.IsOfType c.path) := by
  induction params with
  | nil => exact .pure _
  | cons p rest ih =>
    obtain ⟨node, name, bound, default, variance⟩ := p
    simp only [List.flatMap_cons, List.forall_mem_append] at h
    exact .first (notePlace_finds c (by decide) _) (.bind (migrateOption_finds c h.1.1) fun _ =>
      .bind (migrateOption_finds c h.1.2) fun _ => .bind (ih h.2) fun _ => .pure _)

theorem migrateTypeParams_finds {params : FlowTypeParams FlowType}
    (h : ∀ t ∈ params.types, (migrate c t).Finds (Finding.IsOfType c.path)) :
    (migrateTypeParams c params).Finds (Finding.IsOfType c.path) := by
  obtain ⟨node, params⟩ := params
  exact .bind (migrateTypeParamList_finds c h) fun _ => .pure _

theorem migrateTypeParamsOption_finds {params : Option (FlowTypeParams FlowType)}
    (h : ∀ t ∈ (params.map (·.types)).getD [], (migrate c t).Finds (Finding.IsOfType c.path)) :
    (migrateTypeParamsOption c params).Finds (Finding.IsOfType c.path) := by
  cases params with
  | none => exact .pure _
  | some params => exact .bind (migrateTypeParams_finds c h) fun _ => .pure _

/-- A member finds what its types find, and places of its own marks. -/
theorem migrateMember_finds {m : FlowMember FlowType}
    (h : ∀ t ∈ m.types, (migrate c t).Finds (Finding.IsOfType c.path)) :
    (migrateMember c m).Finds (Finding.IsOfType c.path) := by
  cases m with
  | property node key value traits =>
    exact .bind (checkProperty_finds c _ _ _) fun _ => .bind (h value List.mem_cons_self) fun _ =>
      .bind (propertyMember_finds c _ _ _ _) fun _ => .pure _
  | spread node argument => exact .bind (h argument List.mem_cons_self) fun _ => .pure _
  | indexer node id key value variance isStatic =>
    rw [FlowMember.types, List.forall_mem_cons, List.forall_mem_singleton] at h
    exact .first (notePlace_finds c (by decide) _) (.first (.refuse _) (.bind h.1 fun _ =>
      .bind h.2 fun _ => .pure _))
  | callProperty node value => exact .refuse _
  | internalSlot node id => exact .refuse _

/-- **What rewriting a type can find.** -/
theorem migrate_finds (t : FlowType) : (migrate c t).Finds (Finding.IsOfType c.path) := by
  induction t using FlowType.induction_on_parts with
  | h t ih =>
    cases t with
    | keyword node word =>
      cases word with
      | existential => exact .map _ (anyAlias_finds _ _)
      | interface => exact .refuse _
      | _ => exact .pure _
    | literal node v => exact .pure _
    | array node t => exact .bind (ih t List.mem_cons_self) fun _ => .pure _
    | nullable node t => exact .bind (ih t List.mem_cons_self) fun _ => .pure _
    | tuple node ts => exact .bind (migrateAll_finds c ih) fun _ => .pure _
    | union node ts => exact .bind (migrateAll_finds c ih) fun _ => .pure _
    | intersection node ts => exact .bind (migrateAll_finds c ih) fun _ => .pure _
    | typeof node t => exact .map _ (migrateTypeof_finds c t)
    | indexedAccess node object index =>
      rw [FlowType.parts, List.forall_mem_cons, List.forall_mem_singleton] at ih
      exact .bind ih.1 fun _ => .bind ih.2 fun _ => .pure _
    | optionalIndexedAccess node object index => exact .refuse _
    | generic node id args =>
      exact .bind (migrateArgsOption_finds c ih) fun _ => .map _ (migrateReference_finds c _ _)
    | function node params result rest thisParam typeParams =>
      simp only [FlowType.parts, List.cons_append, List.map_append, List.forall_mem_cons,
        List.forall_mem_append] at ih
      obtain ⟨hresult, ⟨⟨hparams, hrest⟩, hthis⟩, htypeParams⟩ := ih
      exact .bind (migrateThis_finds c hthis) fun _ =>
        .bind (migrateParams_finds c hparams 1) fun _ =>
        .bind (migrateRest_finds c hrest) fun _ => .bind hresult fun _ =>
          .bind (migrateTypeParamsOption_finds c htypeParams) fun _ => .pure _
    | object node members exact =>
      refine .bind (migrateMembers_finds c fun m hm => migrateMember_finds c ?_) fun _ => .pure _
      exact fun u hu => ih u (List.mem_flatMap.2 ⟨m, hm, hu⟩)

/-- **A type that is read from a node finds what types find.** -/
theorem migrateNode_finds (node : Json) : (migrateNode c node).Finds (Finding.IsOfType c.path) :=
  .bind (.ofResult _) fun t => migrate_finds c t

/-- **What can be found with an inferred type.** -/
theorem annotationInferred_finds (o : FileOptions) {location : Location} (inferred : Option Json)
    (hlocation : location.path = o.path) :
    (annotationInferred o location inferred).Finds (Finding.IsOrdinary o.path) := by
  have hnone : (leaveUnannotated location).Finds (Finding.IsOrdinary o.path) :=
    .bind (.note (Finding.isOrdinary_place (by decide) hlocation)) fun _ => .pure _
  have htype (t : TsType) : (annotationOf t).Finds (Finding.IsOrdinary o.path) := by
    rw [annotationOf]
    exact .ite (.bind ((anyAlias_finds .inferred none).mono fun _ h => h.toIsOrdinary)
      fun _ => .pure _) (.bind (.pure _) fun _ => .pure _)
  cases inferred with
  | none => exact hnone
  | some type =>
    have hmigrated : (migrateInferred o type).Finds (Finding.IsOrdinary o.path) :=
      .ite (.pure _) ((migrateNode_finds o.types _).mono fun _ h => h.toIsOrdinary)
    refine List.forall_mem_append.2 ⟨hmigrated, ?_⟩
    split
    · exact hnone
    · exact (.refuse _ : Recorded.Finds _ _)
    · exact htype _

/-- The type of a cast finds what types find. -/
theorem migrateCastType_finds (cast : Json) :
    (migrateCastType c cast).Finds (Finding.IsOfType c.path) :=
  .bind (.ofResult _) fun _ => .bind (migrateNode_finds c _) fun _ => .pure _

/-- What a cast can find: itself, and what a type finds. -/
theorem rewriteCast_finds (binding : String) (keepsInner : Bool) (cast : Json)
    (strategy : CastStrategy) : (rewriteCast c binding keepsInner cast strategy).Finds fun f =>
      f.IsIn c.path ∧ ∀ l, f ≠ .place .unannotatedParameter l := by
  have htype (cast : Json) : (migrateCastType c cast).Finds fun f =>
      f.IsIn c.path ∧ ∀ l, f ≠ .place .unannotatedParameter l :=
    (migrateCastType_finds c cast).mono fun _ h => ⟨h.isIn, h.annotated⟩
  have hplain : Recorded.Finds (do
      let expression ← Recorded.ofResult (castExpression cast)
      return asExpression expression (← migrateCastType c cast)) fun f =>
        f.IsIn c.path ∧ ∀ l, f ≠ .place .unannotatedParameter l :=
    .bind (.ofResult _) fun _ => .bind (htype _) fun _ => .pure _
  have hcast (e : Json) : (notePlace c .unsupportedTypeCast e).Finds fun f =>
      f.IsIn c.path ∧ ∀ l, f ≠ .place .unannotatedParameter l :=
    .bind_yields (.ofResult _) (.ofResult fun _ hl =>
      .note ⟨Location.path_of_ofNodeOrRefuse hl, by simp⟩)
  cases strategy with
  | nestedUnsound =>
    exact .bind (.ofResult _) fun _ => .bind (.ofResult _) fun _ =>
      .bind (htype _) fun _ =>
        .ite (.bind (htype _) fun _ => .pure _) (.pure _)
  | unsound | structuralLiteral => exact hplain
  | constLiteral => exact .bind (.ofResult _) fun _ => .pure _
  | safeCast =>
    exact .bind (.ofResult _) fun _ => .bind (hcast _) fun _ =>
      .bind (htype _) fun _ => .pure _

/-! ## Steps -/

/-- What holds of the progress still holds after a step, even if it is refused. -/
def Rewrite.Keeps (I : Progress → Prop) (x : Rewrite α) : Prop := ∀ p, I p → I (x.run.run p).2

namespace Rewrite.Keeps

variable {I : Progress → Prop}

/-- A value by itself changes nothing. -/
theorem pure (a : α) : Rewrite.Keeps I (Pure.pure a) := fun _ hp => hp

/-- A refusal changes nothing. -/
theorem refuse (e : Refusal) : Rewrite.Keeps I (Rewrite.refuse e : Rewrite α) := fun _ hp => hp

/-- A result changes nothing. -/
theorem ofResult (r : Result α) : Rewrite.Keeps I (Rewrite.ofResult r) := by
  cases r with
  | ok a => exact pure a
  | error e => exact refuse e

/-- A step that writes keeps what its change keeps. -/
theorem writing {f : Progress → Progress} (h : ∀ p, I p → I (f p)) :
    Rewrite.Keeps I (modify f) := h

/-- A step that reads changes nothing. -/
theorem reading : Rewrite.Keeps I (get : Rewrite Progress) := fun _ hp => hp

/-- Two steps in a row keep what each of them keeps. -/
theorem bind {x : Rewrite α} {f : α → Rewrite β} (hx : x.Keeps I) (hf : ∀ a, (f a).Keeps I) :
    Rewrite.Keeps I (x >>= f) := by
  intro p hp
  have hq := hx p hp
  simp only [ExceptT.run_bind, StateT.run_bind]
  generalize x.run.run p = ran at hq ⊢
  obtain ⟨e | a, q⟩ := ran
  · exact hq
  · exact hf a q hq

/-- A choice keeps what its branches keep. -/
theorem ite {c : Prop} [Decidable c] {x y : Rewrite α} (hx : x.Keeps I) (hy : y.Keeps I) :
    Rewrite.Keeps I (if c then x else y) := by
  split
  · exact hx
  · exact hy

/-- Steps for the items of a list keep what each of them keeps. -/
theorem mapM {f : α → Rewrite β} {xs : List α} (h : ∀ x ∈ xs, (f x).Keeps I) :
    (xs.mapM f).Keeps I := by
  induction xs with
  | nil => exact pure _
  | cons x xs ih =>
    rw [List.forall_mem_cons] at h
    rw [List.mapM_cons]
    exact bind h.1 fun _ => bind (ih h.2) fun _ => pure _

/-- Steps for the items of a list keep what each of them keeps, if they bring nothing. -/
theorem forM {f : α → Rewrite Unit} {xs : List α} (h : ∀ x ∈ xs, (f x).Keeps I) :
    (xs.forM f).Keeps I := by
  induction xs with
  | nil => exact pure _
  | cons x xs ih =>
    rw [List.forall_mem_cons] at h
    exact bind h.1 fun _ => ih h.2

end Rewrite.Keeps

/-- So a walk keeps what the steps of its visitor keep. -/
theorem Rewrite.Keeps.closed (I : Progress → Prop) :
    Syntax.Closed fun (α : Type) (x : Rewrite α) => x.Keeps I :=
  ⟨fun a => .pure a, fun hx hf => .bind hx hf⟩

/-! ## The rules -/

/-- What is kept when types make findings and when there is markup: no rule does
anything else, but that for casts and those that ask for types. -/
structure Unbroken (o : FileOptions) (I : Progress → Prop) : Prop where
  finds {p : Progress} {fs : List Finding} (hp : I p) (hfs : ∀ f ∈ fs, f.IsOfType o.path) :
    I { p with findings := p.findings ++ fs }
  markup {p : Progress} (hp : I p) : I { p with hasJsx := true }

/-- What is kept when parameters wait, and when findings are made without a
cast. -/
structure Patient (o : FileOptions) (I : Progress → Prop) : Prop where
  finds {p : Progress} {fs : List Finding} (hp : I p) (hfs : ∀ f ∈ fs, f.IsOrdinary o.path) :
    I { p with findings := p.findings ++ fs }
  waits {p : Progress} (param : Json) (hp : I p) :
    I { p with waiting := p.waiting ++ [Location.ofNodeOrRefuse o.path param] }

/-- Whether a rule asks for the types of the parameters of a node, given whether
the node stands inside a call of `createReactClass`. -/
def EnterRule.asks (o : FileOptions) (inside : Bool) : EnterRule → Bool
  | .functionDeclaration => !o.isTestFile
  | .classMethod => true
  | .objectMethod => inside
  | _ => false

/-- What types find breaks no condition that is unbroken by such findings. -/
theorem Unbroken.ofRecorded {o : FileOptions} {I : Progress → Prop} (hI : Unbroken o I)
    {x : Recorded α} (h : x.Finds (Finding.IsOfType o.path)) : (Rewrite.ofRecorded x).Keeps I :=
  .bind (.writing fun _ hp => hI.finds hp h) fun _ => .ofResult _

section
variable {o : FileOptions} {I : Progress → Prop}

/-- A replacement keeps what the rewriting of the node keeps. -/
theorem replaceBy_keeps {rewrite : Json → Rewrite Json} (slots : List Json.Route)
    (handed : List Syntax.Handover) {n : Json} (h : (rewrite n).Keeps I) :
    (replaceBy rewrite slots handed n).Keeps I :=
  .bind h fun _ => .pure _

/-- An import finds nothing. -/
theorem enterImport_keeps (n : Json) : (enterImport o n).Keeps I := by
  unfold enterImport
  refine .ite (.pure _) (.ite (.pure _) (.ite ?_ (.refuse _)))
  split
  · exact .pure _
  · exact .pure _

/-- A variable finds nothing but what types find. -/
theorem enterDeclarator_keeps (place : Syntax.Place) (n : Json) :
    (enterDeclarator o place n).Keeps I := by
  unfold enterDeclarator
  refine .ite ?_ (.pure _)
  split
  · refine .ite ?_ (.pure _)
    split
    · exact .pure _
    · exact .pure _
  · exact .pure _

/-- Leaving a node finds nothing. -/
theorem applyLeave_keeps (n : Json) (rule : LeaveRule) : (applyLeave o n rule).Keeps I := by
  cases rule with
  | program =>
    exact .bind .reading fun _ => .ite (.pure _) (.bind (.ofResult _) fun _ => .pure _)
  | function =>
    show (leaveFunction n).Keeps I
    unfold leaveFunction
    split
    · exact .bind (.ofResult _) fun _ => .pure _
    · exact .pure _
  | assignmentPattern => exact .pure _

/-- Parameters that wait break no condition that is patient with them. -/
theorem awaitTypes_keeps (hI : Patient o I) (n : Json) : (awaitTypes o n).Keeps I := by
  refine .bind (.forM fun param _ => .ite (.writing fun _ hp => hI.waits param hp) ?_) fun _ =>
    .pure _
  refine .bind (.writing fun _ hp => hI.finds hp ?_) fun _ => .ofResult _
  exact notePlace_isOrdinary o.types (by decide) param

variable (hI : Unbroken o I)
include hI

theorem migrateNode_keeps (node : Json) :
    (Rewrite.ofRecorded (migrateNode o.types node)).Keeps I :=
  hI.ofRecorded (migrateNode_finds o.types node)

theorem enterAnnotationNode_keeps (place : Syntax.Place) (n : Json) :
    Rewrite.Keeps I (enterAnnotationNode o place n) := by
  have hnode (isParam : Bool) : (migrateAnnotationNode o isParam n).Keeps I := by
    have hannotation (type : Json) : Rewrite.Keeps I (migrateAnnotationOf o type) :=
      .bind (migrateNode_keeps hI type) fun _ => .pure _
    exact .bind (.ofResult _) fun _ => .ite (.bind (.ofResult _) fun _ => hannotation _)
      (.bind (.pure _) fun _ => hannotation _)
  have hreplace (isParam isOptional : Bool) : Rewrite.Keeps I (do
      let visit ← replaceBy (migrateAnnotationNode o isParam) [[.key "typeAnnotation"]] [] n
      return if isOptional then
        { visit with parentFields := [("optional", .bool true)] } else visit) :=
    .bind (replaceBy_keeps _ _ (hnode isParam)) fun _ => .pure _
  exact .ite (.bind (.ofResult _) fun _ => hreplace _ _) (.bind (.pure _) fun _ => hreplace _ _)

theorem migrateArgsNode_keeps (n : Json) : (migrateArgsNode o n).Keeps I := by
  refine .bind (.ofResult _) fun args => .bind (hI.ofRecorded ?_) fun _ => .pure _
  exact migrateArgs_finds o.types fun t _ => migrate_finds o.types t

theorem migrateTypeParamsNode_keeps (n : Json) : (migrateTypeParamsNode o n).Keeps I := by
  refine .bind (.ofResult _) fun params => .bind (hI.ofRecorded ?_) fun _ => .pure _
  exact migrateTypeParams_finds o.types fun t _ => migrate_finds o.types t

theorem declaredTypeParams_keeps (n : Json) : (declaredTypeParams o n).Keeps I := by
  unfold declaredTypeParams
  split
  · exact migrateTypeParamsNode_keeps hI _
  · exact .pure _

theorem migrateHeritage_keeps (n : Json) : (migrateHeritage o n).Keeps I := by
  unfold migrateHeritage
  refine .bind (.ofResult _) fun _ => .bind (.ofResult _) fun _ => ?_
  split
  · exact .bind (migrateArgsNode_keeps hI _) fun _ => .pure _
  · exact .bind (.pure _) fun _ => .pure _

theorem migrateAlias_keeps (key : String) (n : Json) : (migrateAlias o key n).Keeps I :=
  .bind (.ofResult _) fun _ => .bind (.ofResult _) fun _ =>
    .bind (declaredTypeParams_keeps hI n) fun _ => .bind (migrateNode_keeps hI _) fun _ => .pure _

/-- An interface finds what its types find. -/
theorem migrateInterface_keeps (n : Json) : (migrateInterface o n).Keeps I := by
  have hbody (body : Json) : (migrateInterfaceBody o body).Keeps I := by
    refine .bind (migrateNode_keeps hI body) fun t => ?_
    split
    · exact .pure _
    · exact .refuse _
  have hdeclaration : Rewrite.Keeps I (do
      let body ← Rewrite.ofResult (n.field "body")
      let body ← migrateInterfaceBody o body
      let heritage ← (n.itemsAt "extends").mapM (migrateHeritage o)
      let id ← Rewrite.ofResult (n.anyField "id")
      let params ← declaredTypeParams o n
      return TypeScript.node "TSInterfaceDeclaration"
        [("id", id), ("typeParameters", params),
          ("extends", if heritage.isEmpty then .null else .arr heritage), ("body", body)]) :=
    .bind (.ofResult _) fun _ => .bind (hbody _) fun _ =>
      .bind (.mapM fun _ _ => migrateHeritage_keeps hI _) fun _ => .bind (.ofResult _) fun _ =>
        .bind (declaredTypeParams_keeps hI n) fun _ => .pure _
  exact .ite
    (.bind (.refuse _) fun _ => .ite (.bind (.refuse _) fun _ => hdeclaration) hdeclaration)
    (.ite (.bind (.refuse _) fun _ => hdeclaration) hdeclaration)

theorem enterOpaqueType_keeps (n : Json) : (enterOpaqueType o n).Keeps I := by
  have hreplace : Rewrite.Keeps I (replaceBy (migrateAlias o "impltype")
      [[.key "typeParameters"], [.key "impltype"]] [handedId] n) :=
    replaceBy_keeps _ _ (migrateAlias_keeps hI _ n)
  exact .ite (.bind (.refuse _) fun _ => hreplace) hreplace

theorem enterClassProperty_keeps (n : Json) : (enterClassProperty o n).Keeps I := by
  unfold enterClassProperty
  split
  · exact .pure _
  · exact .ite (.pure _) (.bind (hI.ofRecorded (notePlace_finds o.types (by decide) _)) fun _ =>
      .pure _)

/-- **A rule keeps what is unbroken**, unless it is that for casts, or one that
asks for types. -/
theorem applyEnter_keeps (place : Syntax.Place) (n : Json) {rule : EnterRule}
    (hrule : rule ≠ .typeCast) (hasks : rule.asks o (insideCreateReactClass place n) = true →
      (awaitTypes o n).Keeps I) : (applyEnter o place n rule).Keeps I := by
  cases rule with
  | annotated => exact enterAnnotationNode_keeps hI place n
  | typeParams => exact replaceBy_keeps _ _ (migrateTypeParamsNode_keeps hI n)
  | typeArgs => exact replaceBy_keeps _ _ (migrateArgsNode_keeps hI n)
  | implementsClause => exact replaceBy_keeps _ _ (migrateHeritage_keeps hI n)
  | importDeclaration => exact enterImport_keeps n
  | exportNamed => exact .pure _
  | typeAlias => exact replaceBy_keeps _ _ (migrateAlias_keeps hI _ n)
  | opaqueType => exact enterOpaqueType_keeps hI n
  | interfaceDeclaration => exact replaceBy_keeps _ _ (migrateInterface_keeps hI n)
  | declarator => exact enterDeclarator_keeps place n
  | functionDeclaration =>
    rw [applyEnter, enterFunction]
    split
    next => exact .pure _
    next htest => exact hasks (by simpa [EnterRule.asks] using htest)
  | classMethod => exact hasks rfl
  | objectMethod =>
    rw [applyEnter, enterObjectMethod]
    split
    next hinside => exact hasks hinside
    next => exact .pure _
  | classProperty => exact enterClassProperty_keeps hI n
  | typeCast => exact absurd rfl hrule
  | markup => exact .bind (.writing fun _ hp => hI.markup hp) fun _ => .pure _
  | flowOnly => exact .refuse _

end

/-- Whatever a file has produced stands in it. -/
structure Progress.IsIn (path : String) (p : Progress) : Prop where
  findings : ∀ f ∈ p.findings, f.IsIn path
  waiting : ∀ l, .ok l ∈ p.waiting → l.path = path

/-- What is produced in a step stands in the file. -/
abbrev Rewrite.StaysIn (path : String) (x : Rewrite α) : Prop := x.Keeps (Progress.IsIn path)

variable (o : FileOptions)

/-- Findings of types are findings in the file. -/
theorem isIn_unbroken : Unbroken o (Progress.IsIn o.path) where
  finds hp hfs := ⟨List.forall_mem_append.2 ⟨hp.findings, fun f hf => (hfs f hf).isIn⟩, hp.waiting⟩
  markup hp := ⟨hp.findings, hp.waiting⟩

/-- Parameters that wait stand in the file. -/
theorem isIn_patient : Patient o (Progress.IsIn o.path) where
  finds hp hfs := ⟨List.forall_mem_append.2 ⟨hp.findings, fun f hf => (hfs f hf).isIn⟩, hp.waiting⟩
  waits param hp := by
    refine ⟨hp.findings, fun l hl => ?_⟩
    rcases List.mem_append.1 hl with hl | hl
    · exact hp.waiting l hl
    · exact Location.path_of_ofNodeOrRefuse (List.mem_singleton.1 hl).symm

/-- A cast finds places in its file. -/
theorem enterCast_staysIn (place : Syntax.Place) (n : Json) :
    (enterCast o place n).StaysIn o.path := by
  refine .bind (.ofResult _) fun strategy => .bind (replaceBy_keeps _ _ ?_) fun _ =>
    .ite (.bind (.writing fun _ hp => ⟨hp.findings, hp.waiting⟩) fun _ => .pure _) (.pure _)
  refine .bind
    (.writing fun _ hp => ⟨List.forall_mem_append.2 ⟨hp.findings, ?_⟩, hp.waiting⟩) fun _ =>
    .ofResult _
  exact fun f hf => (rewriteCast_finds o.types _ _ _ _ f hf).1

/-- **Each step into a node finds places in its file.** -/
theorem applyEnter_staysIn (place : Syntax.Place) (n : Json) (rule : EnterRule) :
    (applyEnter o place n rule).StaysIn o.path := by
  by_cases hrule : rule = .typeCast
  · subst hrule
    exact enterCast_staysIn o place n
  · exact applyEnter_keeps (isIn_unbroken o) place n hrule fun _ =>
      awaitTypes_keeps (isIn_patient o) n

/-- **Whatever rewriting a file produces stands in the file**, even if the
rewriting is refused. -/
theorem rewriteTree_isIn (tree : Json) : (rewriteTree o tree).2.IsIn o.path := by
  refine Syntax.walkTree_closed (Rewrite.Keeps.closed (Progress.IsIn o.path))
    (fun place n => ?_) (fun place n => ?_) _ tree {}
    ⟨fun _ h => absurd h List.not_mem_nil, fun _ h => absurd h List.not_mem_nil⟩
  · rw [rewriter]
    dsimp only
    split
    · exact applyEnter_staysIn o place n _
    · exact .pure _
  · rw [rewriter]
    dsimp only
    split
    · exact applyLeave_keeps n _
    · exact .pure _

end Migration

end Retype
