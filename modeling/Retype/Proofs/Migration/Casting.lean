import Retype.Proofs.Migration.Casts
import Retype.Proofs.Migration.Literals
import Retype.Proofs.Migration.Marks
import Retype.Proofs.Migration.Noting
/-!
# What a cast becomes

A cast becomes an `as` only for a reason (`Recast`): it is to `any`, its
expression is a literal of the type itself, or a literal through and through, or
the expression is a cast that was unsound already, which is dropped or kept
inside. Any other cast becomes one call of the helper, and its expression is
recorded, once (`rewriteCast_gives`).
-/

namespace Retype.Migration

open TypeScript (node identifier encode)

variable {c : TypeContext} {o : FileOptions} {n e type : Json}

/-! ## Reasons -/

/-- `any`, or a bare reference to `Object` or `Function`. -/
inductive UnsoundTarget (type : Json) : Prop
  | any (kind : type.hasText "type" "AnyTypeAnnotation" = true)
  | bare {id : Json} (kind : type.hasText "type" "GenericTypeAnnotation" = true)
      (plain : type.holds "typeParameters" = false) (named : type.get? "id" = some id)
      (name : id.hasText "type" "Identifier" = true)
      (unsound : id.hasText "name" "Object" = true ∨ id.hasText "name" "Function" = true)

/-- A string or a number, and the type of just that string or number. -/
inductive OwnType (e type : Json) : Prop
  | text (literal : e.hasText "type" "StringLiteral" = true)
      (own : type.hasText "type" "StringLiteralTypeAnnotation" = true)
      (same : Json.sameOption (e.get? "value") (type.get? "value") = true)
  | number (literal : e.hasText "type" "NumericLiteral" = true)
      (own : type.hasText "type" "NumberLiteralTypeAnnotation" = true)
      (same : Json.sameOption (e.get? "value") (type.get? "value") = true)

/-- Why an expression may be taken to be of a type without a check. -/
inductive Harmless (e type : Json) : Prop
  | toAny (any : type.hasText "type" "AnyTypeAnnotation" = true)
  | toItself (own : OwnType e type)
  | literal (grammar : Literal e)

/-- The cast inside a cast, if that is unsound already. -/
def nestedCast? (n : Json) : Option Json :=
  match castExpression n with
  | .ok e =>
    match isUnsoundCast e with
    | .ok true => some e
    | _ => none
  | .error _ => none

/-- The expression of a cast and the type that it is to. -/
structure CastParts (n e type : Json) : Prop where
  expression : castExpression n = .ok e
  type : castType n = .ok type

theorem isUnsoundType_yields (type : Json) :
    Result.Yields (isUnsoundType type) fun unsound => unsound = true → UnsoundTarget type := by
  have hfalse : false = true → UnsoundTarget type := fun h => absurd h Bool.false_ne_true
  rw [isUnsoundType]
  refine .ite (fun h => .ok fun _ => .any h) fun _ => .ite (fun _ => .ok hfalse) fun hbare =>
    .ite (fun _ => .ok hfalse) fun _ => ?_
  refine .bind ((field_yields type "id").mono fun id hid => .pure fun h => ?_)
  simp only [Bool.or_eq_true, Bool.not_eq_true', not_or, Bool.not_eq_true,
    Bool.not_eq_false] at hbare
  rw [Bool.and_eq_true, Bool.or_eq_true] at h
  exact .bare hbare.1 hbare.2 hid h.1 h.2

/-- An unsound cast is a cast, to an unsound type. -/
theorem isUnsoundCast_yields (e : Json) : Result.Yields (isUnsoundCast e) fun unsound =>
    unsound = true → e.hasText "type" "TypeCastExpression" = true ∧
      ∃ type, castType e = .ok type ∧ UnsoundTarget type := by
  rw [isUnsoundCast]
  refine .ite (fun hcast => .bind fun type htype => ?_) fun _ =>
    .ok fun h => absurd h Bool.false_ne_true
  exact (isUnsoundType_yields type).mono fun _ h hunsound => ⟨hcast, type, htype, h hunsound⟩

theorem unsound_of_nestedCast? (he : castExpression n = .ok e) (h : nestedCast? n = some e) :
    e.hasText "type" "TypeCastExpression" = true ∧
      ∃ type, castType e = .ok type ∧ UnsoundTarget type := by
  rw [nestedCast?, he] at h
  dsimp only at h
  split at h
  next hunsound => exact isUnsoundCast_yields e true hunsound rfl
  next => cases h

theorem ownType_of_isSelfLiteralCast (h : isSelfLiteralCast e type = true) : OwnType e type := by
  rw [isSelfLiteralCast, Bool.and_eq_true, Bool.or_eq_true, Bool.and_eq_true, Bool.and_eq_true] at h
  obtain ⟨⟨htext, hown⟩ | ⟨hnumber, hown⟩, hsame⟩ := h
  · exact .text htext hown hsame
  · exact .number hnumber hown hsame

/-- What a strategy is for. -/
inductive StrategyFor (n e type : Json) : CastStrategy → Prop
  | nestedUnsound (nested : nestedCast? n = some e) : StrategyFor n e type .nestedUnsound
  | unsound (single : nestedCast? n = none) (any : type.hasText "type" "AnyTypeAnnotation" = true) :
      StrategyFor n e type .unsound
  | constLiteral (single : nestedCast? n = none) (own : OwnType e type) :
      StrategyFor n e type .constLiteral
  | structuralLiteral (single : nestedCast? n = none) (grammar : Literal e) :
      StrategyFor n e type .structuralLiteral
  | safeCast (single : nestedCast? n = none) : StrategyFor n e type .safeCast

theorem selectStrategy_yields (n : Json) : Result.Yields (selectStrategy n) fun strategy =>
    ∃ e type, CastParts n e type ∧ StrategyFor n e type strategy := by
  rw [selectStrategy]
  refine .bind fun e he => .bind fun type htype => .bind fun unsound hunsound => ?_
  have hnested : nestedCast? n = if unsound then some e else none := by
    rw [nestedCast?, he]
    dsimp only
    rw [hunsound]
    cases unsound <;> rfl
  have choose {strategy : CastStrategy} (h : StrategyFor n e type strategy) :
      ∃ e type, CastParts n e type ∧ StrategyFor n e type strategy := ⟨e, type, ⟨he, htype⟩, h⟩
  refine .ite (fun h => .pure (choose (.nestedUnsound (by rw [hnested, if_pos h])))) fun h => ?_
  have hsingle : nestedCast? n = none := by rw [hnested, if_neg h]
  refine .ite (fun hany => .pure (choose (.unsound hsingle hany))) fun _ =>
    .ite (fun hself => .pure (choose (.constLiteral hsingle (ownType_of_isSelfLiteralCast hself))))
      fun _ => .ite (fun hliteral => .pure (choose (.structuralLiteral hsingle
        ((isStructuralLiteral_iff e).1 hliteral)))) fun _ => .pure (choose (.safeCast hsingle))

/-! ## What a cast becomes -/

/-- The type in what a cast becomes: what the type of the cast becomes, or the
word `const`. -/
inductive Target (c : TypeContext) (e type : Json) : Json → Prop
  | becomes {u : TsType} (rewritten : (migrateNode c type).result = .ok u) :
      Target c e type (encode u)
  | const (own : OwnType e type) :
      Target c e type (node "TSTypeReference" [("typeName", identifier "const" [])])

/-- What a cast becomes, and why. -/
inductive Recast (o : FileOptions) (n : Json) : Json → Prop
  | asserted {e type target : Json} (parts : CastParts n e type) (single : nestedCast? n = none)
      (reason : Harmless e type) (becomes : Target o.types e type target) :
      Recast o n (asExpression e target)
  | unwrapped {inner e type type' target : Json} (parts : CastParts n inner type)
      (nested : nestedCast? n = some inner) (inside : CastParts inner e type')
      (unsound : UnsoundTarget type') (becomes : Target o.types inner type target) :
      Recast o n (asExpression e target)
  | doubled {inner e type type' target target' : Json} (parts : CastParts n inner type)
      (nested : nestedCast? n = some inner) (inside : CastParts inner e type')
      (unsound : UnsoundTarget type') (becomes : Target o.types inner type target)
      (becomes' : Target o.types e type' target') :
      Recast o n (asExpression (asExpression e target') target)
  | called {e type target : Json} (parts : CastParts n e type) (single : nestedCast? n = none)
      (becomes : Target o.types e type target) :
      Recast o n (safeCastCall o.utilsBinding e target)

/-- The expression that a call checks; other nodes check none. -/
def checked? (new : Json) : Option Json :=
  if new.hasText "type" "CallExpression" then (new.itemsAt "arguments").head? else none

theorem checked?_inherit (origin new : Json) :
    checked? (Json.inherit origin new) = checked? new := by
  have htype := Json.get?_type_inherit origin new
  have harguments : (Json.inherit origin new).get? "arguments" = new.get? "arguments" :=
    Json.get?_inherit_ne (by decide)
  rw [checked?, checked?, Json.hasText_congr htype, Json.itemsAt, Json.itemsAt, harguments]

/-! ## What is recorded -/

/-- The places of the casts among some findings. -/
def castPlaces (fs : List Finding) : List Location :=
  (Report.ofFindings fs).places .unsupportedTypeCast

theorem castPlaces_append (fs gs : List Finding) :
    castPlaces (fs ++ gs) = castPlaces fs ++ castPlaces gs := List.filterMap_append

theorem castPlaces_of_ordinary {path : String} {fs : List Finding}
    (h : ∀ f ∈ fs, f.IsOrdinary path) : castPlaces fs = [] := by
  refine List.filterMap_eq_nil_iff.2 fun f hf => ?_
  have hcastless := (h f hf).castless
  cases f with
  | place category l =>
    by_cases hcast : category = .unsupportedTypeCast
    · exact absurd (hcast ▸ rfl) (hcastless l)
    · exact if_neg hcast
  | _ => rfl

/-- The type of a cast, with nothing recorded about casts. -/
theorem migrateCastType_gives (h : castType n = .ok type) (e : Json) :
    (migrateCastType c n).Gives fun fs target => castPlaces fs = [] ∧ Target c e type target := by
  have hordinary := (migrateCastType_finds c n).mono fun _ h => h.toIsOrdinary
  intro target htarget
  refine ⟨castPlaces_of_ordinary hordinary, ?_⟩
  rw [migrateCastType, h] at htarget
  obtain ⟨u, hu, rfl⟩ : ∃ u, (migrateNode c type).result = .ok u ∧ encode u = target := by
    have hyields : (encode <$> migrateNode c type).Yields fun target =>
        ∃ u, (migrateNode c type).result = .ok u ∧ encode u = target :=
      .map fun u hu => ⟨u, hu, rfl⟩
    exact hyields target htarget
  exact .becomes hu

/-- What a cast becomes, and what is recorded: the place of the expression that
is checked, if one is. -/
structure Recasts (o : FileOptions) (n : Json) (checks : Bool) (fs : List Finding) (new : Json) :
    Prop where
  recast : Recast o n new
  places : castPlaces fs = (checked? new).toList.map (placeOf o.path)
  checks : (checked? new).isSome = checks

/-- A cast that is taken without a check. -/
theorem asserted_gives (hparts : CastParts n e type) (single : nestedCast? n = none)
    (reason : Harmless e type) : Recorded.Gives (do
        let expression ← Recorded.ofResult (castExpression n)
        return asExpression expression (← migrateCastType o.types n)) (Recasts o n false) := by
  refine .bind fun e' he' => ?_
  obtain rfl := Except.ok.inj (he'.symm.trans hparts.expression)
  refine .last ((migrateCastType_gives hparts.type e').mono fun fs target h => ⟨?_, h.1, rfl⟩)
  exact .asserted hparts single reason h.2

/-- **What a cast becomes**: it is checked by the strategy that says so. -/
theorem rewriteCast_gives {keepsInner : Bool} {strategy : CastStrategy}
    (hstrategy : selectStrategy n = .ok strategy) :
    (rewriteCast o.types o.utilsBinding keepsInner n strategy).Gives
      (Recasts o n (decide (strategy = .safeCast))) := by
  obtain ⟨e, type, hparts, hfor⟩ := selectStrategy_yields n strategy hstrategy
  have htype (e : Json) := migrateCastType_gives (c := o.types) hparts.type e
  have hread : ∀ e', castExpression n = .ok e' → e' = e := fun e' he' =>
    Except.ok.inj (he'.symm.trans hparts.expression)
  cases hfor with
  | nestedUnsound hnested =>
    obtain ⟨hcast, type', htype', hunsound⟩ := unsound_of_nestedCast? hparts.expression hnested
    rw [rewriteCast]
    refine .bind fun inner hinner => ?_
    obtain rfl := hread inner hinner
    refine .bind fun e he => .bind ((htype inner).mono fun fs target h => ?_)
    have hinside : CastParts inner e type' := ⟨he, htype'⟩
    split
    next =>
      refine .last ((migrateCastType_gives (c := o.types) htype' e).mono fun gs target' h' => ?_)
      refine ⟨.doubled hparts hnested hinside hunsound h.2 h'.2, ?_, rfl⟩
      rw [castPlaces_append, castPlaces_append, castPlaces_append, h.1, h'.1]
      rfl
    next =>
      refine .pure ⟨.unwrapped hparts hnested hinside hunsound h.2, ?_, rfl⟩
      rw [castPlaces_append, castPlaces_append, castPlaces_append, h.1]
      rfl
  | unsound hsingle hany => exact asserted_gives hparts hsingle (.toAny hany)
  | structuralLiteral hsingle hliteral => exact asserted_gives hparts hsingle (.literal hliteral)
  | constLiteral hsingle hown =>
    rw [rewriteCast]
    refine .bind fun e' he' => ?_
    obtain rfl := hread e' he'
    exact .pure ⟨.asserted hparts hsingle (.toItself hown) (.const hown), rfl, rfl⟩
  | safeCast hsingle =>
    rw [rewriteCast]
    refine .bind fun e' he' => ?_
    obtain rfl := hread e' he'
    refine .bind ((notePlace_gives o.types _ e').mono fun fs _ hfs => ?_)
    refine .last ((htype e').mono fun gs target h => ⟨.called hparts hsingle h.2, ?_, rfl⟩)
    rw [hfs, castPlaces_append, castPlaces_append, h.1]
    rfl

end Retype.Migration
