import Retype.Proofs.Migration.Reordering
/-!
# Only the end of a list is optional

What a parameter list becomes, parameter by parameter (`reorderParams_law`). A
marker is kept where all that follows may be left out as well, rest parameters
aside. A name that loses its marker has an annotation that admits `undefined`,
and so has the name before a default value, unless only such parameters follow.
Nothing else changes.
-/

namespace Retype.Migration

/-! ## Parameters -/

def isName (n : Json) : Bool := n.hasText "type" "Identifier"

/-- Whether a parameter has a default value. -/
def isDefault (n : Json) : Bool := n.hasText "type" "AssignmentPattern"

def isRestElement (n : Json) : Bool := n.hasText "type" "RestElement"

/-- Whether a parameter is a name that is marked optional. -/
def isMarked (n : Json) : Bool := isName n && n.holds "optional"

/-- All parameters may be left out, rest parameters aside. -/
def MayBeLeftOut (params : List Json) : Prop :=
  ∀ q ∈ params, isRestElement q = true ∨ q.holds "optional" = true ∨ isDefault q = true

variable {n n' p p' : Json} {later params params' : List Json}

/-- A node is of one kind. -/
theorem hasText_apart {kind other : String} (h : n.hasText "type" kind = true)
    (hne : kind ≠ other) : n.hasText "type" other = false := by
  rw [hasText_of_kind (get?_of_hasText h)]
  exact beq_eq_false_iff_ne.2 hne

/-- All parameters may be left out when the first may and the rest may. -/
theorem mayBeLeftOut_cons : MayBeLeftOut (p :: later) ↔
    (isRestElement p = true ∨ p.holds "optional" = true ∨ isDefault p = true) ∧
      MayBeLeftOut later :=
  List.forall_mem_cons

/-! ## Types that are to admit `undefined` -/

/-- What becomes of a type that is to admit `undefined`: a union that lists it
stays, another union gets it after its members, and any other type becomes a
union with it. -/
inductive Joined : Json → Json → Prop
  | listed {t : Json} {ts : List Json} (union : t.hasText "type" "TSUnionType" = true)
      (types : t.get? "types" = some (.arr ts))
      (listed : ∃ u ∈ ts, u.hasText "type" "TSUndefinedKeyword" = true) : Joined t t
  | added {t : Json} {ts : List Json} (union : t.hasText "type" "TSUnionType" = true)
      (types : t.get? "types" = some (.arr ts))
      (unlisted : ∀ u ∈ ts, u.hasText "type" "TSUndefinedKeyword" = false) :
      Joined t (t.set "types" (.arr (ts ++ [undefinedType])))
  | paired {t : Json} (single : t.hasText "type" "TSUnionType" = false) :
      Joined t (TypeScript.node "TSUnionType" [("types", .arr [t, undefinedType])])

/-- A type that is to admit `undefined` is joined with it. -/
theorem admitUndefined_joined (t : Json) : Result.Yields (admitUndefined t) (Joined t) := by
  rw [admitUndefined]
  refine .ite (fun hunion => .bind ((listField_yields t _).mono fun ts hts => ?_)) fun hunion => ?_
  · refine .ite (fun hany => .pure (.listed hunion hts ?_)) fun hany => .pure (.added hunion hts ?_)
    · exact List.any_eq_true.1 hany
    · simpa [TsKeyword.kindName] using hany
  · exact .pure (.paired (Bool.eq_false_iff.2 hunion))

/-- A marker taken away leaves the annotation. -/
theorem get?_erase_optional :
    (n.erase "optional").get? "typeAnnotation" = n.get? "typeAnnotation" :=
  Json.get?_erase_ne (by decide)

/-- What becomes of a name that loses its marker before a required parameter. -/
inductive Required : Json → Json → Prop
  | typed {n typed t t' : Json} (field : n.get? "typeAnnotation" = some typed)
      (kind : typed.hasText "type" "TSTypeAnnotation" = true)
      (inner : typed.get? "typeAnnotation" = some t) (joined : Joined t t') :
      Required n ((n.erase "optional").set "typeAnnotation" (typed.set "typeAnnotation" t'))
  | untyped {n : Json} (field : ∀ typed, n.get? "typeAnnotation" = some typed →
      typed.hasText "type" "TSTypeAnnotation" = false) : Required n (n.erase "optional")

/-- A name that is required has no marker. -/
theorem Required.unmarked (h : Required n n') : n'.get? "optional" = none := by
  cases h with
  | typed => rw [Json.get?_set_ne (by decide), Json.get?_erase_self]
  | untyped => exact Json.get?_erase_self

/-- A name that loses its marker becomes required. -/
theorem requireParam_required (h : isName n = true) :
    Result.Yields (requireParam n) (Required n) := by
  rw [requireParam, if_pos (show n.hasText "type" "Identifier" = true from h), widenWithUndefined,
    get?_erase_optional]
  split
  next typed htyped =>
    refine .ite (fun hkind => .bind ((field_yields typed _).mono fun t ht => .bind ?_))
      fun hkind => .pure (.untyped ?_)
    · refine (admitUndefined_joined t).mono fun t' ht' => .pure ?_
      exact .typed htyped hkind ht ht'
    · rintro _ h
      obtain rfl := Option.some.inj (htyped.symm.trans h)
      exact Bool.eq_false_iff.2 hkind
  next hnone => exact .pure (.untyped fun typed h => by simp [hnone] at h)

/-! ## One parameter -/

/-- What becomes of a parameter before others. -/
structure ParamSettled (later : List Json) (p p' : Json) : Prop where
  /-- A parameter stays that has no default value and is not marked before a
  required one. -/
  kept (hdefault : isDefault p = false) (hmarked : isMarked p = true → MayBeLeftOut later) : p' = p
  /-- A marked one before a required one is made required. -/
  required (hmarked : isMarked p = true) (hlater : ¬ MayBeLeftOut later) : Required p p'
  /-- The left side of one with a default value has no marker; a name there is
  made required as well. -/
  default (hdefault : isDefault p = true) : ∃ left left', p.get? "left" = some left ∧
    p' = p.set "left" left' ∧
    (isName left = true ∧ ¬ MayBeLeftOut later → Required left left') ∧
    (¬(isName left = true ∧ ¬ MayBeLeftOut later) → left' = left.erase "optional")

/-- A parameter without a default stays when its marker may. -/
theorem ParamSettled.same (hdefault : isDefault p = false)
    (hmarked : isMarked p = true → MayBeLeftOut later) : ParamSettled later p p where
  kept _ _ := rfl
  required hmarked' hlater := absurd (hmarked hmarked') hlater
  default hdefault' := absurd hdefault' (by simp [hdefault])

/-- A marker before a required parameter is lost. -/
theorem ParamSettled.lost (hmarked : isMarked p = true) (hlater : ¬ MayBeLeftOut later)
    (h : Required p p') : ParamSettled later p p' where
  kept _ hkept := absurd (hkept hmarked) hlater
  required _ _ := h
  default hdefault := by
    have hname := hasText_apart hdefault (show "AssignmentPattern" ≠ "Identifier" by decide)
    rw [isMarked, isName, hname] at hmarked
    cases hmarked

/-- The name under a default loses its marker. -/
theorem ParamSettled.defaulted {left left' : Json} (hdefault : isDefault p = true)
    (hleft : p.get? "left" = some left)
    (hrequired : isName left = true ∧ ¬ MayBeLeftOut later → Required left left')
    (herased : ¬(isName left = true ∧ ¬ MayBeLeftOut later) → left' = left.erase "optional") :
    ParamSettled later p (p.set "left" left') where
  kept hdefault' := absurd hdefault (Bool.eq_false_iff.1 hdefault')
  required hmarked := by
    have hname := hasText_apart hdefault (show "AssignmentPattern" ≠ "Identifier" by decide)
    rw [isMarked, isName, hname] at hmarked
    cases hmarked
  default _ := ⟨left, left', hleft, rfl, hrequired, herased⟩

/-- What is required without its marker is so with it. -/
theorem Required.of_erased (h : Required (n.erase "optional") n') : Required n n' := by
  have herase : (n.erase "optional").erase "optional" = n.erase "optional" :=
    Json.erase_of_get?_none Json.get?_erase_self
  cases h with
  | typed field kind inner joined =>
    rw [herase]
    exact .typed (get?_erase_optional ▸ field) kind inner joined
  | untyped field =>
    rw [herase]
    exact .untyped (get?_erase_optional ▸ field)

/-- A parameter that is no name stays. -/
theorem requireParam_of_not_isName (h : isName n = false) : requireParam n = .ok n := by
  rw [requireParam, if_neg]
  · rfl
  · exact Bool.eq_false_iff.1 h

/-- A parameter that is no name has no marker that counts. -/
theorem not_isMarked_of_hasText {kind : String} (h : p.hasText "type" kind = true)
    (hne : kind ≠ "Identifier") : isMarked p = false := by
  rw [isMarked, isName, hasText_apart h hne]
  rfl

/-- **What becomes of one parameter**, given whether all later ones may be left
out, and that only names are marked. -/
theorem reorderParam_settled {trailing : Bool} (htrailing : trailing = true ↔ MayBeLeftOut later)
    (hcarry : p.holds "optional" = true → isName p = true) :
    Result.Yields (reorderParam p trailing) fun r =>
      ParamSettled later p r.1 ∧ (r.2 = true ↔ MayBeLeftOut (p :: later)) := by
  rw [mayBeLeftOut_cons, ← htrailing, reorderParam]
  refine .ite (fun hrest => .pure ⟨?_, ?_⟩) fun hrest => .ite (fun hdefault => ?_) fun hdefault =>
    .ite (fun hmarked => ?_) fun hmarked => .pure ⟨?_, ?_⟩
  · refine .same (hasText_apart hrest (by decide)) fun hmarked => ?_
    rw [not_isMarked_of_hasText hrest (by decide)] at hmarked
    cases hmarked
  · exact (and_iff_right (.inl hrest)).symm
  · have hlater : trailing = true ↔ (isRestElement p = true ∨ p.holds "optional" = true ∨
        isDefault p = true) ∧ trailing = true := (and_iff_right (.inr (.inr hdefault))).symm
    split
    next l hleft =>
      cases trailing with
      | true =>
        exact .pure ⟨.defaulted hdefault hleft (fun h => absurd (htrailing.1 rfl) h.2) fun _ => rfl,
          hlater⟩
      | false =>
        have hrequired : ¬ MayBeLeftOut later := fun h => Bool.noConfusion (htrailing.2 h)
        have hname : isName ((Json.obj l).erase "optional") = isName (.obj l) :=
          Json.hasText_congr (Json.get?_erase_ne (by decide)) _
        rw [if_neg Bool.false_ne_true]
        cases hleftName : isName (.obj l) with
        | true =>
          refine .bind
            ((requireParam_required (hname.trans hleftName)).mono fun left' h => .pure ?_)
          exact ⟨.defaulted hdefault hleft (fun _ => h.of_erased)
            fun h' => absurd ⟨hleftName, hrequired⟩ h', hlater⟩
        | false =>
          rw [requireParam_of_not_isName (hname.trans hleftName)]
          refine .bind (.ok (.pure ⟨.defaulted hdefault hleft (fun h => ?_) fun _ => rfl, hlater⟩))
          rw [hleftName] at h
          exact absurd h.1 Bool.false_ne_true
    next => exact .error _
  · have hnamed := Bool.and_eq_true_iff.1 hmarked
    refine .ite (fun h => .pure ⟨?_, ?_⟩) fun h => ?_
    · exact .same (hasText_apart hnamed.1 (by decide)) fun _ => htrailing.1 h
    · exact iff_of_true rfl ⟨.inr (.inl hnamed.2), h⟩
    · refine .bind ((requireParam_required hnamed.1).mono fun p' hp' => .pure ⟨?_, ?_⟩)
      · exact .lost hmarked (fun h' => h (htrailing.2 h')) hp'
      · exact iff_of_false Bool.false_ne_true fun h' => h h'.2
  · exact .same (Bool.eq_false_iff.2 hdefault) fun h => absurd h hmarked
  · -- only a name may be marked, and this one is not
    refine iff_of_false Bool.false_ne_true ?_
    rintro ⟨hrest' | hoptional | hdefault', -⟩
    · exact hrest hrest'
    · exact hmarked (Bool.and_eq_true_iff.2 ⟨hcarry hoptional, hoptional⟩)
    · exact hdefault hdefault'

/-! ## A list of parameters -/

/-- Each parameter has become what it does before those that follow it. -/
inductive EachSettled : List Json → List Json → Prop
  | nil : EachSettled [] []
  | cons {p p' : Json} {params params' : List Json} (first : ParamSettled params p p')
      (rest : EachSettled params params') : EachSettled (p :: params) (p' :: params')

/-- **From the last parameter to the first, each is settled before those that follow
it.** -/
theorem reorderFrom_settled (hcarry : ∀ p ∈ params, p.holds "optional" = true → isName p = true) :
    Result.Yields (reorderFrom params) fun r =>
      EachSettled params r.1 ∧ (r.2 = true ↔ MayBeLeftOut params) := by
  induction params with
  | nil => exact .pure ⟨.nil, iff_of_true rfl nofun⟩
  | cons p params ih =>
    rw [List.forall_mem_cons] at hcarry
    refine .bind ((ih hcarry.2).mono fun r hr => .bind ?_)
    exact (reorderParam_settled hr.2 hcarry.1).mono fun r' hr' => .pure ⟨.cons hr'.1 hr.1, hr'.2⟩

namespace EachSettled

/-- The parameters keep their number. -/
theorem length_eq (h : EachSettled params params') : params'.length = params.length := by
  induction h with
  | nil => rfl
  | cons _ _ ih => exact congrArg (· + 1) ih

/-- What holds of each place in the lists. -/
theorem settled {i : Nat} (h : EachSettled params params') (hp : params[i]? = some p)
    (hp' : params'[i]? = some p') : ParamSettled (params.drop (i + 1)) p p' := by
  induction h generalizing i with
  | nil => cases hp
  | cons first _ ih =>
    cases i with
    | zero =>
      obtain rfl := Option.some.inj hp
      obtain rfl := Option.some.inj hp'
      exact first
    | succ i => exact ih hp hp'

end EachSettled

namespace ParamSettled

/-- A parameter stays of its kind. -/
theorem type_eq (h : ParamSettled later p p') : p'.get? "type" = p.get? "type" := by
  by_cases hdefault : isDefault p = true
  · obtain ⟨left, left', -, rfl, -⟩ := h.default hdefault
    exact Json.get?_set_ne (by decide) _
  · by_cases hmarked : isMarked p = true ∧ ¬ MayBeLeftOut later
    · cases h.required hmarked.1 hmarked.2 with
      | typed => rw [Json.get?_set_ne (by decide), Json.get?_erase_ne (by decide)]
      | untyped => exact Json.get?_erase_ne (by decide)
    · rw [h.kept (Bool.eq_false_iff.2 hdefault) fun h' =>
        by_contra fun hlater => hmarked ⟨h', hlater⟩]

/-- A default stays one. -/
theorem isDefault_eq (h : ParamSettled later p p') : isDefault p' = isDefault p :=
  Json.hasText_congr h.type_eq _

/-- A marker stays if and only if all that follows may be left out. -/
theorem isMarked_iff (h : ParamSettled later p p') (hmarked : isMarked p = true) :
    isMarked p' = true ↔ MayBeLeftOut later := by
  by_cases hlater : MayBeLeftOut later
  · have hdefault : isDefault p = false :=
      hasText_apart (Bool.and_eq_true_iff.1 hmarked).1 (by decide)
    rw [h.kept hdefault fun _ => hlater]
    exact iff_of_true hmarked hlater
  · have hunmarked := (h.required hmarked hlater).unmarked
    refine iff_of_false (fun h' => ?_) hlater
    rw [isMarked, Json.holds, hunmarked, Bool.and_false] at h'
    cases h'

/-- What is marked at last was marked before, and all that follows may be left
out. -/
theorem of_isMarked (h : ParamSettled later p p') (hmarked : isMarked p' = true) :
    MayBeLeftOut later := by
  by_contra hlater
  by_cases hbefore : isMarked p = true
  · exact hlater ((h.isMarked_iff hbefore).1 hmarked)
  · have hdefault : isDefault p = false := by
      rw [← h.isDefault_eq]
      exact hasText_apart (Bool.and_eq_true_iff.1 hmarked).1 (by decide)
    rw [h.kept hdefault fun h' => absurd h' hbefore] at hmarked
    exact hbefore hmarked

/-- No marker is left beside a default value. -/
theorem left_unmarked (h : ParamSettled later p p') (hdefault : isDefault p' = true) {left : Json}
    (hleft : p'.get? "left" = some left) : left.get? "optional" = none := by
  obtain ⟨before, left', hbefore, rfl, hrequired, herased⟩ :=
    h.default (h.isDefault_eq.symm.trans hdefault)
  obtain rfl : left' = left := Option.some.inj ((Json.get?_set_self hbefore).symm.trans hleft)
  by_cases h' : isName before = true ∧ ¬ MayBeLeftOut later
  · exact (hrequired h').unmarked
  · rw [herased h']
    exact Json.get?_erase_self

end ParamSettled

namespace EachSettled

/-- Parameters that may be left out still may. -/
theorem mayBeLeftOut (h : EachSettled params params') (hparams : MayBeLeftOut params) :
    MayBeLeftOut params' := by
  induction h with
  | nil => exact nofun
  | @cons p p' params params' first _ ih =>
    rw [mayBeLeftOut_cons] at hparams ⊢
    refine ⟨?_, ih hparams.2⟩
    cases hdefault : isDefault p with
    | true => exact .inr (.inr (first.isDefault_eq.trans hdefault))
    | false =>
      rw [first.kept hdefault fun _ => hparams.2]
      exact hparams.1

/-- **No marked parameter stands before a required one.** -/
theorem ordered (h : EachSettled params params') : params'.Pairwise fun p q => isMarked p = true →
    isRestElement q = true ∨ q.holds "optional" = true ∨ isDefault q = true := by
  induction h with
  | nil => exact .nil
  | cons first rest ih =>
    exact .cons (fun q hq hmarked => rest.mayBeLeftOut (first.of_isMarked hmarked) q hq) ih

/-- No name under a default has a marker. -/
theorem left_unmarked (h : EachSettled params params') : ∀ p ∈ params', isDefault p = true →
    ∀ left, p.get? "left" = some left → left.get? "optional" = none := by
  induction h with
  | nil => exact nofun
  | cons first _ ih =>
    exact List.forall_mem_cons.2 ⟨fun hdefault _ hleft => first.left_unmarked hdefault hleft, ih⟩

end EachSettled

/-! ## The law -/

/-- What a parameter list becomes. -/
structure Reordering (params params' : List Json) : Prop where
  length : params'.length = params.length
  /-- No marked parameter stands before one that may not be left out. -/
  ordered : params'.Pairwise fun p q => isMarked p = true →
    isRestElement q = true ∨ q.holds "optional" = true ∨ isDefault q = true
  /-- A marker stays if and only if all later parameters could be left out. -/
  marker (i : Nat) (p p' : Json) (hp : params[i]? = some p) (hp' : params'[i]? = some p')
    (hmarked : isMarked p = true) : isMarked p' = true ↔ MayBeLeftOut (params.drop (i + 1))
  /-- No marker is left beside a default value. -/
  default : ∀ p ∈ params', isDefault p = true → ∀ left, p.get? "left" = some left →
    left.get? "optional" = none
  /-- Each parameter is what it was, or has lost its marker and admits `undefined`. -/
  settled (i : Nat) (p p' : Json) (hp : params[i]? = some p) (hp' : params'[i]? = some p') :
    ParamSettled (params.drop (i + 1)) p p'

/-- Settled parameters are reordered as they should be. -/
theorem EachSettled.reordering (h : EachSettled params params') : Reordering params params' where
  length := h.length_eq
  ordered := h.ordered
  marker _ _ _ hp hp' hmarked := (h.settled hp hp').isMarked_iff hmarked
  default := h.left_unmarked
  settled _ _ _ := h.settled

/-- A node whose annotation, if there is one, holds a type, and the members of a
union in it are a list. -/
def WellTyped (n : Json) : Prop :=
  ∀ typed, n.get? "typeAnnotation" = some typed → typed.hasText "type" "TSTypeAnnotation" = true →
    ∃ l, typed.get? "typeAnnotation" = some (.obj l) ∧
      ((Json.obj l).hasText "type" "TSUnionType" = true →
        ∃ ts, (Json.obj l).get? "types" = some (.arr ts))

/-- A parameter as the syntax has it: one with a default value has a left side. -/
structure WellFormedParam (p : Json) : Prop where
  typed : WellTyped p
  left (h : isDefault p = true) : ∃ l, p.get? "left" = some (.obj l) ∧ WellTyped (.obj l)

/-- A type whose union has its members can be made to admit `undefined`. -/
theorem admitUndefined_returns {t : Json} (h : t.hasText "type" "TSUnionType" = true →
    ∃ ts, t.get? "types" = some (.arr ts)) : ∃ t', admitUndefined t = .ok t' := by
  rw [admitUndefined]
  split
  next hunion =>
    obtain ⟨ts, hts⟩ := h hunion
    rw [Json.listField, hts, Result.ok_bind]
    split <;> exact ⟨_, rfl⟩
  next => exact ⟨_, rfl⟩

/-- A name with such a type can be made required. -/
theorem requireParam_returns (h : WellTyped n) : ∃ n', requireParam n = .ok n' := by
  rw [requireParam, widenWithUndefined, get?_erase_optional]
  split
  · split
    next typed htyped =>
      split
      next hkind =>
        obtain ⟨l, hl, hunion⟩ := h typed htyped hkind
        obtain ⟨t', ht'⟩ := admitUndefined_returns hunion
        rw [Json.field, hl, Result.ok_bind, ht']
        exact ⟨_, rfl⟩
      next => exact ⟨_, rfl⟩
    next => exact ⟨_, rfl⟩
  · exact ⟨_, rfl⟩

/-- A marker taken away leaves the type well-formed. -/
theorem WellTyped.erase (h : WellTyped n) : WellTyped (n.erase "optional") := by
  intro typed htyped
  exact h typed (get?_erase_optional ▸ htyped)

/-- A well-formed parameter can be reordered. -/
theorem reorderParam_returns (h : WellFormedParam p) (trailing : Bool) :
    ∃ r, reorderParam p trailing = .ok r := by
  rw [reorderParam]
  split
  · exact ⟨_, rfl⟩
  · split
    next hdefault =>
      obtain ⟨l, hleft, htyped⟩ := h.left hdefault
      obtain ⟨left', hleft'⟩ := requireParam_returns htyped.erase
      rw [hleft]
      cases trailing with
      | true => exact ⟨_, rfl⟩
      | false => simp only [hleft', Result.ok_bind]; exact ⟨_, rfl⟩
    next =>
      obtain ⟨p', hp'⟩ := requireParam_returns h.typed
      split
      · split
        · exact ⟨_, rfl⟩
        · rw [hp']
          exact ⟨_, rfl⟩
      · exact ⟨_, rfl⟩

/-- **Well-formed parameters can be reordered**: there is no refusal. -/
theorem reorderParams_returns (h : ∀ p ∈ params, WellFormedParam p) :
    ∃ params', reorderParams params = .ok params' := by
  have hfrom : ∃ r, reorderFrom params = .ok r := by
    induction params with
    | nil => exact ⟨_, rfl⟩
    | cons p params ih =>
      rw [List.forall_mem_cons] at h
      obtain ⟨⟨rest, trailing⟩, hrest⟩ := ih h.2
      obtain ⟨r, hr⟩ := reorderParam_returns h.1 trailing
      rw [reorderFrom, hrest, Result.ok_bind]
      dsimp only
      rw [hr]
      exact ⟨_, rfl⟩
  obtain ⟨r, hr⟩ := hfrom
  rw [reorderParams, hr]
  exact ⟨_, rfl⟩

/-- **What a parameter list becomes.** Let only names and the left sides of
default values be marked optional. If the list is as the syntax has it, it is
reordered; whenever it is, the markers that stay are those of the parameters
after which all may be left out, the others are gone, those who lost one admit
`undefined`, and nothing else has changed; and the list that comes out stays as
it is when it is reordered once more. -/
theorem reorderParams_law {params : List Json}
    (hcarry : ∀ p ∈ params, p.holds "optional" = true → isName p = true) :
    ((∀ p ∈ params, WellFormedParam p) → ∃ params', reorderParams params = .ok params') ∧
    ∀ params', reorderParams params = .ok params' →
      Reordering params params' ∧ reorderParams params' = .ok params' := by
  refine ⟨reorderParams_returns, fun params' h => ⟨?_, reorderParams_again params params' h⟩⟩
  have hsettled : Result.Yields (reorderParams params) (EachSettled params) :=
    .bind ((reorderFrom_settled hcarry).mono fun _ hr => .pure hr.1)
  exact (hsettled params' h).reordering

/-- `(x?: string, y? = 1, z)` -/
def mixedParams : List Json := [
  TypeScript.identifier "x" [
    ("typeAnnotation", TypeScript.annotationNode (TypeScript.node "TSStringKeyword" [])),
    ("optional", .bool true)],
  TypeScript.node "AssignmentPattern" [
    ("left", TypeScript.identifier "y" [("optional", .bool true)]),
    ("right", TypeScript.node "NumericLiteral" [("value", .int 1)])],
  TypeScript.identifier "z" []]

/-- Two parameters lose their markers, and one of them admits `undefined`. -/
theorem reorderParams_law_mixed : ∃ params', reorderParams mixedParams = .ok params' ∧
    Reordering mixedParams params' ∧ reorderParams params' = .ok params' := by
  have hplain {n : Json} (h : n.get? "typeAnnotation" = none) : WellTyped n := by
    intro typed htyped
    rw [h] at htyped
    cases htyped
  have hwellFormed : ∀ p ∈ mixedParams, WellFormedParam p := by
    refine List.forall_mem_cons.2 ⟨⟨?_, nofun⟩, List.forall_mem_cons.2 ⟨⟨hplain rfl, fun _ => ?_⟩,
      List.forall_mem_singleton.2 ⟨hplain rfl, nofun⟩⟩⟩
    · rintro _ ⟨⟩ _
      exact ⟨_, rfl, nofun⟩
    · exact ⟨_, rfl, hplain rfl⟩
  obtain ⟨hreturns, hlaw⟩ := reorderParams_law (show ∀ p ∈ mixedParams,
    p.holds "optional" = true → isName p = true by decide)
  obtain ⟨params', hparams'⟩ := hreturns hwellFormed
  exact ⟨params', hparams', hlaw params' hparams'⟩

end Retype.Migration
