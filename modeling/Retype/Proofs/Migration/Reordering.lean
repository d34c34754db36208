import Retype.Proofs.Migration.Throughout
/-!
# Optional parameters before required ones

What a parameter list becomes on the way up. Each parameter becomes one
(`reorderParams_related`), and a list that has been reordered stays as it is
(`reorderParams_again`): no marker is left that has to go, and a type that
admits `undefined` already does not change.
-/

namespace Retype.Migration

/-! ## One parameter each -/

/-- What relates each parameter to what it becomes relates the lists. -/
theorem reorderParams_related {A : Json → Json → Prop} {params : List Json}
    (h : ∀ param ∈ params, ∀ trailing,
      Result.Yields (reorderParam param trailing) fun r => A param r.1) :
    Result.Yields (reorderParams params) (List.Forall₂ A params) := by
  have hfrom : Result.Yields (reorderFrom params) fun r => List.Forall₂ A params r.1 := by
    induction params with
    | nil => exact .pure .nil
    | cons param rest ih =>
      rw [List.forall_mem_cons] at h
      refine .bind ((ih h.2).mono fun r hrest => .bind ?_)
      exact (h.1 r.2).mono fun _ hparam => .pure (.cons hparam hrest)
  exact .bind (hfrom.mono fun _ h => .pure h)

/-- What stays of a parameter when the list is reordered. -/
structure Reordered (param param' : Json) : Prop where
  get? (key : String) (h : key ∉ ["optional", "typeAnnotation", "left"]) :
    param'.get? key = param.get? key
  annotated : param'.holds "typeAnnotation" = param.holds "typeAnnotation"

namespace Reordered

variable {param param' param'' : Json}

/-- A parameter left as it is is reordered. -/
theorem refl (param : Json) : Reordered param param := ⟨fun _ _ => rfl, rfl⟩

/-- A parameter reordered twice is reordered. -/
theorem trans (h : Reordered param param') (h' : Reordered param' param'') :
    Reordered param param'' :=
  ⟨fun key hkey => (h'.get? key hkey).trans (h.get? key hkey), h'.annotated.trans h.annotated⟩

/-- What stands under a default may change. -/
theorem set_left (param left : Json) : Reordered param (param.set "left" left) := by
  refine ⟨fun key hkey => Json.get?_set_ne (fun h => hkey (by simp [h])) _, ?_⟩
  rw [Json.holds, Json.holds, Json.get?_set_ne (by decide)]

/-- A marker may be taken away. -/
theorem erase_optional (param : Json) : Reordered param (param.erase "optional") := by
  refine ⟨fun key hkey => Json.get?_erase_ne fun h => hkey (by simp [h]), ?_⟩
  rw [Json.holds, Json.holds, Json.get?_erase_ne (by decide)]

end Reordered

variable {param : Json}

/-- Widening a type is reordering. -/
theorem widenWithUndefined_reordered (param : Json) :
    Result.Yields (widenWithUndefined param) (Reordered param) := by
  rw [widenWithUndefined]
  split
  next typed htyped =>
    refine .ite (fun hkind => .bind (.trivial _ fun inner => .bind (.trivial _ fun inner' =>
      .pure ⟨fun key hkey => ?_, ?_⟩))) fun _ => .pure (.refl param)
    · exact Json.get?_set_ne (fun h => hkey (by simp [h])) _
    · -- the annotation is an object before and after
      obtain ⟨l, rfl⟩ := Json.exists_obj_of_get? (get?_of_hasText hkind)
      rw [Json.holds, Json.holds, Json.get?_set_self htyped, htyped]
      exact (Json.isTrue_set l _ _).trans (Json.isTrue_of_get? (get?_of_hasText hkind)).symm
  next => exact .pure (.refl param)

/-- So is making a name required. -/
theorem requireParam_reordered (param : Json) :
    Result.Yields (requireParam param) (Reordered param) := by
  rw [requireParam]
  exact .ite (fun _ => (widenWithUndefined_reordered _).mono fun _ h =>
    (Reordered.erase_optional param).trans h) fun _ => .pure (.refl param)

/-- So is what happens to one parameter of a list. -/
theorem reorderParam_reordered (param : Json) (trailing : Bool) :
    Result.Yields (reorderParam param trailing) fun r => Reordered param r.1 := by
  rw [reorderParam]
  refine .ite (fun _ => .pure (.refl param)) fun _ => .ite (fun _ => ?_) fun _ => .ite (fun _ => ?_)
    fun _ => .pure (.refl param)
  · split
    · cases trailing with
      | true => exact .pure (.set_left param _)
      | false => exact .bind (.trivial _ fun left => .pure (.set_left param left))
    · exact .error _
  · exact .ite (fun _ => .pure (.refl param)) fun _ =>
      .bind ((requireParam_reordered param).mono fun _ h => .pure h)

/-! ## Once more -/

/-- A type that admits `undefined` stays as it is. -/
theorem admitUndefined_again (type : Json) : Result.Yields (admitUndefined type) fun type' =>
    admitUndefined type' = .ok type' ∧ (type.isObject = true → type'.isObject = true) := by
  rw [admitUndefined]
  refine .ite (fun hunion => .bind (.mono (listField_yields type _) fun types htypes => ?_))
    fun _ => .pure ?_
  · have hlist : type.listField "types" = .ok types := by rw [Json.listField, htypes]
    refine .ite (fun hany => .pure ⟨?_, id⟩) fun _ => .pure ⟨?_, fun h => ?_⟩
    · rw [admitUndefined, if_pos hunion, hlist]
      exact if_pos hany
    · have hunion' : (type.set "types" (.arr (types ++ [undefinedType]))).hasText "type"
          "TSUnionType" = true :=
            (Json.hasText_congr (Json.get?_set_ne (by decide) _) _).trans hunion
      have hlist' : (type.set "types" (.arr (types ++ [undefinedType]))).listField "types" =
          .ok (types ++ [undefinedType]) := by rw [Json.listField, Json.get?_set_self htypes]
      rw [admitUndefined, if_pos hunion', hlist']
      refine if_pos (List.any_append ▸ ?_)
      rw [Bool.or_eq_true]
      exact .inr rfl
    · exact (Json.isObject_set _).trans h
  · have hunion : (TypeScript.node "TSUnionType" [("types", .arr [type, undefinedType])]).hasText
        "type" "TSUnionType" = true := rfl
    have hlist : (TypeScript.node "TSUnionType" [("types", .arr [type, undefinedType])]).listField
        "types" = .ok [type, undefinedType] := rfl
    refine ⟨?_, fun _ => rfl⟩
    rw [admitUndefined, if_pos hunion, hlist]
    refine if_pos ?_
    simp only [List.any_cons, List.any_nil, Bool.or_false, Bool.or_eq_true]
    exact .inr rfl

/-- A value with a field is an object. -/
theorem isObject_of_field {n v : Json} {key : String} (h : n.field key = .ok v) :
    v.isObject = true := by
  rw [Json.field] at h
  split at h <;> cases h
  rfl

/-- A type that was widened is not widened again. -/
theorem widenWithUndefined_again (param : Json) : Result.Yields (widenWithUndefined param)
    fun param' => widenWithUndefined param' = .ok param' := by
  rw [widenWithUndefined]
  split
  next typed htyped =>
    refine .ite (fun hkind => .bind fun inner hinner => .bind ?_) fun hkind => .pure ?_
    · refine (admitUndefined_again inner).mono fun inner' hinner' => .pure ?_
      have hkind' : (typed.set "typeAnnotation" inner').hasText "type" "TSTypeAnnotation" = true :=
        (Json.hasText_congr (Json.get?_set_ne (by decide) _) _).trans hkind
      have hfield' : (typed.set "typeAnnotation" inner').field "typeAnnotation" = .ok inner' := by
        obtain ⟨l, rfl⟩ := exists_obj_of_isObject (hinner'.2 (isObject_of_field hinner))
        rw [Json.field, Json.get?_set_self (get?_of_hasText hkind)]
      -- the same type is set once more, in the annotation and in the parameter
      have htyped' : (param.set "typeAnnotation" (typed.set "typeAnnotation" inner')).get?
          "typeAnnotation" = some (typed.set "typeAnnotation" inner') := Json.get?_set_self htyped
      have hinner : (typed.set "typeAnnotation" inner').set "typeAnnotation" inner' =
          typed.set "typeAnnotation" inner' :=
        Json.set_of_get? (Json.get?_set_self (get?_of_hasText hkind))
      rw [widenWithUndefined, htyped']
      simp only [hkind', if_true, hfield', Result.ok_bind, hinner'.1, hinner,
        Json.set_of_get? htyped']
      rfl
    · rw [widenWithUndefined, htyped]
      exact if_neg hkind
  next hnone =>
    refine .pure ?_
    rw [widenWithUndefined, hnone]
    rfl

/-- A name that was made required stays so. -/
theorem requireParam_again (param : Json) : Result.Yields (requireParam param)
    fun param' => requireParam param' = .ok param' := by
  rw [requireParam]
  refine .ite (fun hname => ?_) fun hname => .pure (if_neg hname)
  intro param' hparam'
  have hget := widenWithUndefined_reordered _ param' hparam'
  have hunmarked :=
    widenWithUndefined_get? (show "optional" ≠ "typeAnnotation" by decide) _ param' hparam'
  have hname' : param'.hasText "type" "Identifier" = true := by
    rw [Json.hasText_congr (hget.get? "type" (by decide)),
      Json.hasText_congr (Json.get?_erase_ne (by decide))]
    exact hname
  rw [requireParam, if_pos hname',
    Json.erase_of_get?_none (hunmarked.2.trans Json.get?_erase_self)]
  exact widenWithUndefined_again _ param' hparam'

/-- A parameter that was reordered stays as it is. -/
theorem reorderParam_again (param : Json) (trailing : Bool) :
    Result.Yields (reorderParam param trailing) fun r => reorderParam r.1 trailing = .ok r := by
  rw [reorderParam]
  refine .ite (fun hrest => .pure ?_) fun hrest => .ite (fun hpattern => ?_) fun hpattern =>
    .ite (fun hmarked => ?_) fun hmarked => .pure ?_
  · rw [reorderParam, if_pos hrest]
    rfl
  · split
    next l hleft =>
      have hunmarked : ((Json.obj l).erase "optional").get? "optional" = none :=
        Json.get?_erase_self
      -- what is set as the left side has no marker, and would be set again
      have hagain (left : Json) (hobject : left.isObject = true)
          (hunmarked : left.get? "optional" = none)
          (hleft' : trailing = false → requireParam left = .ok left) :
          reorderParam (param.set "left" left) trailing =
            .ok (param.set "left" left, trailing) := by
        obtain ⟨l', rfl⟩ := exists_obj_of_isObject hobject
        have htype : (param.set "left" (.obj l')).get? "type" = param.get? "type" :=
          Json.get?_set_ne (by decide) _
        have hget : (param.set "left" (.obj l')).get? "left" = some (.obj l') :=
          Json.get?_set_self hleft
        rw [reorderParam, Json.hasText_congr htype, Json.hasText_congr htype, if_neg hrest,
          if_pos hpattern, hget]
        simp only [Json.erase_of_get?_none hunmarked]
        cases trailing with
        | true =>
          simp only [if_true, pure_bind, Json.set_of_get? hget]
          rfl
        | false =>
          simp only [hleft' rfl, Result.ok_bind, Json.set_of_get? hget]
          rfl
      cases trailing with
      | true => exact .pure (hagain _ rfl hunmarked fun h => Bool.noConfusion h)
      | false =>
        refine .bind fun left hleft' => .pure (hagain left ?_ ?_ fun _ => ?_)
        · exact (requireParam_get?
            (show "type" ∉ ["optional", "typeAnnotation"] by decide) _ left hleft').1
        · exact requireParam_unmarked hunmarked left hleft'
        · exact requireParam_again _ left hleft'
    next => exact .error _
  · rw [Bool.and_eq_true] at hmarked
    refine .ite (fun htrailing => .pure ?_) fun htrailing => .bind fun param' hparam' => .pure ?_
    · rw [reorderParam, if_neg hrest, if_neg hpattern, if_pos, if_pos htrailing]
      · rfl
      · simp [hmarked]
    · -- the marker is gone
      have htype :=
        (requireParam_get?
          (show "type" ∉ ["optional", "typeAnnotation"] by decide) _ param' hparam').2
      have hunmarked : param'.holds "optional" = false := by
        rw [requireParam, if_pos hmarked.1] at hparam'
        have hget :=
          (widenWithUndefined_get?
            (show "optional" ≠ "typeAnnotation" by decide) _ param' hparam').2
        rw [Json.holds, hget, Json.get?_erase_self]
      rw [reorderParam, Json.hasText_congr htype, Json.hasText_congr htype,
        Json.hasText_congr htype,
        if_neg hrest, if_neg hpattern, hunmarked, Bool.and_false]
      rfl
  · rw [reorderParam, if_neg hrest, if_neg hpattern, if_neg hmarked]
    rfl

/-- **A list that has been reordered stays as it is.** -/
theorem reorderParams_again (params : List Json) : Result.Yields (reorderParams params)
    fun params' => reorderParams params' = .ok params' := by
  have hfrom : Result.Yields (reorderFrom params) fun r => reorderFrom r.1 = .ok r := by
    induction params with
    | nil => exact .pure rfl
    | cons param rest ih =>
      refine .bind (ih.mono fun r hrest => .bind ?_)
      refine (reorderParam_again param r.2).mono fun r' hparam => .pure ?_
      simp only [reorderFrom, hrest, Result.ok_bind, hparam]
      rfl
  refine .bind (hfrom.mono fun r h => .pure ?_)
  rw [reorderParams, h]
  rfl

end Retype.Migration
