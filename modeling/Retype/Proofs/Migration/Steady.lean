import Retype.Proofs.Migration.Reordering
import Retype.Proofs.Migration.Runtime
/-!
# A tree that was rewritten stays as it is

A node is steady at its site if each rule that applies to it leaves it as it
is and refuses nothing (`Steady`). What has become of a node is steady
(`Steady.of_passed`), so a rewritten tree is steady throughout, and a walk over
a tree that is steady throughout changes nothing (`walk_steady`): rewriting a
tree again gives the same tree (`rewriteTree_again`).
-/

namespace Retype.Migration

open Syntax (Place Frame Visit Walked)

/-! ## Steady nodes -/

/-- Whether a specifier of an import is marked as a type. -/
def isTypeSpecifier (s : Json) : Bool :=
  s.hasText "type" "ImportSpecifier" && s.hasText "importKind" "type"

/-- Whether a rule for nodes that keep their place changes nothing. -/
def LeavesAlone (o : FileOptions) (site : Site) (n : Json) : EnterRule → Prop
  | .importDeclaration => n.hasText "importKind" "type" = false ∧
      (n.hasText "importKind" "typeof" = false →
        ∀ s ∈ n.itemsAt "specifiers", isTypeSpecifier s = false)
  | .exportNamed => n.get? "exportKind" = none
  | .declarator => site.declaresTestVariable o = true → ∀ id, n.get? "id" = some id →
      isUnannotated id = true → variableAnnotation? ((n.get? "init").getD .null) = none
  | .functionDeclaration => o.isTestFile = true → unannotatedParams n = []
  | .classProperty => Location.objectAt? n "variance" = none
  | _ => True

/-- Whether a rule changes nothing on the way up. -/
def AtRest (n : Json) : LeaveRule → Prop
  | .program => True
  | .function => ∀ params, n.get? "params" = some (.arr params) → reorderParams params = .ok params
  | .assignmentPattern => ∀ left, n.get? "left" = some left → n.holds "right" = true →
      left.hasText "type" "Identifier" = true → left.get? "optional" = none

/-- No rule changes or refuses a node at a site. -/
structure Steady (o : FileOptions) (site : Site) (n : Json) : Prop where
  keys : ((entriesOf n).map (·.1)).Nodup
  enter (rule : EnterRule) (h : enterRule? n.kind = some rule) :
    rule.keepsPlace = true ∧ Accepts o site n rule ∧ LeavesAlone o site n rule
  leave (rule : LeaveRule) (h : leaveRule? n.kind = some rule) : AtRest n rule

variable {o : FileOptions} {site : Site} {n n' m c v v' : Json} {rule : EnterRule}

/-- A specifier that is no type import is left as it is. -/
theorem plainSpecifier_eq {s : Json} (h : isTypeSpecifier s = false) : plainSpecifier s = s :=
  if_neg (by rw [← isTypeSpecifier, h]; exact Bool.false_ne_true)

/-- So are specifiers none of which is a type import. -/
theorem map_plainSpecifier {specifiers : List Json}
    (h : ∀ s ∈ specifiers, isTypeSpecifier s = false) :
    specifiers.map plainSpecifier = specifiers :=
  (List.map_congr_left fun s hs => plainSpecifier_eq (h s hs)).trans (List.map_id' _)

/-- A node without an unannotated parameter needs no `any`. -/
theorem annotateWithAny_eq (h : unannotatedParams n = []) : annotateWithAny n = n := by
  rw [annotateWithAny]
  split
  next params hget =>
    have hall : ∀ param ∈ params, ¬isUnannotated param = true := by
      simpa [unannotatedParams, Json.itemsAt, hget, Json.items] using h
    rw [List.map_congr_left fun param hparam => if_neg (hall param hparam), List.map_id']
    exact Json.set_of_get? hget
  next => rfl

/-- A rule that changes nothing leaves the node. -/
theorem LeavesAlone.keptAs_eq (h : LeavesAlone o site n rule) : keptAs o site n rule = n := by
  cases rule with
  | importDeclaration =>
    rw [keptAs, importedAs, if_neg (by rw [h.1]; exact Bool.false_ne_true)]
    split
    · rfl
    next htypeof =>
      have hspecifiers := h.2 (Bool.eq_false_iff.2 htypeof)
      split
      next specifiers hget =>
        rw [Json.itemsAt, hget] at hspecifiers
        have hmap : specifiers.map plainSpecifier = specifiers := map_plainSpecifier hspecifiers
        rw [hmap]
        exact Json.set_of_get? hget
      next => rfl
  | exportNamed => exact Json.erase_of_get?_none h
  | declarator =>
    rw [keptAs, declaredAs]
    split
    next htest =>
      split
      next id hid =>
        split
        next hun => rw [h htest id hid hun]
        next => rfl
      next => rfl
    next => rfl
  | functionDeclaration =>
    rw [keptAs]
    split
    next htest => exact annotateWithAny_eq (h htest)
    next => rfl
  | classProperty =>
    have hnone : Location.objectAt? n "variance" = none := h
    rw [keptAs, propertyAs, hnone]
  | _ => rfl

/-! ## What a rule leaves -/

/-- What a specifier becomes is no type import. -/
theorem plainSpecifier_not_type (s : Json) : isTypeSpecifier (plainSpecifier s) = false := by
  rw [plainSpecifier]
  split
  next htype =>
    rw [Bool.and_eq_true] at htype
    have hnull : (s.set "importKind" .null).get? "importKind" = some .null :=
      Json.get?_set_self (get?_of_hasText htype.1)
    rw [isTypeSpecifier, Bool.and_eq_false_iff, Json.hasText.eq_def _ "importKind", hnull]
    exact .inr rfl
  next htype => exact Bool.eq_false_iff.2 htype

/-- No object has a key twice, and no specifier in a type import is marked as a
type itself. -/
def isOrderly (n : Json) : Bool :=
  decide ((entriesOf n).map (·.1)).Nodup &&
    (n.kind != "ImportDeclaration" || !n.hasText "importKind" "type" ||
      (n.itemsAt "specifiers").all (!isTypeSpecifier ·))

/-- **The import that one run wrote is left alone by the next.** -/
theorem importedAs_leavesAlone (horderly : isOrderly n = true)
    (hkind : n.kind = "ImportDeclaration")
    (hknown : importKindKnown n = true) :
    LeavesAlone o site (importedAs n) .importDeclaration ∧
      importKindKnown (importedAs n) = true := by
  rw [isOrderly, Bool.and_eq_true, hkind] at horderly
  rw [importedAs]
  split
  next htype =>
    have hvalue : (n.set "importKind" (.str "value")).get? "importKind" = some (.str "value") :=
      Json.get?_set_self (get?_of_hasText htype)
    have hspecifiers : (n.set "importKind" (.str "value")).itemsAt "specifiers" =
        n.itemsAt "specifiers" := by
      rw [Json.itemsAt, Json.itemsAt, Json.get?_set_ne (by decide)]
    have hplain : ∀ s ∈ n.itemsAt "specifiers", isTypeSpecifier s = false := by
      simpa [htype] using horderly.2
    refine ⟨⟨?_, fun _ => hspecifiers ▸ hplain⟩, ?_⟩
    · rw [Json.hasText, hvalue]
      rfl
    · rw [importKindKnown, Json.hasText.eq_def _ _ "value", hvalue]
      simp
  next htype =>
    rw [Bool.not_eq_true] at htype
    split
    next htypeof =>
      refine ⟨⟨htype, fun h => ?_⟩, hknown⟩
      rw [htypeof] at h
      cases h
    next htypeof =>
      split
      next specifiers hget =>
        have hkindGet : (n.set "specifiers" (.arr (specifiers.map plainSpecifier))).get?
            "importKind" = n.get? "importKind" := Json.get?_set_ne (by decide) _
        refine ⟨⟨(Json.hasText_congr hkindGet _).trans htype, fun _ => ?_⟩, ?_⟩
        · rw [Json.itemsAt, Json.get?_set_self hget]
          exact List.forall_mem_map.2 fun s _ => plainSpecifier_not_type s
        · simpa only [importKindKnown, Json.hasText_congr hkindGet, hkindGet] using hknown
      next hnone =>
        refine ⟨⟨htype, fun _ => ?_⟩, hknown⟩
        rw [Json.itemsAt]
        split
        next v hget =>
          cases v with
          | arr specifiers => exact absurd hget (hnone specifiers)
          | _ => exact List.forall_mem_nil _
        next => exact List.forall_mem_nil _

/-- A parameter that was given a type is annotated. -/
theorem isUnannotated_set {type : Json} (h : type.isTrue = true) :
    isUnannotated (v.set "typeAnnotation" type) = false := by
  rw [isUnannotated, Bool.and_eq_false_iff]
  cases v with
  | obj l => exact .inr (by simp [Json.holds, Json.set, Json.get?, Entries.get?_set_self, h])
  | _ => exact .inl rfl

/-- Once `any` is given, no parameter lacks a type. -/
theorem unannotatedParams_annotateWithAny (n : Json) :
    unannotatedParams (annotateWithAny n) = [] := by
  rw [annotateWithAny]
  split
  next params hget =>
    rw [unannotatedParams, Json.itemsAt, Json.get?_set_self hget, List.filter_eq_nil_iff]
    refine List.forall_mem_map.2 fun param _ => ?_
    split
    next =>
      rw [isUnannotated_set rfl]
      exact Bool.false_ne_true
    next hun => exact hun
  next hnone =>
    rw [unannotatedParams, Json.itemsAt]
    split
    next v hget =>
      cases v with
      | arr params => exact absurd hget (hnone params)
      | _ => rfl
    next => rfl

/-- The annotation a variable's value gives is a node. -/
theorem isTrue_of_variableAnnotation? {init type : Json}
    (h : variableAnnotation? init = some type) :
    type.isTrue = true := by
  rw [variableAnnotation?] at h
  split at h
  · exact Option.some.inj h ▸ rfl
  split at h
  · exact Option.some.inj h ▸ rfl
  split at h
  · exact Option.some.inj h ▸ rfl
  · cases h

/-- A variable that needs an annotation has got it. -/
theorem declaredAs_annotated (htest : site.declaresTestVariable o = true) {id : Json}
    (hid : (declaredAs o site n).get? "id" = some id) (hun : isUnannotated id = true) :
    variableAnnotation? ((n.get? "init").getD .null) = none := by
  rw [declaredAs, if_pos htest] at hid
  cases hget : n.get? "id" with
  | none =>
    rw [hget] at hid
    rw [hget] at hid
    cases hid
  | some former =>
    simp only [hget] at hid
    split at hid
    next =>
      cases htype : variableAnnotation? ((n.get? "init").getD .null) with
      | none => rfl
      | some type =>
        simp only [htype, Json.get?_set_self hget] at hid
        rw [← Option.some.inj hid, isUnannotated_set (isTrue_of_variableAnnotation? htype)] at hun
        cases hun
    next hformer =>
      rw [hget] at hid
      exact absurd (Option.some.inj hid ▸ hun) hformer

/-! ## What has become of a node -/

variable {R : Site → Json → Json → Bool → Prop} {marked : Prop} {mark : Bool}

/-- A parameter unannotated after the walk was so before it, at the same place. -/
theorem isUnannotated_of_walked (h : ItemWalked R site marked v v')
    (hun : isUnannotated v' = true) :
    isUnannotated v = true ∧ v'.get? "loc" = v.get? "loc" := by
  rw [isUnannotated, Bool.and_eq_true] at hun
  have halike := h.alike_of_hasText (by decide) (by decide) hun.1
  rw [isUnannotated, ← halike.hasText_eq (by decide), ← halike.holds_eq (by decide)]
  exact ⟨Bool.and_eq_true _ _ ▸ hun, halike.metadata _ (by decide)⟩

/-- A specifier that is a type import after the walk was one before it. -/
theorem isTypeSpecifier_of_walked (h : ItemWalked R site marked v v')
    (htype : isTypeSpecifier v' = true) : isTypeSpecifier v = true := by
  rw [isTypeSpecifier, Bool.and_eq_true] at htype
  have halike := h.alike_of_hasText (by decide) (by decide) htype.1
  rw [isTypeSpecifier, ← halike.hasText_eq (by decide), ← halike.hasText_eq (by decide)]
  exact Bool.and_eq_true _ _ ▸ htype

/-- Only a present value that is no open object or array needs no annotation. -/
theorem variableAnnotation?_eq_none_iff {init : Json} : variableAnnotation? init = none ↔
    init.isNull = false ∧
      (init.hasText "type" "ObjectExpression" && !init.holds "properties") = false ∧
      (init.hasText "type" "ArrayExpression" && !init.holds "elements") = false := by
  rw [variableAnnotation?]
  split_ifs <;> simp_all

/-- A variable that needs no annotation still needs none. -/
theorem variableAnnotation?_of_walked (h : ValueWalked R site marked v v')
    (hnone : variableAnnotation? v = none) : variableAnnotation? v' = none := by
  cases h with
  | arr => rfl
  | single _ item =>
    have hempty {kind key : String} (hkind : Ruleless kind) (hwritten : kind ∉ writtenKinds)
        (hkey : key ≠ "optional") (h : (v.hasText "type" kind && !v.holds key) = false) :
        (v'.hasText "type" kind && !v'.holds key) = false := by
      cases htext : v'.hasText "type" kind with
      | false => rfl
      | true =>
        have halike := item.alike_of_hasText hkind hwritten htext
        rwa [← halike.hasText_eq (by decide), ← halike.holds_eq hkey, htext] at h
    have hnull : v.isNull = v'.isNull := by
      cases item with
      | leaf => rfl
      | node hn _ came _ =>
        obtain ⟨l, rfl⟩ := exists_obj_of_isObject (isObject_of_isNode hn)
        obtain ⟨l', rfl⟩ := exists_obj_of_isObject (isObject_of_isNode came.isNode)
        rfl
    rw [variableAnnotation?_eq_none_iff] at hnone ⊢
    obtain ⟨hvalue, hobject, harray⟩ := hnone
    exact ⟨hnull ▸ hvalue, hempty (by decide) (by decide) (by decide) hobject,
      hempty (by decide) (by decide) (by decide) harray⟩

/-- The parameters on the way up. -/
theorem Leaves.params_reordered (h : Leaves o c n') :
    List.Forall₂ Reordered (c.itemsAt "params") (n'.itemsAt "params") := by
  have hsame {c' : Json} (hget : c'.get? "params" = c.get? "params") :
      List.Forall₂ Reordered (c.itemsAt "params") (c'.itemsAt "params") := by
    rw [Json.itemsAt, Json.itemsAt, hget]
    exact List.forall₂_same.2 fun param _ => .refl param
  cases h with
  | free => exact hsame rfl
  | ruled _ left =>
    cases left with
    | program => exact hsame rfl
    | importing => exact hsame (Json.get?_set_ne (by decide) _)
    | @function params params' field reordered =>
      rw [Json.itemsAt, Json.itemsAt, field, Json.get?_set_self field]
      exact reorderParams_related (fun param _ t => reorderParam_reordered param t) _ reordered
    | withoutParams => exact hsame rfl
    | pattern => exact hsame (leaveAssignmentPattern_get? (by decide))

/-- A parameter without an annotation had none before, and stands where it did. -/
theorem unannotatedParams_of_passed (hchildren : ChildrenWalked R site m c)
    (hleaves : Leaves o c n') :
    ∀ param' ∈ unannotatedParams n', ∃ param ∈ unannotatedParams m,
      param'.get? "loc" = param.get? "loc" := by
  intro param' hparam'
  obtain ⟨hmem', hun'⟩ := List.mem_filter.1 hparam'
  obtain ⟨between, hbetween, hreordered⟩ := Entries.exists_of_forall₂ hleaves.params_reordered hmem'
  obtain ⟨param, hmem, hwalked⟩ :=
    Entries.exists_of_forall₂ (hchildren.itemsAt_rel (by decide)) hbetween
  have hun : isUnannotated between = true := by
    rwa [isUnannotated, ← Json.hasText_congr (hreordered.get? "type" (by decide)),
      ← hreordered.annotated]
  obtain ⟨hun, hloc⟩ := isUnannotated_of_walked hwalked hun
  exact ⟨param, List.mem_filter.2 ⟨hmem, hun⟩, (hreordered.get? "loc" (by decide)).trans hloc⟩

/-- The place of a node is read from its positions alone. -/
theorem ofNodeOrRefuse_congr (path : String) (h : n'.get? "loc" = n.get? "loc") :
    Location.ofNodeOrRefuse path n' = Location.ofNodeOrRefuse path n := by
  simp only [Location.ofNodeOrRefuse, Location.ofNode, Location.ofNode?, Location.objectAt?, h]

/-- A node keeps its place through a visit. -/
theorem Placed.of_passed (h : Placed o m) (hchildren : ChildrenWalked R site m c)
    (hleaves : Leaves o c n') : Placed o n' := by
  intro param' hparam'
  obtain ⟨param, hparam, hloc⟩ := unannotatedParams_of_passed hchildren hleaves param' hparam'
  rw [ofNodeOrRefuse_congr o.path hloc]
  exact h param hparam

/-- The value under a key, or nothing. -/
theorem getD_walked (hchildren : ChildrenWalked R site m c) {key : String}
    (hkey : key ∉ "optional" :: Json.metadataKeys) :
    ValueWalked R (site.below m) True ((m.get? key).getD .null) ((c.get? key).getD .null) := by
  obtain ⟨hmarker, hmeta⟩ := not_or.1 (List.mem_cons.not.1 hkey)
  have hrel := hchildren.get?_rel hmarker
  generalize m.get? key = a, c.get? key = b at hrel
  cases hrel with
  | none => exact .single rfl (.leaf rfl)
  | some hentry =>
    cases hentry with
    | skipped hskip => exact absurd hskip (by simp [hmarker, hmeta])
    | walked _ value => exact value

/-- A rule that accepts a node accepts what has become of it. -/
theorem Accepts.of_passed (h : Accepts o site m rule) (hchildren : ChildrenWalked R site m c)
    (hleaves : Leaves o c n') : Accepts o site n' rule := by
  cases rule with
  | importDeclaration =>
    have hget := hleaves.get?_eq (show "importKind" ∉ ["body", "params", "left"] by decide)
    have hnull : ((c.get? "importKind").getD .null).isNull =
        ((m.get? "importKind").getD .null).isNull := by
      have hrel := hchildren.get?_looks (show "importKind" ≠ "optional" by decide)
      generalize m.get? "importKind" = a, c.get? "importKind" = b at hrel
      cases hrel with
      | none => rfl
      | some hlooks => cases hlooks <;> rfl
    rw [Accepts, importKindKnown] at h ⊢
    rw [hget, hnull]
    simpa only [Json.hasText_congr hget,
      hchildren.hasText_eq (show "importKind" ≠ "optional" by decide)]
      using h
  | functionDeclaration => exact fun htest hinfers => (h htest hinfers).of_passed hchildren hleaves
  | classMethod => exact fun hinfers => (h hinfers).of_passed hchildren hleaves
  | objectMethod =>
    intro hinside hinfers
    rw [Site.isInside, hleaves.isCreateReactClassCall_eq, hchildren.isCreateReactClassCall_eq]
      at hinside
    exact (h hinside hinfers).of_passed hchildren hleaves
  | _ => trivial

/-- A rule that leaves a node alone leaves what has become of it alone. -/
theorem LeavesAlone.of_passed (h : LeavesAlone o site m rule)
    (hchildren : ChildrenWalked R site m c)
    (hleaves : Leaves o c n') : LeavesAlone o site n' rule := by
  cases rule with
  | importDeclaration =>
    have hget := hleaves.get?_eq (show "importKind" ∉ ["body", "params", "left"] by decide)
    have htext (text : String) : n'.hasText "importKind" text = m.hasText "importKind" text :=
      (Json.hasText_congr hget text).trans (hchildren.hasText_eq (by decide) text)
    refine ⟨(htext _).trans h.1, fun htypeof s' hs' => ?_⟩
    rw [Json.itemsAt, hleaves.get?_eq (by decide)] at hs'
    obtain ⟨s, hs, hwalked⟩ := Entries.exists_of_forall₂ (hchildren.itemsAt_rel (by decide)) hs'
    cases htype : isTypeSpecifier s' with
    | false => rfl
    | true =>
      have hnot := h.2 ((htext _).symm.trans htypeof) s hs
      rw [isTypeSpecifier_of_walked hwalked htype] at hnot
      cases hnot
  | exportNamed => exact (hleaves.get?_eq (by decide)).trans (hchildren.get?_eq_none (by decide) h)
  | declarator =>
    intro htest id' hid' hun'
    rw [hleaves.get?_eq (by decide)] at hid' ⊢
    have hrel := hchildren.get?_rel (show "id" ≠ "optional" by decide)
    rw [hid'] at hrel
    generalize hid : m.get? "id" = a at hrel
    cases hrel with
    | @some id _ hentry =>
      refine variableAnnotation?_of_walked (getD_walked hchildren (by decide)) (h htest id hid ?_)
      cases hentry with
      | skipped hskip => exact hun'
      | walked _ value =>
        cases value with
        | single _ item => exact (isUnannotated_of_walked item hun').1
        | arr => cases hun'
  | functionDeclaration =>
    intro htest
    refine List.eq_nil_iff_forall_not_mem.2 fun param' hparam' => ?_
    obtain ⟨param, hparam, -⟩ := unannotatedParams_of_passed hchildren hleaves param' hparam'
    rw [h htest] at hparam
    cases hparam
  | classProperty =>
    have hget := hleaves.get?_eq (show "variance" ∉ ["body", "params", "left"] by decide)
    rw [LeavesAlone, Location.objectAt?, hget]
    exact hchildren.objectAt?_eq_none (by decide) h
  | _ => trivial

/-- What a rule makes of a node that it accepts, it accepts and leaves alone. -/
theorem keptAs_leavesAlone (horderly : isOrderly n = true) (hrule : enterRule? n.kind = some rule)
    (h : Accepts o site n rule) :
    Accepts o site (keptAs o site n rule) rule ∧
      LeavesAlone o site (keptAs o site n rule) rule := by
  cases rule with
  | importDeclaration =>
    have hall : ∀ entry ∈ enterRules, entry.2 = .importDeclaration →
        entry.1 = "ImportDeclaration" := by
      decide
    have hkind := hall _ (mem_of_enterRule hrule) rfl
    exact (importedAs_leavesAlone horderly hkind h).symm
  | exportNamed => exact ⟨trivial, Json.get?_erase_self⟩
  | declarator =>
    refine ⟨trivial, fun htest id hid hun => ?_⟩
    rw [keptAs_get? (by decide)]
    exact declaredAs_annotated htest hid hun
  | functionDeclaration =>
    rw [keptAs]
    split
    next htest =>
      refine ⟨fun hnot => ?_, fun _ => unannotatedParams_annotateWithAny n⟩
      rw [htest] at hnot
      cases hnot
    next htest => exact ⟨h, fun htest' => absurd htest' htest⟩
  | classProperty => exact ⟨trivial, propertyAs_variance n⟩
  | _ => exact ⟨h, trivial⟩

/-- No key of what has become of a node is there twice. -/
theorem keys_of_passed (henters : Enters True isOrderly o site n m mark)
    (hchildren : ChildrenWalked R site m c) (hleaves : Leaves o c n') :
    ((entriesOf n').map (·.1)).Nodup := by
  have hm : ((entriesOf m).map (·.1)).Nodup := by
    refine henters.keys_nodup (fun l horderly => ?_) trivial
    rw [isOrderly, Bool.and_eq_true, decide_eq_true_iff] at horderly
    exact horderly.1
  have hc : ((entriesOf c).map (·.1)).Nodup := by
    cases hchildren with
    | @intro l l' marked entries name =>
      have hl' : (l'.map (·.1)).Nodup := entries.keys_eq ▸ hm
      cases marked with
      | true => exact Entries.nodup_set hl' _
      | false => exact hl'
  cases hleaves with
  | free => exact hc
  | ruled _ left =>
    cases left with
    | program => exact hc
    | importing => exact keys_set hc _ _
    | function => exact keys_set hc _ _
    | withoutParams => exact hc
    | pattern =>
      rw [leaveAssignmentPattern]
      split
      · split
        · exact keys_set hc _ _
        · exact hc
      · exact hc

/-- A name with a default value has no marker. -/
theorem leaveAssignmentPattern_unmarked {left : Json}
    (hleft : (leaveAssignmentPattern c).get? "left" = some left)
    (hright : (leaveAssignmentPattern c).holds "right" = true)
    (hname : left.hasText "type" "Identifier" = true) : left.get? "optional" = none := by
  rw [Json.holds, leaveAssignmentPattern_get? (by decide), ← Json.holds] at hright
  rw [leaveAssignmentPattern] at hleft
  split at hleft
  next former hformer =>
    split at hleft
    next =>
      rw [Json.get?_set_self hformer] at hleft
      exact Option.some.inj hleft ▸ Json.get?_erase_self
    next hnot =>
      obtain rfl := Option.some.inj (hformer.symm.trans hleft)
      exact absurd (Bool.and_eq_true _ _ ▸ ⟨hright, hname⟩) hnot
  next hnone =>
    rw [hnone] at hleft
    cases hleft

/-- **What has become of a node is steady.** -/
theorem Steady.of_passed (h : Passed True isOrderly o R site n n' mark) : Steady o site n' := by
  obtain ⟨m, c, henters, hchildren, hleaves⟩ := h.passes
  have htype := hleaves.get?_eq (show "type" ∉ ["body", "params", "left"] by decide)
  have henter : enterRule? n'.kind = enterRule? m.kind := by
    rw [enterRule?_kind, plainKind_congr htype, hchildren.plainKind_eq, ← enterRule?_kind]
  refine ⟨keys_of_passed henters hchildren hleaves, fun rule hrule => ?_, fun rule hrule => ?_⟩
  · rw [henter] at hrule
    cases henters with
    | free ruleless =>
      rw [ruleless] at hrule
      cases hrule
    | kept rules keeps source accepts =>
      rw [keptAs_kind, rules] at hrule
      cases hrule
      obtain ⟨haccepts, halone⟩ := keptAs_leavesAlone (Json.everywhere_self source) rules accepts
      exact ⟨keeps, haccepts.of_passed hchildren hleaves, halone.of_passed hchildren hleaves⟩
    | replaced _ _ _ hreplaced =>
      rw [(hreplaced.written.inherit n).kind.1] at hrule
      cases hrule
  · rw [kind_congr htype] at hrule
    cases hleaves with
    | free ruleless =>
      rw [ruleless] at hrule
      cases hrule
    | ruled rules left =>
      rw [rules] at hrule
      cases hrule
      cases left with
      | program => trivial
      | importing => trivial
      | function field reordered =>
        intro params hparams
        obtain rfl := Json.arr.inj (Json.eq_of_get?_set_self hparams)
        exact reorderParams_again _ _ reordered
      | withoutParams field => exact fun params hparams => absurd hparams (field params)
      | pattern =>
        exact fun left hleft => leaveAssignmentPattern_unmarked hleft

/-! ## Steady throughout -/

/-- Whether a node is steady is not seen at a marker. -/
theorem Steady.erase (h : Steady o site n) : Steady o site (n.erase "optional") := by
  have hget (key : String) (hkey : key ≠ "optional") :
      (n.erase "optional").get? key = n.get? key := Json.get?_erase_ne hkey
  have htype := hget "type" (by decide)
  have hparams := hget "params" (by decide)
  have himport := hget "importKind" (by decide)
  have haccepts (rule : EnterRule) :
      Accepts o site (n.erase "optional") rule ↔ Accepts o site n rule := by
    cases rule <;> simp only [Accepts, importKindKnown, Placed, unannotatedParams, Json.itemsAt,
      Json.hasText, Site.isInside, isCreateReactClassCall, htype, hparams, himport,
      hget "callee" (by decide)]
  have halone (rule : EnterRule) :
      LeavesAlone o site (n.erase "optional") rule ↔ LeavesAlone o site n rule := by
    cases rule <;> simp only [LeavesAlone, Json.hasText, Json.itemsAt, unannotatedParams,
      Location.objectAt?, hparams, himport, hget "specifiers" (by decide),
      hget "exportKind" (by decide), hget "id" (by decide), hget "init" (by decide),
      hget "variance" (by decide)]
  have hrest (rule : LeaveRule) : AtRest (n.erase "optional") rule ↔ AtRest n rule := by
    cases rule <;> simp only [AtRest, Json.holds, hparams, hget "left" (by decide),
      hget "right" (by decide)]
  refine ⟨keys_erase h.keys _, fun rule hrule => ?_, fun rule hrule => ?_⟩
  · rw [haccepts, halone]
    exact h.enter rule (kind_congr htype ▸ hrule)
  · rw [hrest]
    exact h.leave rule (kind_congr htype ▸ hrule)

/-- A node that no rule changes stays so while the walk goes on around it. -/
theorem stable_steady : Stable True (Steady o) where
  ruleless _ kind keys := by
    refine ⟨keys trivial, fun rule hrule => ?_, fun rule hrule => ?_⟩
    · rw [kind.1] at hrule
      cases hrule
    · rw [kind.2] at hrule
      cases hrule
  keys h _ := h.keys
  erase h := h.erase
  pattern {site n left} h kind unmarked := by
    have htype : (n.set "left" left).get? "type" = some (.str "AssignmentPattern") :=
      (Json.get?_set_ne (by decide) left).trans (get?_of_hasText kind)
    refine ⟨keys_set h.keys _ _, fun rule hrule => ?_, fun rule hrule => ?_⟩
    · rw [kind_of_kind htype] at hrule
      cases hrule
    · rw [kind_of_kind htype] at hrule
      obtain rfl : .assignmentPattern = rule := Option.some.inj hrule
      exact fun left' hleft' _ _ => Json.eq_of_get?_set_self hleft' ▸ unmarked
  agrees {s s' n} h agrees := by
    have haccepts (rule : EnterRule) : Accepts o s' n rule ↔ Accepts o s n rule := by
      cases rule <;> simp only [Accepts, Site.isInside, agrees.inside]
    have halone (rule : EnterRule) : LeavesAlone o s' n rule ↔ LeavesAlone o s n rule := by
      cases rule <;> simp only [LeavesAlone, agrees.declares o]
    refine ⟨h.keys, fun rule hrule => ?_, h.leave⟩
    rw [haccepts, halone]
    exact h.enter rule hrule

/-- The import that the rewrite adds is one it leaves alone. -/
theorem helperImport_steady (o : FileOptions) (site : Site) : Steady o site (helperImport o) := by
  have hkind : (helperImport o).kind = "ImportDeclaration" := kind_of_kind (get?_type_node _ _)
  refine ⟨?_, fun rule hrule => ?_, fun rule hrule => ?_⟩
  · change ["type", "importKind", "specifiers", "source"].Nodup
    decide
  · rw [hkind] at hrule
    obtain rfl : .importDeclaration = rule := Option.some.inj hrule
    refine ⟨rfl, rfl, rfl, fun _ => List.forall_mem_singleton.2 rfl⟩
  · rw [hkind] at hrule
    cases hrule

/-- **No rule changes or refuses any node of a rewritten tree.** -/
theorem rewriteTree_steady {tree rewritten : Json} {progress : Progress}
    (hroot : tree.kind ∈ rootKinds) (horderly : tree.everywhere isOrderly = true)
    (h : rewriteTree o tree = (.ok rewritten, progress)) :
    Throughout (Steady o) .root rewritten := by
  have hkeys (l : Entries) (hl : isOrderly (.obj l) = true) : (l.map (·.1)).Nodup := by
    rw [isOrderly, Bool.and_eq_true, decide_eq_true_iff] at hl
    exact hl.1
  obtain ⟨mark, hmark⟩ := rewriteTree_passes (D := True) (p := isOrderly) (fun _ => hkeys)
    (fun site n n' mark hn hpassed => Passed.throughout stable_steady
      (helperImport_steady o) hn hpassed (.of_passed hpassed)) hroot horderly h
  exact hmark

/-! ## Steps that succeed -/

/-- A step succeeds where no helper is used, and uses none. -/
def Rewrite.Succeeds {α : Type} (x : Rewrite α) (P : α → Prop) : Prop :=
  ∀ p : Progress, p.usesHelper = false →
    ∃ a, ∃ p' : Progress, x.run.run p = (.ok a, p') ∧ p'.usesHelper = false ∧ P a

namespace Rewrite.Succeeds

variable {α β : Type} {P Q : α → Prop}

/-- A value returned is a success, and nothing uses the helper. -/
theorem pure {a : α} (h : P a) : Rewrite.Succeeds (Pure.pure a) P :=
  fun p hp => ⟨a, p, rfl, hp, h⟩

/-- A weaker property succeeds too. -/
theorem mono {x : Rewrite α} (h : x.Succeeds P) (hPQ : ∀ a, P a → Q a) : x.Succeeds Q := by
  intro p hp
  obtain ⟨a, p', hrun, hp', ha⟩ := h p hp
  exact ⟨a, p', hrun, hp', hPQ a ha⟩

/-- Steps that succeed one after the other succeed together. -/
theorem bind {x : Rewrite α} {f : α → Rewrite β} {Q : β → Prop}
    (h : x.Succeeds fun a => (f a).Succeeds Q) : Rewrite.Succeeds (x >>= f) Q := by
  intro p hp
  obtain ⟨a, p', hrun, hp', ha⟩ := h p hp
  obtain ⟨b, p'', hrun', hp'', hb⟩ := ha p' hp'
  refine ⟨b, p'', ?_, hp'', hb⟩
  simp only [ExceptT.run_bind, StateT.run_bind, hrun]
  exact hrun'

/-- What a step that succeeds yields. -/
theorem and_yields {x : Rewrite α} (h : x.Succeeds P) (hyields : x.Yields Q) : x.Succeeds Q := by
  intro p hp
  obtain ⟨a, p', hrun, hp', -⟩ := h p hp
  exact ⟨a, p', hrun, hp', hyields p a p' hrun⟩

/-- The progress read says that nothing uses the helper yet. -/
theorem get : Rewrite.Succeeds (MonadState.get : Rewrite Progress) fun p => p.usesHelper = false :=
  fun p hp => ⟨p, p, rfl, hp, hp⟩

/-- A change of the progress that leaves the helper alone succeeds. -/
theorem modifies {f : Progress → Progress} (h : ∀ p, (f p).usesHelper = p.usesHelper) :
    Rewrite.Succeeds (modify f : Rewrite Unit) fun _ => True :=
  fun p hp => ⟨(), f p, rfl, (h p).trans hp, trivial⟩

/-- A recorded step with a value succeeds. -/
theorem ofRecorded {x : Recorded α} {a : α} (hresult : x.result = .ok a) :
    Rewrite.Succeeds (Rewrite.ofRecorded x) fun _ => True := by
  refine .bind (.mono (modifies ?_) fun _ _ => ?_)
  · exact fun _ => rfl
  · rw [hresult]
    exact .pure trivial

/-- A choice between two steps that succeed succeeds. -/
theorem ite {c : Prop} [Decidable c] {x y : Rewrite α} (hx : c → x.Succeeds P)
    (hy : ¬c → y.Succeeds P) : Rewrite.Succeeds (if c then x else y) P := by
  split <;> rename_i h
  · exact hx h
  · exact hy h

/-- A step that succeeds for each item succeeds for the list. -/
theorem forM {γ : Type} {f : γ → Rewrite Unit} {xs : List γ}
    (h : ∀ x ∈ xs, (f x).Succeeds fun _ => True) : (xs.forM f).Succeeds fun _ => True := by
  induction xs with
  | nil => exact .pure trivial
  | cons x xs ih =>
    rw [List.forall_mem_cons] at h
    exact .bind (h.1.mono fun _ _ => ih h.2)

end Rewrite.Succeeds

/-! ## A second walk -/

/-- Without a checker no parameter is asked about. -/
theorem awaitTypes_succeeds (hinfers : o.infers = false) (h : Placed o n) :
    (awaitTypes o n).Succeeds fun _ => True := by
  refine .bind ((Rewrite.Succeeds.forM fun param hparam => ?_).mono fun _ _ => .pure trivial)
  obtain ⟨l, hl⟩ := h param hparam
  rw [awaitType, if_neg (by rw [hinfers]; exact Bool.false_ne_true)]
  refine .ofRecorded (a := ()) ?_
  have hlocation : Location.ofNodeOrRefuse o.types.path param = .ok l := hl
  rw [notePlace, hlocation]
  rfl

/-- **A rule leaves a steady node.** -/
theorem applyEnter_steady (hinfers : o.infers = false) (place : Place)
    (hkeeps : rule.keepsPlace = true) (haccepts : Accepts o (siteAt place n) n rule)
    (halone : LeavesAlone o (siteAt place n) n rule) :
    (applyEnter o place n rule).Succeeds fun visit => visit = Visit.keep n := by
  have hyields := applyEnter_yields o place n hkeeps
  rw [halone.keptAs_eq] at hyields
  refine Rewrite.Succeeds.and_yields (P := fun _ => True) ?_ (hyields.mono fun _ h => h.1)
  cases rule with
  | importDeclaration =>
    change (enterImport o n).Succeeds _
    rw [enterImport]
    refine .ite (fun _ => .pure trivial) fun htype => .ite (fun _ => .pure trivial) fun htypeof =>
      .ite (fun _ => ?_) fun hnot => ?_
    · split <;> exact .pure trivial
    · rw [Accepts, importKindKnown] at haccepts
      simp only [htype, htypeof, Bool.false_or] at haccepts
      exact absurd haccepts hnot
  | exportNamed => exact .pure trivial
  | declarator =>
    change (enterDeclarator o place n).Succeeds _
    rw [enterDeclarator]
    refine .ite (fun _ => ?_) fun _ => .pure trivial
    split
    · refine .ite (fun _ => ?_) fun _ => .pure trivial
      split <;> exact .pure trivial
    · exact .pure trivial
  | functionDeclaration =>
    exact .ite (fun _ => .pure trivial) fun htest =>
      awaitTypes_succeeds hinfers (haccepts (Bool.eq_false_iff.2 htest) hinfers)
  | classMethod => exact awaitTypes_succeeds hinfers (haccepts hinfers)
  | objectMethod =>
    refine .ite (fun hinside => ?_) fun _ => .pure trivial
    rw [insideCreateReactClass_eq] at hinside
    exact awaitTypes_succeeds hinfers (haccepts hinside hinfers)
  | classProperty =>
    have hnone : Location.objectAt? n "variance" = none := halone
    change (enterClassProperty o n).Succeeds _
    rw [enterClassProperty, hnone]
    exact .pure trivial
  | markup =>
    refine .bind (.mono (.modifies ?_) fun _ _ => .pure trivial)
    exact fun _ => rfl
  | _ => cases hkeeps

/-- Entering a steady node keeps it as it is. -/
theorem enter_steady (hinfers : o.infers = false) {place : Place}
    (h : Steady o (siteAt place n) n) :
    ((rewriter o).enter place n).Succeeds fun visit => visit = Visit.keep n := by
  rw [rewriter]
  dsimp only
  split
  next rule hrule =>
    obtain ⟨hkeeps, haccepts, halone⟩ := h.enter rule hrule
    exact applyEnter_steady hinfers place hkeeps haccepts halone
  next => exact .pure rfl

/-- So does leaving it. -/
theorem leave_steady {place : Place} (h : Steady o site n) :
    ((rewriter o).leave place n).Succeeds fun left => left = n := by
  rw [rewriter]
  dsimp only
  split
  next rule hrule =>
    have hrest := h.leave rule hrule
    cases rule with
    | program =>
      refine .bind (Rewrite.Succeeds.get.mono fun p hp => ?_)
      rw [hp]
      exact .pure rfl
    | function =>
      change (leaveFunction n).Succeeds _
      rw [leaveFunction]
      split
      next params hparams =>
        rw [hrest params hparams]
        exact .bind (.pure (.pure (Json.set_of_get? hparams)))
      next => exact .pure rfl
    | assignmentPattern =>
      refine .pure ?_
      rw [leaveAssignmentPattern]
      split
      next left hleft =>
        split
        next hname =>
          rw [Bool.and_eq_true] at hname
          rw [Json.erase_of_get?_none (hrest left hleft hname.1 hname.2)]
          exact Json.set_of_get? hleft
        next => rfl
      next => rfl
  next => exact .pure rfl

section
variable {visit : Place → Json → Rewrite (Walked Json)} {k : Nat}
  (hvisit : ∀ place n, Throughout (Steady o) (siteAt place n) n → n.nesting ≤ k →
    (visit place n).Succeeds fun w => w = Walked.same n)

include hvisit in
/-- The walk over steady items succeeds and changes none. -/
theorem walkItems_steady {frame : List Json → List Json → Frame} {up : Place} {items : List Json}
    (hframe : ∀ left item right, left ++ item :: right = items →
      siteAt (frame left right :: up) item = site)
    (hsteady : ∀ item ∈ items, ThroughoutItem (Steady o) site item)
    (hk : ∀ item ∈ items, item.nesting ≤ k) : ∀ before rest, before ++ rest = items →
      (Syntax.walkItems visit frame up (Walked.same before) rest).Succeeds
        fun w => w = Walked.same items := by
  intro before rest
  induction rest generalizing before with
  | nil =>
    rintro rfl
    rw [List.append_nil]
    exact .pure rfl
  | cons item rest ih =>
    intro hsplit
    have hmem : item ∈ items := hsplit ▸ List.mem_append_right _ List.mem_cons_self
    have next : (Syntax.walkItems visit frame up ((Walked.same before).snoc (Walked.same item))
        rest).Succeeds fun w => w = Walked.same items := by
      have hsnoc : (Walked.same before).snoc (Walked.same item) = Walked.same (before ++ [item]) :=
        rfl
      rw [hsnoc]
      exact ih (before ++ [item]) (by simpa using hsplit)
    rw [Syntax.walkItems]
    refine .ite (fun hn => .bind (.mono (hvisit _ _ ?_ (hk item hmem)) ?_)) fun _ =>
      .bind (.pure next)
    · have hsite : siteAt (frame (Walked.same before).present rest :: up) item = site :=
        hframe before item rest hsplit
      rw [hsite]
      exact hsteady item hmem hn
    · rintro _ rfl
      exact next

include hvisit in
/-- So does the walk over an entry whose value is steady. -/
theorem walkEntry_steady {place : Place} {before after : Entries} {key : String}
    (hn : n = .obj (before ++ (key, v) :: after))
    (hsteady : ThroughoutValue (Steady o) ((siteAt place n).below n) v) (hk : v.nesting ≤ k) :
    (Syntax.walkEntry visit place before key after v).Succeeds fun w => w = Walked.same v := by
  have hsite (f : Frame) (child : Json) (hfill : f.fill child = n) :
      siteAt (f :: place) child = (siteAt place n).below n := by rw [siteAt, hfill]
  have single : (if v.isNode then visit (⟨before, key, none, after⟩ :: place) v
      else pure (Walked.same v)).Succeeds fun w => w = Walked.same v := by
    refine .ite (fun hnode => hvisit _ _ ?_ hk) fun _ => .pure rfl
    rw [hsite ⟨before, key, none, after⟩ v hn.symm]
    exact hsteady.node hnode
  cases v with
  | arr items =>
    rw [Syntax.walkEntry]
    refine .bind (.mono (walkItems_steady hvisit ?_ (throughoutValue_arr_iff.1 hsteady)
      (Json.nestingItems_le_iff.1 hk) [] items rfl) ?_)
    · rintro left item right rfl
      exact hsite _ _ hn.symm
    · rintro _ rfl
      exact .pure rfl
  | _ => exact single

include hvisit in
/-- So does the walk over all entries of a steady node. -/
theorem walkEntries_steady {place : Place} {l : Entries}
    (hsteady : Throughout (Steady o) (siteAt place (.obj l)) (.obj l))
    (hk : (Json.obj l).nesting ≤ k + 1) : ∀ before rest, before ++ rest = l →
      (Syntax.walkEntries visit place (Walked.same before) rest).Succeeds
        fun w => w = Walked.same l := by
  intro before rest
  induction rest generalizing before with
  | nil =>
    rintro rfl
    rw [List.append_nil]
    exact .pure rfl
  | cons entry rest ih =>
    obtain ⟨key, v⟩ := entry
    intro hsplit
    have hmem : (key, v) ∈ l := hsplit ▸ List.mem_append_right _ List.mem_cons_self
    have next : (Syntax.walkEntries visit place
        ((Walked.same before).snoc ((Walked.same v).under key)) rest).Succeeds
          fun w => w = Walked.same l := by
      have hsnoc : (Walked.same before).snoc ((Walked.same v).under key) =
          Walked.same (before ++ [(key, v)]) := rfl
      rw [hsnoc]
      exact ih (before ++ [(key, v)]) (by simpa using hsplit)
    rw [Syntax.walkEntries]
    refine .ite (fun _ => .bind (.pure next)) fun hwalk => ?_
    have hmeta : key ∉ Json.metadataKeys := by
      intro hmeta
      simp [hmeta] at hwalk
    have hlt : v.nesting < (Json.obj l).nesting := Json.nesting_lt_of_mem hmem
    have hvalue := hsteady.get? hmeta (Entries.get?_of_mem hsteady.self.keys hmem)
    refine .bind (.mono (walkEntry_steady hvisit (n := .obj l) (hsplit ▸ rfl) hvalue (by omega)) ?_)
    rintro _ rfl
    exact next

end

/-- **A walk over a tree that is steady throughout changes nothing.** -/
theorem walk_steady (hinfers : o.infers = false) (fuel : Nat) : ∀ (place : Place) (n : Json),
    Throughout (Steady o) (siteAt place n) n → n.nesting ≤ fuel →
      (Syntax.walk (rewriter o) fuel place n).Succeeds fun w => w = Walked.same n := by
  induction fuel with
  | zero => exact fun _ n _ _ => .pure rfl
  | succ fuel ih =>
    intro place n h hk
    obtain ⟨l, rfl⟩ := exists_obj_of_isObject (isObject_of_isNode h.isNode)
    have hchildren : (Syntax.walkChildren (Syntax.walk (rewriter o) fuel) place (.obj l)).Succeeds
        fun w => w = Walked.same (.obj l) := by
      refine .bind (.mono (walkEntries_steady ih h hk [] l rfl) ?_)
      rintro _ rfl
      exact .pure rfl
    rw [Syntax.walk]
    refine .bind (.mono (enter_steady hinfers h.self) ?_)
    rintro _ rfl
    refine .bind (.mono hchildren ?_)
    rintro _ rfl
    refine .bind (.mono (leave_steady h.self) ?_)
    rintro _ rfl
    exact .pure rfl

/-- **Rewriting a tree again changes nothing.** Let the root of a tree be a file
or a program, in which no specifier of a type import is marked as a type
itself, and let nobody be asked for types. If the tree is rewritten, then the
outcome is rewritten too, and to itself. -/
theorem rewriteTree_again {tree rewritten : Json} {progress : Progress}
    (hinfers : o.infers = false) (hroot : tree.kind ∈ rootKinds)
    (horderly : tree.everywhere isOrderly = true)
    (h : rewriteTree o tree = (.ok rewritten, progress)) :
    ∃ progress', rewriteTree o rewritten = (.ok rewritten, progress') := by
  have hsteady := rewriteTree_steady hroot horderly h
  have hle := Json.nesting_le_depth rewritten
  have hwalk := walk_steady hinfers (walkFuel rewritten) [] rewritten hsteady
    (by rw [walkFuel]; omega)
  have htree : (Syntax.walkTree (rewriter o) (walkFuel rewritten) rewritten).Succeeds
      fun again => again = rewritten := by
    refine .bind (.mono hwalk ?_)
    rintro _ rfl
    exact .pure rfl
  obtain ⟨again, progress', hrun, -, rfl⟩ := htree {} rfl
  exact ⟨progress', hrun⟩

/-- The helpers that a cast needs are imported once. -/
theorem rewriteTree_again_castingFile : ∃ rewritten p p',
    rewriteTree { path := "a.js" } castingFile = (.ok rewritten, p) ∧ p.usesHelper = true ∧
      rewriteTree { path := "a.js" } rewritten = (.ok rewritten, p') := by
  have hok : (rewriteTree { path := "a.js" } castingFile).1.toOption.isSome = true ∧
      (rewriteTree { path := "a.js" } castingFile).2.usesHelper = true := by
    decide +kernel
  match hrun : rewriteTree { path := "a.js" } castingFile with
  | (.error _, _) =>
    rw [hrun] at hok
    cases hok.1
  | (.ok rewritten, p) =>
    rw [hrun] at hok
    obtain ⟨p', hagain⟩ := rewriteTree_again rfl (by decide) (by decide) hrun
    exact ⟨rewritten, p, p', rfl, hok.2, hagain⟩

end Retype.Migration
