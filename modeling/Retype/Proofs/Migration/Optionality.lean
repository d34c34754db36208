import Retype.Proofs.Migration.Signatures
import Retype.Proofs.Migration.Undefined
/-!
# Parameters for which callers may pass `undefined`

A parameter admits `undefined` if it has a default value, is marked optional,
or is of a type that does. Three rules touch what it admits: an annotation may
give `void` away for a marker, its type is rewritten, and a marker before a
required parameter is given away for `undefined`. None of them takes anything
from the callers (`rewriteTree_keeps_admission`).
-/

namespace Retype.Migration

open TypeScript (annotationNode encode identifier node)

/-! ## What a parameter admits -/

/-- The annotation of a type, in Flow or in TypeScript. -/
def IsAnnotation (n : Json) : Prop :=
  n.hasText "type" "TypeAnnotation" = true ∨ n.hasText "type" "TSTypeAnnotation" = true

/-- The type of an annotation admits `undefined`. -/
inductive AnnotationAdmits (n : Json) : Prop
  | flow {t : Json} (kind : n.hasText "type" "TypeAnnotation" = true)
      (field : n.get? "typeAnnotation" = some t) (admits : FlowAdmits t)
  | typed {t : Json} (kind : n.hasText "type" "TSTypeAnnotation" = true)
      (field : n.get? "typeAnnotation" = some t) (admits : TsAdmits t)

/-- What a parameter binds: its left side if it has a default value. -/
def binding (param : Json) : Json :=
  if param.hasText "type" "AssignmentPattern" then (param.get? "left").getD .null else param

/-- A parameter has a type annotation. -/
def IsTyped (param : Json) : Prop :=
  ∃ a, (binding param).get? "typeAnnotation" = some a ∧ IsAnnotation a

/-- A caller may pass `undefined` for a parameter. -/
inductive ParamAdmits (param : Json) : Prop
  | defaulted (kind : param.hasText "type" "AssignmentPattern" = true)
  | marked (marker : param.holds "optional" = true)
  | typed {a : Json} (field : param.get? "typeAnnotation" = some a) (admits : AnnotationAdmits a)

/-- A parameter that admitted `undefined` still does. Names and patterns have
no rule on the way down; a node that has one is no parameter. -/
def KeepsAdmission (param param' : Json) : Prop :=
  enterRule? param.kind = none → IsTyped param → ParamAdmits param → ParamAdmits param'

theorem KeepsAdmission.refl (param : Json) : KeepsAdmission param param := fun _ _ h => h

example : ∀ kind ∈ ["Identifier", "ObjectPattern", "ArrayPattern", "AssignmentPattern",
    "RestElement"], enterRule? kind = none := by decide

/-! ## Reordering -/

/-- A type that must admit `undefined` does. -/
theorem admitUndefined_admits (type : Json) : Result.Yields (admitUndefined type) TsAdmits := by
  have hundefined : TsAdmits undefinedType := .word rfl
  rw [admitUndefined]
  refine .ite (fun hunion => .bind ((listField_yields type _).mono fun types htypes => ?_))
    fun _ => .pure ?_
  · have hitems : type.itemsAt "types" = types := by
      rw [Json.itemsAt, htypes]
      rfl
    refine .ite (fun hany => .pure ?_) fun _ => .pure ?_
    · obtain ⟨t, hmem, ht⟩ := List.any_eq_true.1 hany
      refine .union hunion (hitems ▸ hmem) (.word ?_)
      exact List.any_eq_true.2 ⟨_, List.mem_cons_self, ht⟩
    · refine .union (t := undefinedType) ?_ ?_ hundefined
      · exact (Json.hasText_congr (Json.get?_set_ne (by decide) _) _).trans hunion
      · rw [Json.itemsAt, Json.get?_set_self htypes]
        exact List.mem_append_right _ List.mem_cons_self
  · exact .union (t := undefinedType) rfl (List.mem_cons_of_mem _ List.mem_cons_self) hundefined

variable {param : Json}

/-- A name that loses its marker has a type that admits `undefined`. -/
theorem requireParam_admits {a : Json} (hname : param.hasText "type" "Identifier" = true)
    (hfield : param.get? "typeAnnotation" = some a)
    (hkind : a.hasText "type" "TSTypeAnnotation" = true) :
    Result.Yields (requireParam param) ParamAdmits := by
  have hfield' : (param.erase "optional").get? "typeAnnotation" = some a :=
    (Json.get?_erase_ne (by decide)).trans hfield
  rw [requireParam, if_pos hname, widenWithUndefined]
  simp only [hfield', hkind, if_true]
  refine .bind ((field_yields a _).mono fun inner hinner => ?_)
  refine .bind ((admitUndefined_admits inner).mono fun t ht => .pure ?_)
  refine .typed (Json.get?_set_self hfield') (.typed ?_ (Json.get?_set_self hinner) ht)
  exact (Json.hasText_congr (Json.get?_set_ne (by decide) _) _).trans hkind

/-- A parameter admits what it did before when the list is reordered. -/
theorem reorderParam_admits (trailing : Bool) (hadmits : ParamAdmits param)
    (htyped : param.hasText "type" "Identifier" = true → ∃ a, param.get? "typeAnnotation" = some a ∧
      a.hasText "type" "TSTypeAnnotation" = true) :
    Result.Yields (reorderParam param trailing) fun r => ParamAdmits r.1 := by
  rw [reorderParam]
  refine .ite (fun _ => .pure hadmits) fun _ => .ite (fun hdefault => ?_) fun _ =>
    .ite (fun hmarked => ?_) fun _ => .pure hadmits
  · have hkeeps (left : Json) : ParamAdmits (param.set "left" left) :=
      .defaulted ((Json.hasText_congr (Json.get?_set_ne (by decide) left) _).trans hdefault)
    split
    · cases trailing with
      | true => exact .pure (hkeeps _)
      | false => exact .bind (.trivial _ fun left => .pure (hkeeps left))
    · exact .error _
  · rw [Bool.and_eq_true] at hmarked
    obtain ⟨a, hfield, hkind⟩ := htyped hmarked.1
    exact .ite (fun _ => .pure hadmits) fun _ =>
      .bind ((requireParam_admits hmarked.1 hfield hkind).mono fun _ h => .pure h)

/-! ## The walk -/

/-- What a walk keeps of an annotation at a site: it becomes one in TypeScript,
and where its type admits `undefined` no more, the parameter is marked. -/
structure AnnotationKept (a a' : Json) (mark : Bool) : Prop where
  kind : a'.hasText "type" "TSTypeAnnotation" = true
  admits : AnnotationAdmits a → AnnotationAdmits a' ∨ mark = true

/-- What a walk keeps of a parameter, before the list is reordered. -/
structure ParamKept (param param' : Json) : Prop where
  kind (name : String) : param'.hasText "type" name = param.hasText "type" name
  marker : param.holds "optional" = true → param'.holds "optional" = true
  annotation {a : Json} (field : param.get? "typeAnnotation" = some a) (slot : IsAnnotation a) :
    ∃ a', param'.get? "typeAnnotation" = some a' ∧
      ∃ mark, AnnotationKept a a' mark ∧ (mark = true → param'.holds "optional" = true)

/-- What a walk keeps of a node, as far as its functions, its type and its
parameters go. -/
structure AdmissionKept (n n' : Json) (mark : Bool) : Prop where
  functions : Signed KeepsAdmission (signatures n) (signatures n')
  type : TsAdmits n → TsAdmits n'
  annotation : IsAnnotation n → AnnotationKept n n' mark
  param : enterRule? n.kind = none → ParamKept n n'

section
variable {D : Prop} {p : Json → Bool} {o : FileOptions} {site : Site} {n n' m c v v' : Json}
  {mark : Bool} {marked : Prop} {key : String}

/-- A node that was walked. -/
theorem ItemWalked.walked_of_isNode {R : Site → Json → Json → Bool → Prop}
    (h : ItemWalked R site marked v v') (hv : v.isNode = true) :
    ∃ mark, R site v v' mark ∧ (mark = true → marked) := by
  cases h with
  | leaf hleaf =>
    rw [hv] at hleaf
    cases hleaf
  | node _ walked _ marks => exact ⟨_, walked, marks⟩

/-- A node under a key was walked; if it gives a marker, the node above has it. -/
theorem ChildrenWalked.walked_of_get? {R : Site → Json → Json → Bool → Prop}
    (h : ChildrenWalked R site m c) (hkey : key ∉ "optional" :: Json.metadataKeys)
    (hget : m.get? key = some v) (hv : v.isNode = true) : ∃ v', c.get? key = some v' ∧
      ∃ mark, R (site.below m) v v' mark ∧ (mark = true → c.holds "optional" = true) := by
  obtain ⟨hmarker, hmeta⟩ := not_or.1 (List.mem_cons.not.1 hkey)
  cases h with
  | @intro l l' marked entries name =>
    have hrel := entries.get? key
    rw [← get?_setAll_markers marked l' hmarker] at hrel
    rw [Json.get?] at hget
    rw [hget] at hrel
    change ∃ v', (Entries.setAll l' (markers marked)).get? key = some v' ∧ _
    generalize (Entries.setAll l' (markers marked)).get? key = b at hrel
    cases hrel with
    | @some _ v' hentry =>
      cases hentry with
      | skipped hskip => exact absurd hskip (by simp [hmarker, hmeta])
      | walked _ value =>
        cases value with
        | single _ item =>
          obtain ⟨mark, hwalked, hmarked⟩ := item.walked_of_isNode hv
          refine ⟨v', rfl, mark, hwalked, fun hmark => ?_⟩
          have hmarker : (Json.obj (Entries.setAll l' (markers marked))).get? "optional" =
              some (.bool true) := by
            rw [hmarked hmark]
            exact Entries.get?_set_self l' "optional" _
          rw [Json.holds, hmarker]
          rfl
        | arr => cases hv

/-- A node of a kind without rules is what has become of its children. -/
theorem Passed.of_ruleless {R : Site → Json → Json → Bool → Prop}
    (h : Passed D p o R site n n' mark) (hrule : Ruleless n.kind) : ChildrenWalked R site n n' := by
  obtain ⟨m, c, henters, hchildren, hleaves⟩ := h.passes
  obtain ⟨rfl, -⟩ := henters.eq_of_ruleless hrule.1
  have hleave : leaveRule? c.kind = none := by
    rw [leaveRule?_kind, hchildren.plainKind_eq, ← leaveRule?_kind]
    exact hrule.2
  exact hleaves.eq_of_ruleless hleave ▸ hchildren

theorem ruleless_of_kindIn {kinds : List String} (h : n.kindIn kinds = true)
    (hkinds : ∀ kind ∈ kinds, Ruleless kind) : Ruleless n.kind := by
  obtain ⟨kind, hmem, htext⟩ := List.any_eq_true.1 h
  exact kind_of_kind (get?_of_hasText htext) ▸ hkinds kind hmem

theorem TsAdmits.isNode (h : TsAdmits n) : n.isNode = true := by
  cases h with
  | word kind =>
    obtain ⟨name, -, htext⟩ := List.any_eq_true.1 kind
    exact isNode_of_hasText htext
  | union kind => exact isNode_of_hasText kind
  | parenthesized kind => exact isNode_of_hasText kind

variable (hpassed : Passed D p o (fun _ n n' mark => AdmissionKept n n' mark) site n n' mark)

include hpassed

/-- A type that admits `undefined` still does: none of its nodes has a rule. -/
theorem Passed.type_admits (h : TsAdmits n) : TsAdmits n' := by
  cases h with
  | word kind =>
    have hchildren := hpassed.of_ruleless (ruleless_of_kindIn kind (by decide))
    refine .word (List.any_eq_true.2 ?_)
    obtain ⟨name, hname, htext⟩ := List.any_eq_true.1 kind
    exact ⟨name, hname, (hchildren.hasText_eq (by decide) _).trans htext⟩
  | @union _ t kind member admits =>
    have hchildren := hpassed.of_ruleless (kind_of_kind (get?_of_hasText kind) ▸ by decide)
    have hitems := hchildren.itemsAt_rel (show "types" ∉ "optional" :: Json.metadataKeys by decide)
    obtain ⟨t', hmem, hitem⟩ := Entries.exists_of_forall₂ (List.Forall₂.flip hitems) member
    obtain ⟨mark, hkept, -⟩ := hitem.walked_of_isNode admits.isNode
    exact .union ((hchildren.hasText_eq (by decide) _).trans kind) hmem (hkept.type admits)
  | @parenthesized _ t kind field admits =>
    have hchildren := hpassed.of_ruleless (kind_of_kind (get?_of_hasText kind) ▸ by decide)
    obtain ⟨t', hfield, mark, hkept, -⟩ := hchildren.walked_of_get? (by decide) field admits.isNode
    exact .parenthesized ((hchildren.hasText_eq (by decide) _).trans kind)
      hfield (hkept.type admits)

/-- What has become of an annotation of Flow: its type was rewritten, or that
which makes the parameter optional. -/
theorem Passed.flow_annotation_kept (hkind : n.hasText "type" "TypeAnnotation" = true) :
    AnnotationKept n n' mark := by
  have hrule : enterRule? n.kind = some .annotated := by
    rw [kind_of_kind (get?_of_hasText hkind)]
    rfl
  obtain ⟨m, c, henters, hchildren, hleaves⟩ := hpassed.passes
  cases henters with
  | free hnone =>
    rw [hnone] at hrule
    cases hrule
  | kept rules keeps =>
    obtain rfl := Option.some.inj (hrule.symm.trans rules)
    cases keeps
  | replaced rules gives source hreplaced =>
    obtain rfl := Option.some.inj (hrule.symm.trans rules)
    have hreplaces := hreplaced.replaces
    cases hreplaces with
    | @annotated type optional t u field param read rewritten =>
      have htype : (Json.inherit n (annotationNode (encode u))).get? "type" =
          some (.str "TSTypeAnnotation") :=
        (Json.get?_type_inherit n _).trans (get?_type_node _ _)
      have hkind' : c.hasText "type" "TSTypeAnnotation" = true :=
        (hchildren.hasText_eq (by decide) _).trans (by rw [hasText_of_kind htype]; rfl)
      obtain rfl := hleaves.eq_of_ruleless (kind_of_kind (get?_of_hasText hkind') ▸ by decide)
      refine ⟨hkind', fun hadmits => ?_⟩
      cases optional with
      | some _ => exact .inr rfl
      | none =>
        -- the type is the one that was read
        cases hadmits with
        | typed hother =>
          rw [hasText_of_kind (get?_of_hasText hkind)] at hother
          exact absurd hother (by decide)
        | flow _ field' hadmits =>
          obtain rfl := Option.some.inj (field.symm.trans field')
          have hadmits' := encode_admits
            (migrate_admits o.types (decodeType_admits o.path hadmits t read) u rewritten)
          have hget : (Json.inherit n (annotationNode (encode u))).get? "typeAnnotation" =
              some (encode u) := Json.get?_inherit_ne (by decide)
          obtain ⟨v', hfield, mark, hkept, -⟩ :=
            hchildren.walked_of_get? (by decide) hget hadmits'.isNode
          exact .inl (.typed hkind' hfield (hkept.type hadmits'))
    | part hpart => exact absurd hpart (by simp [partKinds])

/-- An annotation of TypeScript has no rule. -/
theorem Passed.typed_annotation_kept (hkind : n.hasText "type" "TSTypeAnnotation" = true) :
    AnnotationKept n n' mark := by
  have hchildren := hpassed.of_ruleless (kind_of_kind (get?_of_hasText hkind) ▸ by decide)
  have hkind' := (hchildren.hasText_eq (by decide) _).trans hkind
  refine ⟨hkind', fun hadmits => .inl ?_⟩
  cases hadmits with
  | flow hother =>
    rw [hasText_of_kind (get?_of_hasText hkind)] at hother
    exact absurd hother (by decide)
  | typed _ field admits =>
    obtain ⟨v', hv', mark, hkept, -⟩ :=
      hchildren.walked_of_get? (by decide) field admits.isNode
    exact .typed hkind' hv' (hkept.type admits)

/-- What has become of a parameter, before the list is reordered. -/
theorem Passed.param_kept (hrule : enterRule? n.kind = none) : ParamKept n n' := by
  obtain ⟨m, c, henters, hchildren, hleaves⟩ := hpassed.passes
  obtain ⟨rfl, -⟩ := henters.eq_of_ruleless hrule
  have hholds : n'.holds "optional" = c.holds "optional" := by
    rw [Json.holds, Json.holds, hleaves.get?_eq (by decide)]
  refine ⟨fun name => ?_, fun hmarker => hholds.trans ?_, fun {a} hfield hslot => ?_⟩
  · rw [← hchildren.hasText_eq (by decide)]
    exact Json.hasText_congr (hleaves.get?_eq (by decide)) name
  · rw [Json.holds] at hmarker ⊢
    rcases hchildren.get?_optional with hgiven | hrel
    · rw [hgiven]
      rfl
    · generalize m.get? "optional" = x, c.get? "optional" = y at hmarker hrel
      cases hrel with
      | none => exact hmarker
      | some hentry => exact hentry.looks.isTrue_eq.trans hmarker
  · have hnode : a.isNode = true := hslot.elim isNode_of_hasText isNode_of_hasText
    obtain ⟨a', hfield', mark, hkept, hmarked⟩ :=
      hchildren.walked_of_get? (by decide) hfield hnode
    refine ⟨a', (hleaves.get?_eq (by decide)).trans hfield', mark, hkept.annotation hslot, ?_⟩
    exact fun hmark => hholds.trans (hmarked hmark)

end

/-! ## The functions of a node -/

section
variable {D : Prop} {p : Json → Bool} {o : FileOptions} {site : Site} {n m c n' param param' : Json}
  {mark : Bool} {marked : Prop}

theorem inner_of_typeLevel (h : n.plainKind ∈ typeLevelKinds) : inner n = [] := by
  rw [inner_eq, if_pos h]

theorem rules_plainKind {rule : EnterRule} (h : enterRule? n.kind = some rule) :
    (n.plainKind, rule) ∈ enterRules :=
  mem_of_enterRule ((enterRule?_kind n).symm.trans h)

/-- The functions inside a node are the same once it has been entered. -/
theorem Enters.inner_eq (h : Enters D p o site n m mark) : inner m = inner n := by
  cases h with
  | free => rfl
  | kept => exact inner_keptAs
  | @replaced rule new _ _ rules _ _ hreplaced =>
    rw [inner_inherit]
    have hmem := rules_plainKind rules
    have hreplaces := hreplaced.replaces
    cases hreplaces with
    | @annotated _ _ _ u =>
      have hall : ∀ entry ∈ enterRules, entry.2 = .annotated → entry.1 ∈ typeLevelKinds := by decide
      have hkind : (annotationNode (encode u)).plainKind = "TSTypeAnnotation" := rfl
      rw [inner_of_typeLevel (hall _ hmem rfl), inner_of_typeLevel (hkind ▸ by decide)]
    | @part _ kind _ hpart htype =>
      have hall : ∀ entry ∈ enterRules, entry.2 ∈ partKinds.map (·.1) →
          entry.1 ∈ typeLevelKinds := by decide
      have hkinds : ∀ kind ∈ partKinds.map (·.2), kind ∈ typeLevelKinds := by decide
      rw [inner_of_typeLevel (hall _ hmem (List.mem_map_of_mem hpart)), inner_of_typeLevel]
      rw [plainKind_of_type htype]
      exact hkinds _ (List.mem_map_of_mem hpart)
    | @cast expression _ hof has =>
      have hcast : ∀ entry ∈ enterRules, entry.2 = .typeCast → entry.1 = "TypeCastExpression" := by
        decide
      have hkind : n.plainKind = "TypeCastExpression" := hcast _ hmem rfl
      have hobject : n.isObject = true := by
        cases hof with
        | once field | twice field =>
          obtain ⟨l, rfl⟩ := Json.exists_obj_of_get? field
          rfl
      -- neither the cast nor what it becomes is a function
      have hn : signatures n = inner n := by
        rw [signatures_eq hobject, ownSignatures, hkind, if_neg (by decide), List.nil_append]
      have hnew : signatures new = inner new := by
        cases has <;> rfl
      rw [← hn, ← hnew, has.signatures_eq, hof.signatures_eq hkind]

/-! ## The parameters of a function -/

/-- Names and patterns of one list that are the same as in another, apart from
those without an annotation. -/
def SameAnnotated : List Json → List Json → Prop :=
  List.Forall₂ fun param param' => param' = param ∨ ¬IsTyped param

theorem not_isTyped (h : isUnannotated param = true) : ¬IsTyped param := by
  rw [isUnannotated, Bool.and_eq_true, Bool.not_eq_true'] at h
  rintro ⟨a, hfield, hslot⟩
  have hbinding : binding param = param := by
    rw [binding, hasText_of_kind (get?_of_hasText h.1)]
    rfl
  rw [hbinding] at hfield
  obtain ⟨l, rfl⟩ : ∃ l, a = .obj l := exists_obj_of_isObject
    (isObject_of_isNode (hslot.elim isNode_of_hasText isNode_of_hasText))
  have hholds := h.2
  rw [Json.holds, hfield] at hholds
  rcases hslot with hkind | hkind <;>
    exact absurd (Json.isTrue_of_get? (get?_of_hasText hkind)) (by simp [hholds])

/-- A parameter on the way down: a name without an annotation may get one. -/
def EntersParam (param param' : Json) : Prop :=
  param' = param ∨ isUnannotated param = true ∧ param' = param.set "typeAnnotation" anyAnnotation

/-- A function keeps its place and its parameters. -/
theorem Enters.params (h : Enters D p o site n m mark) (hkind : n.plainKind ∈ functionKinds) :
    m.plainKind = n.plainKind ∧
      List.Forall₂ EntersParam (n.itemsAt "params") (m.itemsAt "params") := by
  have hsame (n : Json) : List.Forall₂ EntersParam (n.itemsAt "params") (n.itemsAt "params") :=
    List.forall₂_same.2 fun _ _ => .inl rfl
  have hrules : ∀ entry ∈ enterRules, entry.1 ∈ functionKinds →
      entry.2 ∈ [.functionDeclaration, .classMethod, .objectMethod] := by decide
  cases h with
  | free => exact ⟨rfl, hsame n⟩
  | @kept rule rules =>
    refine ⟨plainKind_congr (keptAs_get? (by decide)), ?_⟩
    have hrule := hrules _ (rules_plainKind rules) hkind
    simp only [List.mem_cons, List.not_mem_nil, or_false] at hrule
    rcases hrule with rfl | rfl | rfl
    · rw [keptAs]
      split
      · rw [annotateWithAny]
        split
        next params hget =>
          rw [Json.itemsAt, Json.itemsAt, Json.get?_set_self hget, hget]
          refine List.forall₂_map_right_iff.2 (List.forall₂_same.2 fun param _ => ?_)
          split
          next hun => exact .inr ⟨hun, rfl⟩
          next => exact .inl rfl
        next => exact hsame n
      · exact hsame n
    · exact hsame n
    · exact hsame n
  | @replaced rule _ _ _ rules gives =>
    have hrule := hrules _ (rules_plainKind rules) hkind
    have hkeeps : ∀ rule ∈ [EnterRule.functionDeclaration, .classMethod, .objectMethod],
        rule.keepsPlace = true := by decide
    rw [hkeeps rule hrule] at gives
    cases gives

/-- The parameters of a function keep their annotations. -/
theorem Enters.function (h : Enters D p o site n m mark) (hkind : n.plainKind ∈ functionKinds) :
    m.plainKind = n.plainKind ∧ SameAnnotated (n.itemsAt "params") (m.itemsAt "params") :=
  (h.params hkind).imp_right fun hparams =>
    hparams.imp fun _ _ hparam => hparam.imp_right fun hun => not_isTyped hun.1

/-- What is known of a parameter when its list is reordered. -/
structure Ready (param param' : Json) : Prop where
  admits : ParamAdmits param → ParamAdmits param'
  typed : param'.hasText "type" "Identifier" = true →
    ∃ a, param'.get? "typeAnnotation" = some a ∧ a.hasText "type" "TSTypeAnnotation" = true

theorem ItemWalked.ready (h : ItemWalked (fun _ n n' mark => AdmissionKept n n' mark) site marked
    param param') (hrule : enterRule? param.kind = none) (hannotated : IsTyped param) :
    Ready param param' := by
  cases h with
  | leaf hleaf =>
    refine ⟨id, fun hname => ?_⟩
    rw [isNode_of_hasText hname] at hleaf
    cases hleaf
  | node _ walked _ _ =>
    have hkept := walked.param hrule
    refine ⟨fun hadmits => ?_, fun hname => ?_⟩
    · cases hadmits with
      | defaulted hkind => exact .defaulted ((hkept.kind _).trans hkind)
      | marked hmarker => exact .marked (hkept.marker hmarker)
      | @typed a hfield hadmits =>
        have hslot : IsAnnotation a := by
          cases hadmits with
          | flow hkind => exact .inl hkind
          | typed hkind => exact .inr hkind
        obtain ⟨a', hfield', mark, hkept', hmarked⟩ := hkept.annotation hfield hslot
        rcases hkept'.admits hadmits with hadmits' | hmark
        · exact .typed hfield' hadmits'
        · exact .marked (hmarked hmark)
    · -- a name has the annotation itself
      obtain ⟨a, hfield, hslot⟩ := hannotated
      rw [hkept.kind] at hname
      have hbinding : binding param = param := by
        rw [binding, hasText_of_kind (get?_of_hasText hname)]
        rfl
      rw [hbinding] at hfield
      obtain ⟨a', hfield', mark, hkept', -⟩ := hkept.annotation hfield hslot
      exact ⟨a', hfield', hkept'.kind⟩

/-- A parameter admits what it did when the list has been reordered. -/
def Reorders (param param' : Json) : Prop :=
  ParamAdmits param → (param.hasText "type" "Identifier" = true →
    ∃ a, param.get? "typeAnnotation" = some a ∧ a.hasText "type" "TSTypeAnnotation" = true) →
  ParamAdmits param'

theorem reorderParams_reorders (params : List Json) :
    Result.Yields (reorderParams params) (List.Forall₂ Reorders params) := by
  refine reorderParams_related fun param _ trailing => ?_
  intro r hr hadmits htyped
  exact reorderParam_admits trailing hadmits htyped r hr

/-- What relates the parameters of a list that is reordered relates those of a
function that is left. -/
theorem Leaves.params_rel {A : Json → Json → Prop} (hrefl : ∀ param, A param param)
    (hreorder : ∀ params, Result.Yields (reorderParams params) (List.Forall₂ A params))
    (h : Leaves o c n') (hkind : c.plainKind ∈ functionKinds) :
    List.Forall₂ A (c.itemsAt "params") (n'.itemsAt "params") := by
  have hrules : ∀ kind ∈ functionKinds, leaveRule? kind = some .function := by decide
  have hrule : leaveRule? c.kind = some .function := (leaveRule?_kind c).trans (hrules _ hkind)
  cases h with
  | free hnone =>
    rw [hnone] at hrule
    cases hrule
  | ruled rules left =>
    obtain rfl := Option.some.inj (hrule.symm.trans rules)
    cases left with
    | @function params params' field reordered =>
      rw [Json.itemsAt, Json.itemsAt, Json.get?_set_self field, field]
      exact hreorder params params' reordered
    | withoutParams => exact List.forall₂_same.2 fun param _ => hrefl param

/-- What relates the parameters of each function to what becomes of them
relates those of a node. -/
theorem Passed.signed {P : Json → Json → Prop} {R : Site → Json → Json → Bool → Prop}
    (hP : ∀ v, P v v)
    (hR : ∀ site v v' mark, R site v v' mark → Signed P (signatures v) (signatures v'))
    (hn : n.isNode = true) (hpassed : Passed D p o R site n n' mark)
    (hparams : n.plainKind ∈ functionKinds →
      List.Forall₂ P (n.itemsAt "params") (n'.itemsAt "params")) :
    Signed P (signatures n) (signatures n') := by
  have hcame := hpassed.came hn
  have hinner : Signed P (inner n) (inner n') := by
    obtain ⟨m, c, henters, hchildren, hleaves⟩ := hpassed.passes
    rw [← henters.inner_eq, hleaves.inner_eq]
    exact hchildren.inner_signed hP hR
  rw [signatures_eq (isObject_of_isNode hn), signatures_eq (isObject_of_isNode hcame.isNode)]
  refine List.rel_append ?_ hinner
  have hwritten : ∀ kind ∈ writtenKinds, kind ∉ functionKinds := by decide
  rw [ownSignatures, ownSignatures]
  by_cases hkind : n.plainKind ∈ functionKinds
  · have hkind' : n'.plainKind ∈ functionKinds := by
      obtain ⟨m, c, henters, hchildren, hleaves⟩ := hpassed.passes
      rw [plainKind_congr (hleaves.get?_eq (by decide)), hchildren.plainKind_eq,
        (henters.params hkind).1]
      exact hkind
    rw [if_pos hkind, if_pos hkind']
    exact .cons (hparams hkind) .nil
  · have hkind' : n'.plainKind ∉ functionKinds := by
      rcases hcame.kind with hsame | hmem
      · rwa [hsame]
      · exact hwritten _ hmem
    rw [if_neg hkind, if_neg hkind']
    exact .nil

variable (hpassed : Passed D p o (fun _ n n' mark => AdmissionKept n n' mark) site n n' mark)

include hpassed

/-- The parameters of a function, one by one. -/
theorem Passed.params_keep (hkind : n.plainKind ∈ functionKinds) :
    List.Forall₂ KeepsAdmission (n.itemsAt "params") (n'.itemsAt "params") := by
  obtain ⟨m, c, henters, hchildren, hleaves⟩ := hpassed.passes
  obtain ⟨hm, hsame⟩ := henters.function hkind
  have hwalked := hchildren.itemsAt_rel (show "params" ∉ "optional" :: Json.metadataKeys by decide)
  have hreorders := hleaves.params_rel (fun _ hadmits _ => hadmits) reorderParams_reorders
    (by rw [hchildren.plainKind_eq, hm]; exact hkind)
  refine Entries.forall₂_trans (fun param _ param' hsame h => ?_) hsame
    (Entries.forall₂_trans (S := Reorders) (T := fun param param' => KeepsAdmission param param')
      (fun param walked param' hitem h hrule hannotated hadmits => ?_) hwalked hreorders)
  · intro hrule hannotated hadmits
    rcases hsame with rfl | hnot
    · exact h hrule hannotated hadmits
    · exact absurd hannotated hnot
  · have hready := hitem.ready hrule hannotated
    exact h (hready.admits hadmits) hready.typed

/-- **What a walk keeps of every node.** -/
theorem Passed.admission_kept (hn : n.isNode = true) : AdmissionKept n n' mark where
  functions := hpassed.signed .refl (fun _ _ _ _ h => h.functions) hn hpassed.params_keep
  type := hpassed.type_admits
  annotation h := h.elim hpassed.flow_annotation_kept hpassed.typed_annotation_kept
  param := hpassed.param_kept

end

/-- **Callers may still pass `undefined`.** If a tree is rewritten, the
functions of the outcome are those of the tree, with as many parameters each.
A parameter with a type annotation that admitted `undefined` still does. -/
theorem rewriteTree_keeps_admission {o : FileOptions} {tree rewritten : Json} {progress : Progress}
    (hroot : tree.kind ∈ rootKinds) (h : rewriteTree o tree = (.ok rewritten, progress)) :
    Signed KeepsAdmission (signatures tree) (signatures rewritten) := by
  obtain ⟨mark, hkept⟩ := rewriteTree_passes (D := False) (p := fun _ => true)
    (R := fun _ n n' mark => AdmissionKept n n' mark) nofun
    (fun _ _ _ _ hn hpassed => hpassed.admission_kept hn) hroot
    (Json.everywhere_of_forall (fun _ => rfl) tree) h
  exact hkept.functions

/-- `function f(a: ?string, b?: number, c: boolean) {}` -/
def optionalFile : Json :=
  let typed (type : Json) : String × Json :=
    ("typeAnnotation", node "TypeAnnotation" [("typeAnnotation", type)])
  node "Program" [("body", .arr [
    node "FunctionDeclaration" [("id", identifier "f" []),
      ("params", .arr [
        identifier "a" [typed (node "NullableTypeAnnotation"
          [("typeAnnotation", node "StringTypeAnnotation" [])])],
        identifier "b" [("optional", .bool true), typed (node "NumberTypeAnnotation" [])],
        identifier "c" [typed (node "BooleanTypeAnnotation" [])]]),
      ("body", node "BlockStatement" [("body", .arr [])])]])]

/-- No marker is left before the last parameter, which is required; the types
admit `undefined` instead. -/
theorem rewriteTree_keeps_admission_optionalFile : ∃ rewritten p a b c,
    rewriteTree { path := "a.js" } optionalFile = (.ok rewritten, p) ∧
      signatures rewritten = [[a, b, c]] ∧ ParamAdmits a ∧ ParamAdmits b ∧
      [a, b, c].map (·.holds "optional") = [false, false, false] := by
  have hmarkers : (rewriteTree { path := "a.js" } optionalFile).1.toOption.map (fun rewritten =>
      (signatures rewritten).map (·.map (·.holds "optional"))) = some [[false, false, false]] := by
    decide +kernel
  match hrun : rewriteTree { path := "a.js" } optionalFile with
  | (.error _, _) =>
    rw [hrun] at hmarkers
    cases hmarkers
  | (.ok rewritten, p) =>
    rw [hrun] at hmarkers
    have hsigned := rewriteTree_keeps_admission (by decide) hrun
    rw [show signatures optionalFile = [[_, _, _]] from rfl] at hsigned
    generalize hlists : signatures rewritten = lists at hsigned
    obtain _ | ⟨_ | ⟨ha, _ | ⟨hb, _ | ⟨_, _ | _⟩⟩⟩, _ | _⟩ := hsigned
    refine ⟨rewritten, p, _, _, _, rfl, hlists, ?_, ?_, ?_⟩
    · exact ha rfl ⟨_, rfl, .inl rfl⟩ (.typed rfl (.flow rfl rfl (.word rfl)))
    · exact hb rfl ⟨_, rfl, .inl rfl⟩ (.marked rfl)
    · simpa [Except.toOption, hlists] using hmarkers

end Retype.Migration
