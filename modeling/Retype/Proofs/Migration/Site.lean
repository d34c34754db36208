import Retype.Migration.Tree
import Retype.Proofs.Json.Entries
/-!
# What a rule sees of its surroundings

A rule looks at the kinds of the two nearest ancestors of a node, and asks
whether any ancestor is a call of `createReactClass`; a `Site` is these three
answers. The ancestors are partly rewritten by the time a node is visited, but
a rewriting leaves them looking the same (`Looks`), so the site of a node
depends on the nodes above it as they were when they were entered
(`site_below`).
-/

namespace Retype

/-! ## Values that look the same -/

namespace Json

/-- The text of a node's kind, unless a list or an object stands in its place. -/
def plainKind (n : Json) : String :=
  match n.get? "type" with
  | some (arr _) => ""
  | some (obj _) => ""
  | some v => v.text
  | none => text null

/-- Whether a value is the name `createReactClass`. -/
def namesReactClass (v : Json) : Bool :=
  v.hasText "type" "Identifier" && v.hasText "name" "createReactClass"

/-- Values that a rule cannot tell apart when it does not look into them. -/
inductive Looks : Json → Json → Prop
  | refl (v : Json) : Looks v v
  | arr {items items' : List Json} (isTrue : (arr items').isTrue = (arr items).isTrue) :
      Looks (arr items) (arr items')
  | obj {l l' : Entries} (isTrue : (obj l').isTrue = (obj l).isTrue)
      (name : (obj l').namesReactClass = (obj l).namesReactClass) : Looks (obj l) (obj l')

/-- A node is an object with an entry at least. -/
theorem isTrue_of_isNode {v : Json} (h : v.isNode = true) : ∃ l, v = obj l ∧ v.isTrue = true := by
  cases v with
  | obj l =>
    cases l with
    | nil => cases h
    | cons entry rest => exact ⟨_, rfl, rfl⟩
  | _ => cases h

namespace Looks

variable {v v' v'' : Json}

/-- What looks the same twice looks the same. -/
theorem trans (h : Looks v v') (h' : Looks v' v'') : Looks v v'' := by
  cases h with
  | refl => exact h'
  | arr isTrue =>
    cases h' with
    | refl => exact .arr isTrue
    | arr isTrue' => exact .arr (isTrue'.trans isTrue)
  | obj isTrue name =>
    cases h' with
    | refl => exact .obj isTrue name
    | obj isTrue' name' => exact .obj (isTrue'.trans isTrue) (name'.trans name)

/-- Nodes that are both the name or both are not. -/
theorem of_isNode (h : v.isNode = true) (h' : v'.isNode = true)
    (name : v'.namesReactClass = v.namesReactClass) : Looks v v' := by
  obtain ⟨l, rfl, hl⟩ := isTrue_of_isNode h
  obtain ⟨l', rfl, hl'⟩ := isTrue_of_isNode h'
  exact .obj (hl'.trans hl.symm) name

/-- Values that look the same are true together. -/
theorem isTrue_eq (h : Looks v v') : v'.isTrue = v.isTrue := by
  cases h with
  | refl => rfl
  | arr isTrue => exact isTrue
  | obj isTrue _ => exact isTrue

/-- They are objects together. -/
theorem isObject_eq (h : Looks v v') : v'.isObject = v.isObject := by
  cases h <;> rfl

/-- They name the React class together. -/
theorem namesReactClass_eq (h : Looks v v') : v'.namesReactClass = v.namesReactClass := by
  cases h with
  | refl => rfl
  | arr => rfl
  | obj _ name => exact name

end Looks

variable {l l' : Entries}

/-- Entries that look the same have the same texts. -/
theorem hasText_of_looks (h : l.Rel (fun _ => Looks) l') (key text : String) :
    (obj l').hasText key text = (obj l).hasText key text := by
  have hrel := h.get? key
  simp only [hasText, get?]
  generalize l.get? key = a, l'.get? key = b at hrel
  cases hrel with
  | none => rfl
  | some hv =>
    cases hv <;> rfl

/-- Objects that look the same are of one kind. -/
theorem plainKind_of_looks (h : l.Rel (fun _ => Looks) l') :
    (obj l').plainKind = (obj l).plainKind := by
  have hrel := h.get? "type"
  simp only [plainKind, get?]
  generalize l.get? "type" = a, l'.get? "type" = b at hrel
  cases hrel with
  | none => rfl
  | some hv =>
    cases hv <;> rfl

/-- An object whose entries look the same looks the same. -/
theorem Looks.of_rel (h : l.Rel (fun _ => Looks) l') : Looks (.obj l) (.obj l') := by
  refine .obj ?_ (by simp only [namesReactClass, hasText_of_looks h])
  cases h <;> rfl

end Json

namespace Migration

open Json (Looks)
open Syntax (Place Frame)

/-- They are calls that create a React class together. -/
theorem isCreateReactClassCall_of_looks {l l' : Entries} (h : l.Rel (fun _ => Looks) l') :
    isCreateReactClassCall (.obj l') = isCreateReactClassCall (.obj l) := by
  have hrel := h.get? "callee"
  rw [isCreateReactClassCall, isCreateReactClassCall, Json.hasText_of_looks h]
  simp only [Json.get?]
  generalize l.get? "callee" = a, l'.get? "callee" = b at hrel
  cases hrel with
  | none => rfl
  | some hv => exact congrArg _ hv.namesReactClass_eq

/-! ## Sites -/

/-- What a rule sees above a node: the kinds of its parent and of the parent's
parent, and whether it stands inside a call of `createReactClass`. -/
structure Site where
  parent : Option String
  grandparent : Option String
  inside : Bool
  deriving DecidableEq, Repr

namespace Site

/-- The site of the root. -/
def root : Site := ⟨none, none, false⟩

/-- The site of the children of a node at a site. -/
def below (s : Site) (n : Json) : Site :=
  ⟨some n.plainKind, s.parent, isCreateReactClassCall n || s.inside⟩

/-- Whether an annotation belongs to a parameter. -/
def isParam (s : Site) : Bool :=
  s.parent = some "Identifier" ∧ s.grandparent ≠ some "VariableDeclarator"

/-- Whether a declarator declares variables of a test file outside the head of
a loop. -/
def declaresTestVariable (o : FileOptions) (s : Site) : Bool :=
  o.isTestFile ∧ s.parent = some "VariableDeclaration" ∧ !(s.grandparent.any loopKinds.contains)

/-- Whether a node at a site stands inside a call of `createReactClass`. -/
def isInside (s : Site) (n : Json) : Bool := isCreateReactClassCall n || s.inside

end Site

/-- The site of a node at a place. -/
def siteAt : Place → Json → Site
  | [], _ => .root
  | f :: up, n => (siteAt up (f.fill n)).below (f.fill n)

/-- Entries around a hole look the same if what fills the hole does. -/
theorem fill_rel {before before' after : Entries} {key : String} {v v' : Json}
    (hbefore : before.Rel (fun _ => Looks) before') (hv : Looks v v') :
    Entries.Rel (fun _ => Looks) (before ++ (key, v) :: after) (before' ++ (key, v') :: after) :=
  hbefore.append (.cons ⟨rfl, hv⟩ (List.forall₂_same.2 fun entry _ => ⟨rfl, .refl entry.2⟩))

/-- A frame filled with nodes that look the same looks the same. -/
theorem fill_looks (f : Frame) {n n' : Json} (h : Looks n n') :
    ∃ l l' : Entries, f.fill n = .obj l ∧ f.fill n' = .obj l' ∧ l.Rel (fun _ => Looks) l' := by
  have hbefore : f.before.Rel (fun _ => Looks) f.before :=
    Entries.Rel.refl fun entry _ => .refl entry.2
  refine ⟨_, _, rfl, rfl, fill_rel hbefore ?_⟩
  cases f.around with
  | none => exact h
  | some around =>
    obtain ⟨left, right⟩ := around
    exact .arr (by cases left <;> rfl)

/-- Nodes that look the same have the same site. -/
theorem siteAt_congr (place : Place) {n n' : Json} (h : Looks n n') :
    siteAt place n' = siteAt place n := by
  induction place generalizing n n' with
  | nil => rfl
  | cons f up ih =>
    obtain ⟨l, l', hl, hl', hrel⟩ := fill_looks f h
    have hup := ih (show Looks (f.fill n) (f.fill n') by rw [hl, hl']; exact .of_rel hrel)
    rw [siteAt, siteAt, hup, Site.below, Site.below, hl, hl', Json.plainKind_of_looks hrel,
      isCreateReactClassCall_of_looks hrel]

/-- **The site of a child** depends on its parent as it was when it was
entered, not on how much of it has been rewritten since. -/
theorem siteAt_cons {place : Place} {f : Frame} {child n : Json} {l l' : Entries}
    (hn : Looks n (.obj l)) (hfill : f.fill child = .obj l') (h : l.Rel (fun _ => Looks) l') :
    siteAt (f :: place) child = (siteAt place n).below (.obj l) := by
  have hup : siteAt place (f.fill child) = siteAt place n := by
    rw [hfill]
    exact siteAt_congr place (hn.trans (.of_rel h))
  rw [siteAt, hup, Site.below, Site.below, hfill, Json.plainKind_of_looks h,
    isCreateReactClassCall_of_looks h]

/-! ## Kinds -/

/-- Whether a text may be a kind: it does not look like a list or an object. -/
def isProper (name : String) : Bool :=
  match name.toList with
  | [] => false
  | c :: _ => c != '[' && c != '\x7b'

/-- The kind of a node is its plain kind, or is no proper one. -/
theorem kind_eq_plainKind_or (n : Json) :
    n.kind = n.plainKind ∨ n.plainKind = "" ∧ isProper n.kind = false := by
  rw [Json.kind, Json.textAt, Json.plainKind]
  split
  next v hv =>
    rw [hv]
    cases v with
    | arr items => exact .inr ⟨rfl, by simp [isProper, Json.text, Json.quoted]⟩
    | obj entries => exact .inr ⟨rfl, by simp [isProper, Json.text, Json.quoted]⟩
    | _ => exact .inl rfl
  next hnone =>
    rw [hnone]
    exact .inl rfl

/-- A kind that is a proper text is the same in both readings. -/
theorem plainKind_eq_iff {n : Json} {name : String} (h : isProper name = true) :
    n.plainKind = name ↔ n.kind = name := by
  rcases kind_eq_plainKind_or n with hkind | ⟨hplain, hkind⟩
  · rw [hkind]
  · constructor
    · rintro rfl
      rw [hplain] at h
      cases h
    · rintro rfl
      rw [hkind] at h
      cases h

/-- No rule is kept for an improper kind. -/
theorem lookup_eq_none {α : Type} {rules : List (String × α)}
    (hrules : ∀ rule ∈ rules, isProper rule.1 = true) {name : String} (h : isProper name = false) :
    rules.lookup name = none := by
  rw [List.lookup_eq_none_iff]
  intro rule hrule
  rw [bne_iff_ne]
  rintro rfl
  rw [hrules rule hrule] at h
  cases h

/-- The rule on the way down depends on the plain kind. -/
theorem enterRule?_kind (n : Json) : enterRule? n.kind = enterRule? n.plainKind := by
  rcases kind_eq_plainKind_or n with hkind | ⟨hplain, hkind⟩
  · rw [hkind]
  · rw [hplain, enterRule?, lookup_eq_none (by decide) hkind]
    rfl

/-- So does the rule on the way up. -/
theorem leaveRule?_kind (n : Json) : leaveRule? n.kind = leaveRule? n.plainKind := by
  rcases kind_eq_plainKind_or n with hkind | ⟨hplain, hkind⟩
  · rw [hkind]
  · rw [hplain, leaveRule?, lookup_eq_none (by decide) hkind]
    rfl

/-! ## What the rules ask -/

variable (place : Place) (n : Json)

/-- A site knows the kind of the parent. -/
theorem parent_siteAt : (siteAt place n).parent = (place.parent? n).map Json.plainKind := by
  cases place <;> rfl

/-- It knows the kind of the grandparent. -/
theorem grandparent_siteAt :
    (siteAt place n).grandparent = ((place.ancestors n)[1]?).map Json.plainKind := by
  match place with
  | [] => rfl
  | [f] => rfl
  | f :: g :: up => rfl

/-- It knows whether a React class is being created around it. -/
theorem inside_siteAt :
    (siteAt place n).inside = (place.ancestors n).any isCreateReactClassCall := by
  induction place generalizing n with
  | nil => rfl
  | cons f up ih => simp [siteAt, Site.below, Place.ancestors, ih]

/-- A proper kind is found above a node in both readings. -/
theorem map_plainKind_eq_iff {name : String} (h : isProper name = true) (above : Option Json) :
    above.map Json.plainKind = some name ↔ above.map Json.kind = some name := by
  cases above with
  | none => simp
  | some above => simp [plainKind_eq_iff h]

/-- A place has a parent of some kind when its site says so. -/
theorem parentKind?_eq_iff {name : String} (h : isProper name = true) :
    place.parentKind? n = some name ↔ (siteAt place n).parent = some name := by
  rw [parent_siteAt, map_plainKind_eq_iff h, Place.parentKind?]

/-- So it is with the grandparent. -/
theorem grandparentKind?_eq_iff {name : String} (h : isProper name = true) :
    place.grandparentKind? n = some name ↔ (siteAt place n).grandparent = some name := by
  rw [grandparent_siteAt, map_plainKind_eq_iff h, Place.grandparentKind?]

/-- Whether an annotation is a parameter's is read from its site. -/
theorem annotatesParam_eq : annotatesParam place n = (siteAt place n).isParam := by
  have hparent := parentKind?_eq_iff place n (show isProper "Identifier" = true from rfl)
  have hgrandparent :=
    grandparentKind?_eq_iff place n (show isProper "VariableDeclarator" = true from rfl)
  simp only [annotatesParam, Site.isParam, hparent, ne_eq, hgrandparent]

/-- A loop above is of one of the loops' kinds. -/
theorem any_contains_iff (above : Option String) :
    above.any loopKinds.contains = true ↔ ∃ name ∈ loopKinds, above = some name := by
  cases above with
  | none => simp
  | some kind => simp

/-- Whether a declarator is a test's variable is read from its site. -/
theorem declaresTestVariable_eq (o : FileOptions) :
    declaresTestVariable o place n = (siteAt place n).declaresTestVariable o := by
  have hloop : (place.grandparentKind? n).any loopKinds.contains =
      (siteAt place n).grandparent.any loopKinds.contains := by
    rw [Bool.eq_iff_iff, any_contains_iff, any_contains_iff]
    refine exists_congr fun name => and_congr_right fun hname => ?_
    refine grandparentKind?_eq_iff place n ?_
    revert name
    decide
  have hparent := parentKind?_eq_iff place n (show isProper "VariableDeclaration" = true from rfl)
  simp only [declaresTestVariable, Site.declaresTestVariable, hloop, hparent]

/-- So is whether a React class is being created. -/
theorem insideCreateReactClass_eq :
    insideCreateReactClass place n = (siteAt place n).isInside n := by
  rw [insideCreateReactClass, Site.isInside, inside_siteAt]

end Migration

end Retype
