import Retype.Proofs.Migration.Replaced
/-!
# What becomes of a node on a walk

A walk passes each node once: the node is entered, its children are walked,
and it is left (`Passed`). What relates a node to what has become of it, given
that it relates the children, relates every node of the tree
(`walk_passes`). The fuel never runs out, since a node is due no more steps
than there is fuel.
-/

namespace Retype.Migration

open Json (Looks)
open Syntax (Place Frame Visit Walked)

/-! ## Down -/

/-- What a node at a site is once it has been entered, and whether it makes its
parent optional. -/
inductive Enters (D : Prop) (p : Json → Bool) (o : FileOptions) (site : Site) (n : Json) :
    Json → Bool → Prop
  | free (ruleless : enterRule? n.kind = none) (keys : D → ((entriesOf n).map (·.1)).Nodup) :
      Enters D p o site n n false
  | kept {rule : EnterRule} (rules : enterRule? n.kind = some rule) (keeps : rule.keepsPlace = true)
      (source : n.everywhere p = true) (accepts : Accepts o site n rule) :
      Enters D p o site n (keptAs o site n rule) false
  | replaced {rule : EnterRule} {new : Json} {mark : Bool} {k : Nat}
      (rules : enterRule? n.kind = some rule) (gives : rule.keepsPlace = false)
      (source : n.everywhere p = true) (replaced : Replaced D p k o site n rule mark new) :
      Enters D p o site n (Json.inherit n new) mark

/-! ## The children -/

/-- The kinds of the nodes that take the place of others. -/
def writtenKinds : List String :=
  ["TSTypeAnnotation", "TSAsExpression", "CallExpression"] ++ partKinds.map (·.2)

/-- Nodes that a rule cannot tell apart when it looks at their fields. A
marker may have been added. -/
structure Alike (n n' : Json) : Prop where
  looks (key : String) (h : key ≠ "optional") : Option.Rel Looks (n.get? key) (n'.get? key)
  metadata (key : String) (h : key ∈ Json.metadataKeys) : n'.get? key = n.get? key

/-- What is seen from above of what has become of a node. -/
structure Came (n n' : Json) : Prop where
  isNode : n'.isNode = true
  looks : Looks n n'
  kind : n'.plainKind = n.plainKind ∨ n'.plainKind ∈ writtenKinds
  alike : Ruleless n.kind → Alike n n'

section
variable (R : Site → Json → Json → Bool → Prop) (site : Site) (marked : Prop)

/-- What has become of a value, or of an item of a list: a node has been
walked, and may have made its parent optional; other values stay. -/
inductive ItemWalked : Json → Json → Prop
  | leaf {v : Json} (h : v.isNode = false) : ItemWalked v v
  | node {v v' : Json} {mark : Bool} (h : v.isNode = true) (walked : R site v v' mark)
      (came : Came v v') (marks : mark = true → marked) : ItemWalked v v'

/-- What has become of the value of an entry. -/
inductive ValueWalked : Json → Json → Prop
  | single {v v' : Json} (h : v.items = []) (item : ItemWalked R site marked v v') :
      ValueWalked v v'
  | arr {vs vs' : List Json} (items : List.Forall₂ (ItemWalked R site marked) vs vs') :
      ValueWalked (.arr vs) (.arr vs')

/-- What has become of an entry: metadata stays, and so does a marker that a
child has given before. -/
inductive EntryWalked : String → Json → Json → Prop
  | skipped {key : String} {v : Json}
      (h : key ∈ Json.metadataKeys ∨ key = "optional" ∧ marked) : EntryWalked key v v
  | walked {key : String} {v v' : Json} (h : key ∉ Json.metadataKeys)
      (value : ValueWalked R site marked v v') : EntryWalked key v v'

end

/-- What has become of a node once its children have been walked. -/
inductive ChildrenWalked (R : Site → Json → Json → Bool → Prop) (site : Site) : Json → Json → Prop
  | intro {l l' : Entries} (marked : Bool)
      (entries : l.Rel (EntryWalked R (site.below (.obj l)) (marked = true)) l')
      (name : marked = true → (Json.obj l).plainKind = "Identifier") :
      ChildrenWalked R site (.obj l) (.obj (Entries.setAll l' (markers marked)))

/-! ## Up -/

/-- What a node becomes on the way up. -/
inductive LeftAs (o : FileOptions) (c : Json) : LeaveRule → Json → Prop
  | program : LeftAs o c .program c
  | importing {body : List Json} (field : c.get? "body" = some (.arr body)) :
      LeftAs o c .program (c.set "body" (.arr (helperImport o :: body)))
  | function {params params' : List Json} (field : c.get? "params" = some (.arr params))
      (reordered : reorderParams params = .ok params') :
      LeftAs o c .function (c.set "params" (.arr params'))
  | withoutParams (field : ∀ params, c.get? "params" ≠ some (.arr params)) :
      LeftAs o c .function c
  | pattern : LeftAs o c .assignmentPattern (leaveAssignmentPattern c)

inductive Leaves (o : FileOptions) (c : Json) : Json → Prop
  | free (ruleless : leaveRule? c.kind = none) : Leaves o c c
  | ruled {rule : LeaveRule} {n' : Json} (rules : leaveRule? c.kind = some rule)
      (left : LeftAs o c rule n') : Leaves o c n'

/-- What becomes of a node at a site, down, through the children and up. -/
structure Passed (D : Prop) (p : Json → Bool) (o : FileOptions)
    (R : Site → Json → Json → Bool → Prop) (site : Site) (n n' : Json) (mark : Bool) : Prop where
  passes : ∃ m c, Enters D p o site n m mark ∧ ChildrenWalked R site m c ∧ Leaves o c n'

/-! ## What is entered -/

section
variable {D : Prop} {p : Json → Bool} {o : FileOptions} {R : Site → Json → Json → Bool → Prop}
  {site : Site} {n m c n' : Json} {mark : Bool} {key : String}

/-- The kind of a node is read off its type. -/
theorem plainKind_congr (h : n'.get? "type" = n.get? "type") : n'.plainKind = n.plainKind := by
  simp only [Json.plainKind, h]

/-- A node has the kind that its type names. -/
theorem plainKind_of_type {kind : String} (h : n.get? "type" = some (.str kind)) :
    n.plainKind = kind := by
  simp only [Json.plainKind, h, Json.text]

/-- Only a name may be that of `createReactClass`. -/
theorem namesReactClass_of_kind (h : n.kind ≠ "Identifier") : n.namesReactClass = false := by
  rw [Json.namesReactClass, Bool.and_eq_false_iff]
  refine .inl ?_
  cases hname : n.hasText "type" "Identifier" with
  | false => rfl
  | true => exact absurd (kind_of_kind (get?_of_hasText hname)) h

/-- What takes the place of a node is of one of the kinds that are written. -/
theorem Replaces.kind {rule : EnterRule} {new : Json} (h : Replaces o site n rule new mark) :
    ∃ kind ∈ writtenKinds, new.get? "type" = some (.str kind) := by
  cases h with
  | annotated => exact ⟨_, by decide, get?_type_node _ _⟩
  | part hpart htype =>
    exact ⟨_, List.mem_append_right _ (List.mem_map.2 ⟨_, hpart, rfl⟩), htype⟩
  | cast _ as => cases as <;> exact ⟨_, by decide, get?_type_node _ _⟩

/-- What is marked was the annotation of a parameter. -/
theorem Replaces.isParam {rule : EnterRule} {new : Json} (h : Replaces o site n rule new mark)
    (hmark : mark = true) : site.isParam = true := by
  cases h with
  | @annotated type optional t u field param read rewritten =>
    rw [ParamType] at param
    split at param
    next hparam => exact hparam
    next =>
      subst param
      cases hmark
  | _ => cases hmark

namespace Enters

/-- Whatever is entered becomes a node. -/
theorem isNode (h : Enters D p o site n m mark) (hn : n.isNode = true) : m.isNode = true := by
  cases h with
  | free => exact hn
  | kept => exact keptAs_isNode.trans hn
  | replaced _ _ _ hreplaced => exact (isNode_inherit _ _).trans hreplaced.written.isNode

/-- A node that is entered keeps its kind or becomes one of the kinds that are written. -/
theorem kind (h : Enters D p o site n m mark) :
    m.plainKind = n.plainKind ∨ m.plainKind ∈ writtenKinds := by
  cases h with
  | free => exact .inl rfl
  | kept => exact .inl (plainKind_congr (keptAs_get? (by decide)))
  | replaced _ _ _ hreplaced =>
    obtain ⟨kind, hkind, htype⟩ := hreplaced.replaces.kind
    have hinherit := (Json.get?_type_inherit n _).trans htype
    exact .inr (plainKind_of_type hinherit ▸ hkind)

/-- What is entered looks as it did to the nodes around it. -/
theorem looks (h : Enters D p o site n m mark) (hn : n.isNode = true) : Looks n m := by
  have hm := h.isNode hn
  cases h with
  | free => exact .refl n
  | kept => exact keptAs_looks hn
  | @replaced rule new _ _ rules gives source hreplaced =>
    -- neither node is a name
    obtain ⟨kind, hkind, htype⟩ := hreplaced.replaces.kind
    replace htype := (Json.get?_type_inherit n _).trans htype
    refine .of_isNode hn hm ?_
    rw [namesReactClass_of_kind, namesReactClass_of_kind]
    · intro hname
      rw [hname] at rules
      cases rules
    · rw [kind_of_kind htype]
      rintro rfl
      exact absurd hkind (by decide)

/-- Only the annotation of a parameter marks the parameter. -/
theorem mark_isParam (h : Enters D p o site n m mark) (hmark : mark = true) :
    site.isParam = true := by
  cases h with
  | replaced _ _ _ hreplaced => exact hreplaced.replaces.isParam hmark
  | _ => cases hmark

/-- No key of a node is there twice once it has been entered. -/
theorem keys_nodup (hD : ∀ l : Entries, p (.obj l) = true → (l.map (·.1)).Nodup) (d : D)
    (h : Enters D p o site n m mark) : ((entriesOf m).map (·.1)).Nodup := by
  cases h with
  | free _ keys => exact keys d
  | kept _ _ source _ =>
    refine keys_keptAs ?_
    cases n with
    | obj l => exact hD l (Json.everywhere_self source)
    | _ => exact List.nodup_nil
  | replaced _ _ _ hreplaced => exact (hreplaced.written.inherit n).keys d

/-- A node with a rule is one of the source. -/
theorem source (h : Enters D p o site n m mark) (hrule : enterRule? n.kind ≠ none) :
    n.everywhere p = true := by
  cases h with
  | free hruleless => exact absurd hruleless hrule
  | kept _ _ source _ => exact source
  | replaced _ _ source _ => exact source

/-- A node without rules stays as it is. -/
theorem eq_of_ruleless (h : Enters D p o site n m mark) (hrule : enterRule? n.kind = none) :
    m = n ∧ mark = false := by
  cases h with
  | free => exact ⟨rfl, rfl⟩
  | kept rules =>
    rw [hrule] at rules
    cases rules
  | replaced rules =>
    rw [hrule] at rules
    cases rules

end Enters

/-! ## What is seen of the children -/

namespace Alike

/-- A node is like itself. -/
theorem refl (n : Json) : Alike n n := by
  refine ⟨fun key _ => ?_, fun _ _ => rfl⟩
  cases n.get? key with
  | none => exact .none
  | some v => exact .some (.refl v)

/-- Nodes that are alike have the same texts. -/
theorem hasText_eq (h : Alike n n') (hkey : key ≠ "optional") (text : String) :
    n'.hasText key text = n.hasText key text := by
  have hrel := h.looks key hkey
  simp only [Json.hasText]
  generalize n.get? key = a, n'.get? key = b at hrel
  cases hrel with
  | none => rfl
  | some hv => cases hv <;> rfl

/-- Nodes that are alike hold the same fields. -/
theorem holds_eq (h : Alike n n') (hkey : key ≠ "optional") : n'.holds key = n.holds key := by
  have hrel := h.looks key hkey
  simp only [Json.holds]
  generalize n.get? key = a, n'.get? key = b at hrel
  cases hrel with
  | none => rfl
  | some hv => exact hv.isTrue_eq

end Alike

/-- What is of a kind without rules was of that kind, unless it was written. -/
theorem Came.alike_of_hasText {kind : String} (h : Came n n') (hkind : Ruleless kind)
    (hwritten : kind ∉ writtenKinds) (htext : n'.hasText "type" kind = true) : Alike n n' := by
  have hplain : n.plainKind = kind := by
    have hsame := h.kind
    rw [plainKind_of_type (get?_of_hasText htext)] at hsame
    exact (hsame.resolve_right hwritten).symm
  exact h.alike ⟨by rw [enterRule?_kind, hplain, hkind.1], by rw [leaveRule?_kind, hplain, hkind.2]⟩

namespace ItemWalked

variable {marked marked' : Prop} {v v' : Json}

/-- An item looks to others as it did before it was walked. -/
theorem looks (h : ItemWalked R site marked v v') : Looks v v' := by
  cases h with
  | leaf => exact .refl v
  | node _ _ came => exact came.looks

/-- An item of a kind that is neither rewritten nor written was there before. -/
theorem alike_of_hasText {kind : String} (h : ItemWalked R site marked v v')
    (hkind : Ruleless kind) (hwritten : kind ∉ writtenKinds)
    (htext : v'.hasText "type" kind = true) : Alike v v' := by
  cases h with
  | leaf => exact .refl v
  | node _ _ came => exact came.alike_of_hasText hkind hwritten htext

/-- The condition for a mark may be weakened. -/
theorem mono (h : ItemWalked R site marked v v') (hmarked : marked → marked') :
    ItemWalked R site marked' v v' := by
  cases h with
  | leaf h => exact .leaf h
  | node h walked came marks => exact .node h walked came fun hmark => hmarked (marks hmark)

end ItemWalked

namespace ValueWalked

variable {marked marked' : Prop} {v v' : Json}

/-- A value looks to others as it did before it was walked. -/
theorem looks (h : ValueWalked R site marked v v') : Looks v v' := by
  cases h with
  | single _ item => exact item.looks
  | arr items => exact .arr (by cases items <;> rfl)

theorem mono (h : ValueWalked R site marked v v') (hmarked : marked → marked') :
    ValueWalked R site marked' v v' := by
  cases h with
  | single h item => exact .single h (item.mono hmarked)
  | arr items => exact .arr (items.imp fun _ _ item => item.mono hmarked)

end ValueWalked

namespace EntryWalked

variable {marked marked' : Prop} {v v' : Json}

/-- An entry looks to others as it did before it was walked. -/
theorem looks (h : EntryWalked R site marked key v v') : Looks v v' := by
  cases h with
  | skipped => exact .refl v
  | walked _ value => exact value.looks

theorem mono (h : EntryWalked R site marked key v v') (hmarked : marked → marked') :
    EntryWalked R site marked' key v v' := by
  cases h with
  | skipped h => exact .skipped (h.imp_right fun h => ⟨h.1, hmarked h.2⟩)
  | walked h value => exact .walked h (value.mono hmarked)

end EntryWalked

/-- What relates nodes less closely relates what has become of the children. -/
theorem ChildrenWalked.imp {R' : Site → Json → Json → Bool → Prop}
    (hR : ∀ site v v' mark, R site v v' mark → R' site v v' mark) (h : ChildrenWalked R site m c) :
    ChildrenWalked R' site m c := by
  have hitem {site : Site} {marked : Prop} {v v' : Json} (h : ItemWalked R site marked v v') :
      ItemWalked R' site marked v v' := by
    cases h with
    | leaf h => exact .leaf h
    | node h walked came marks => exact .node h (hR _ _ _ _ walked) came marks
  cases h with
  | intro marked entries name =>
    refine .intro marked (entries.mono fun key v v' hentry => ?_) name
    cases hentry with
    | skipped h => exact .skipped h
    | walked h value =>
      refine .walked h ?_
      cases value with
      | single hitems item => exact .single hitems (hitem item)
      | arr items => exact .arr (items.imp fun _ _ => hitem)

/-- What is known of the children may be weakened. -/
theorem Passed.imp {R' : Site → Json → Json → Bool → Prop}
    (hR : ∀ site v v' mark, R site v v' mark → R' site v v' mark)
    (h : Passed D p o R site n n' mark) : Passed D p o R' site n n' mark := by
  obtain ⟨m, c, henters, hchildren, hleaves⟩ := h.passes
  exact ⟨m, c, henters, hchildren.imp hR, hleaves⟩

/-- Marks are set under one key only. -/
theorem get?_setAll_markers (marked : Bool) (l : Entries) (hkey : key ≠ "optional") :
    (Entries.setAll l (markers marked)).get? key = l.get? key := by
  cases marked with
  | true => exact Entries.get?_set_ne hkey _
  | false => rfl

/-- There is no object under a key. -/
theorem objectAt?_eq_none_iff :
    Location.objectAt? n key = none ↔ ∀ v, n.get? key = some v → v.isObject = false := by
  rw [Location.objectAt?]
  split
  next entries hget => simp [hget, Json.isObject]
  next hnone =>
    refine iff_of_true rfl fun v hget => ?_
    cases v with
    | obj entries => exact absurd hget (hnone entries)
    | _ => rfl

/-- A property has lost its variance. -/
theorem propertyAs_variance (n : Json) : Location.objectAt? (propertyAs n) "variance" = none := by
  have hnull : Location.objectAt? (n.set "variance" .null) "variance" = none :=
    objectAt?_eq_none_iff.2 fun v hget => Json.eq_of_get?_set_self hget ▸ rfl
  rw [propertyAs]
  split
  next hnone => exact hnone
  next =>
    split
    · rw [Location.objectAt?, Json.get?_set_ne (by decide)]
      exact hnull
    · exact hnull

namespace ChildrenWalked

/-- What has become of an entry, unless it is a marker that was given. -/
theorem get?_rel (h : ChildrenWalked R site m c) (hkey : key ≠ "optional") :
    Option.Rel (EntryWalked R (site.below m) True key) (m.get? key) (c.get? key) := by
  cases h with
  | @intro l l' marked entries name =>
    have hrel := (entries.mono fun _ _ _ h => h.mono fun _ => trivial).get? key
    rwa [← get?_setAll_markers marked l' hkey] at hrel

/-- A marker was given, or is what has become of the one before. -/
theorem get?_optional (h : ChildrenWalked R site m c) :
    c.get? "optional" = some (.bool true) ∨
      Option.Rel (EntryWalked R (site.below m) False "optional") (m.get? "optional")
        (c.get? "optional") := by
  cases h with
  | @intro l l' marked entries name =>
    cases marked with
    | true => exact .inl (Entries.get?_set_self l' "optional" _)
    | false => exact .inr ((entries.mono fun _ _ _ h => h.mono Bool.false_ne_true).get? "optional")

/-- What stands under a key looks as it did before the children were walked. -/
theorem get?_looks (h : ChildrenWalked R site m c) (hkey : key ≠ "optional") :
    Option.Rel Looks (m.get? key) (c.get? key) := by
  have hrel := h.get?_rel hkey
  generalize m.get? key = a, c.get? key = b at hrel
  cases hrel with
  | none => exact .none
  | some hentry => exact .some hentry.looks

/-- Positions and comments are not walked. -/
theorem get?_metadata (h : ChildrenWalked R site m c) (hkey : key ∈ Json.metadataKeys) :
    c.get? key = m.get? key := by
  have hrel := h.get?_rel (show key ≠ "optional" by rintro rfl; exact absurd hkey (by decide))
  generalize m.get? key = a, c.get? key = b at hrel
  cases hrel with
  | none => rfl
  | some hentry =>
    cases hentry with
    | skipped => rfl
    | walked hnot => exact absurd hkey hnot

/-- A node has the same texts when its children were walked. -/
theorem hasText_eq (h : ChildrenWalked R site m c) (hkey : key ≠ "optional") (text : String) :
    c.hasText key text = m.hasText key text := by
  have hrel := h.get?_looks hkey
  simp only [Json.hasText]
  generalize m.get? key = a, c.get? key = b at hrel
  cases hrel with
  | none => rfl
  | some hv => cases hv <;> rfl

/-- No key but the mark is new when the children were walked. -/
theorem get?_eq_none (h : ChildrenWalked R site m c) (hkey : key ≠ "optional")
    (hnone : m.get? key = none) : c.get? key = none := by
  have hrel := h.get?_looks hkey
  rw [hnone] at hrel
  generalize c.get? key = b at hrel
  cases hrel
  rfl

theorem objectAt?_eq_none (h : ChildrenWalked R site m c) (hkey : key ≠ "optional")
    (hnone : Location.objectAt? m key = none) : Location.objectAt? c key = none := by
  have hrel := h.get?_looks hkey
  rw [objectAt?_eq_none_iff] at hnone ⊢
  intro v hget
  rw [hget] at hrel
  generalize m.get? key = a at hrel hnone
  cases hrel with
  | some hlooks => exact hlooks.isObject_eq.trans (hnone _ rfl)

/-- What has become of the items of a list. -/
theorem itemsAt_rel (h : ChildrenWalked R site m c) (hkey : key ∉ "optional" :: Json.metadataKeys) :
    List.Forall₂ (ItemWalked R (site.below m) True) (m.itemsAt key) (c.itemsAt key) := by
  obtain ⟨hmarker, hmeta⟩ := not_or.1 (List.mem_cons.not.1 hkey)
  have hrel := h.get?_rel hmarker
  simp only [Json.itemsAt]
  generalize m.get? key = a, c.get? key = b at hrel
  cases hrel with
  | none => exact .nil
  | some hentry =>
    cases hentry with
    | skipped hskip => exact absurd hskip (by simp [hmarker, hmeta])
    | walked _ value =>
      cases value with
      | single hitems item =>
        dsimp only
        rw [hitems]
        cases item with
        | leaf =>
          rw [hitems]
          exact .nil
        | node _ _ came =>
          obtain ⟨l, rfl⟩ := exists_obj_of_isObject (isObject_of_isNode came.isNode)
          exact .nil
      | arr items => exact items

/-- A node has the same kind when its children were walked. -/
theorem plainKind_eq (h : ChildrenWalked R site m c) : c.plainKind = m.plainKind := by
  have hrel := h.get?_looks (show "type" ≠ "optional" by decide)
  simp only [Json.plainKind]
  generalize m.get? "type" = a, c.get? "type" = b at hrel
  cases hrel with
  | none => rfl
  | some hv => cases hv <;> rfl

theorem namesReactClass_eq (h : ChildrenWalked R site m c) :
    c.namesReactClass = m.namesReactClass := by
  simp only [Json.namesReactClass, h.hasText_eq (by decide : "type" ≠ "optional"),
    h.hasText_eq (by decide : "name" ≠ "optional")]

/-- A call of `createReactClass` is one when its children were walked. -/
theorem isCreateReactClassCall_eq (h : ChildrenWalked R site m c) :
    isCreateReactClassCall c = isCreateReactClassCall m := by
  have hrel := h.get?_looks (show "callee" ≠ "optional" by decide)
  rw [isCreateReactClassCall, isCreateReactClassCall, h.hasText_eq (by decide)]
  generalize m.get? "callee" = a, c.get? "callee" = b at hrel
  cases hrel with
  | none => rfl
  | some hv => exact congrArg _ hv.namesReactClass_eq

/-- A node is one when its children were walked. -/
theorem isNode_eq (h : ChildrenWalked R site m c) : c.isNode = m.isNode := by
  have hrel := h.get?_looks (show "type" ≠ "optional" by decide)
  rw [Erasure.isNode_eq, Erasure.isNode_eq]
  generalize m.get? "type" = a, c.get? "type" = b at hrel
  cases hrel <;> rfl

end ChildrenWalked

/-! ## What is left -/

/-- A default value changes its left side only. -/
theorem leaveAssignmentPattern_get? (hkey : key ≠ "left") :
    (leaveAssignmentPattern c).get? key = c.get? key := by
  rw [leaveAssignmentPattern]
  split
  · split
    · exact Json.get?_set_ne hkey _
    · rfl
  · rfl

/-- A part that a node gets on the way up, and where. -/
inductive LeftPart (o : FileOptions) (c : Json) : String → Json → Prop
  | importing {body : List Json} (field : c.get? "body" = some (.arr body)) :
      LeftPart o c "body" (.arr (helperImport o :: body))
  | function {params params' : List Json} (field : c.get? "params" = some (.arr params))
      (reordered : reorderParams params = .ok params') : LeftPart o c "params" (.arr params')
  | pattern {left : Json} (field : c.get? "left" = some left) :
      LeftPart o c "left" (left.erase "optional")

namespace Leaves

/-- A node stays as it is on the way up, or gets one part. -/
theorem eq_or_set (h : Leaves o c n') :
    n' = c ∨ ∃ key v, n' = c.set key v ∧ LeftPart o c key v := by
  cases h with
  | free => exact .inl rfl
  | ruled _ left =>
    cases left with
    | program => exact .inl rfl
    | importing field => exact .inr ⟨_, _, rfl, .importing field⟩
    | function field reordered => exact .inr ⟨_, _, rfl, .function field reordered⟩
    | withoutParams => exact .inl rfl
    | pattern =>
      rw [leaveAssignmentPattern]
      split
      next left field =>
        split
        · exact .inr ⟨_, _, rfl, .pattern field⟩
        · exact .inl rfl
      next => exact .inl rfl

/-- Leaving a node changes its body, its parameters or its left side only. -/
theorem get?_eq (h : Leaves o c n') (hkey : key ∉ ["body", "params", "left"]) :
    n'.get? key = c.get? key := by
  simp only [List.mem_cons, List.not_mem_nil, or_false, not_or] at hkey
  obtain ⟨hbody, hparams, hleft⟩ := hkey
  cases h with
  | free => rfl
  | ruled _ left =>
    cases left with
    | program => rfl
    | importing => exact Json.get?_set_ne hbody _
    | function => exact Json.get?_set_ne hparams _
    | withoutParams => rfl
    | pattern => exact leaveAssignmentPattern_get? hleft

/-- Leaving a node makes no call of `createReactClass`, and undoes none. -/
theorem isCreateReactClassCall_eq (h : Leaves o c n') :
    isCreateReactClassCall n' = isCreateReactClassCall c := by
  simp only [isCreateReactClassCall, Json.hasText,
    h.get?_eq (show "type" ∉ ["body", "params", "left"] by decide),
    h.get?_eq (show "callee" ∉ ["body", "params", "left"] by decide)]

/-- A node without a rule is left as it is. -/
theorem eq_of_ruleless (h : Leaves o c n') (hrule : leaveRule? c.kind = none) : n' = c := by
  cases h with
  | free => rfl
  | ruled rules =>
    rw [hrule] at rules
    cases rules

end Leaves

/-- The children of a node see the same above them once it has been left. -/
theorem below_of_leaves (h : ChildrenWalked R site m c) (hleaves : Leaves o c n') :
    site.below n' = site.below m := by
  simp only [Site.below,
    plainKind_congr (hleaves.get?_eq (show "type" ∉ ["body", "params", "left"] by decide)),
    h.plainKind_eq, hleaves.isCreateReactClassCall_eq, h.isCreateReactClassCall_eq]

/-! ## What is seen from above -/

/-- **What has become of a node came from it.** -/
theorem Passed.came (h : Passed D p o R site n n' mark) (hn : n.isNode = true) : Came n n' := by
  obtain ⟨m, c, henters, hchildren, hleaves⟩ := h.passes
  have htype := hleaves.get?_eq (show "type" ∉ ["body", "params", "left"] by decide)
  have hnode : n'.isNode = true := by
    rw [isNode_congr htype, hchildren.isNode_eq, henters.isNode hn]
  refine ⟨hnode, ?_, ?_, fun hruleless => ?_⟩
  · refine .of_isNode hn hnode ?_
    have hname : n'.namesReactClass = c.namesReactClass := by
      simp only [Json.namesReactClass, Json.hasText, htype,
        hleaves.get?_eq (show "name" ∉ ["body", "params", "left"] by decide)]
    rw [hname, hchildren.namesReactClass_eq, (henters.looks hn).namesReactClass_eq]
  · rw [plainKind_congr htype, hchildren.plainKind_eq]
    exact henters.kind
  · obtain ⟨rfl, -⟩ := henters.eq_of_ruleless hruleless.1
    have hrule : leaveRule? c.kind = none := by
      rw [leaveRule?_kind, hchildren.plainKind_eq, ← leaveRule?_kind]
      exact hruleless.2
    obtain rfl := hleaves.eq_of_ruleless hrule
    exact ⟨fun key hkey => hchildren.get?_looks hkey, fun key hkey => hchildren.get?_metadata hkey⟩

/-! ## The walk -/

/-- What came of a node that was visited. -/
structure VisitedTo (R : Site → Json → Json → Bool → Prop) (site : Site)
    (n : Json) (w : Walked Json) :
    Prop where
  walked : ∃ mark, w.parentFields = markers mark ∧ R site n w.present mark ∧
    (mark = true → site.isParam = true)
  came : Came n w.present

/-- Fields that are markers, for a parent of which a condition holds. -/
def Marks (condition : Prop) (fields : Entries) : Prop :=
  ∀ field ∈ fields, field = ("optional", .bool true) ∧ condition

/-- No field marks nothing. -/
theorem Marks.nil {condition : Prop} : Marks condition [] := nofun

/-- Fields mark what any of them marks. -/
theorem Marks.append {condition : Prop} {fields fields' : Entries} (h : Marks condition fields)
    (h' : Marks condition fields') : Marks condition (fields ++ fields') :=
  List.forall_mem_append.2 ⟨h, h'⟩

/-- The last value that is set under a key stays. -/
theorem set_set (l : Entries) (key : String) (v : Json) :
    Entries.set (Entries.set l key v) key v = Entries.set l key v := by
  induction l with
  | nil => simp [Entries.set]
  | cons entry rest ih =>
    obtain ⟨k, w⟩ := entry
    by_cases hk : k = key <;> simp [Entries.set, hk, ih]

/-- A marker that is given more than once is one marker. -/
theorem Marks.setAll_eq {condition : Prop} {fields : Entries} (h : Marks condition fields)
    (l : Entries) : Entries.setAll l fields = Entries.setAll l (markers !fields.isEmpty) := by
  induction fields generalizing l with
  | nil => rfl
  | cons field rest ih =>
    rw [Marks, List.forall_mem_cons] at h
    obtain ⟨⟨rfl, -⟩, hrest⟩ := h
    have hcons : Entries.setAll l (("optional", .bool true) :: rest) =
        Entries.setAll (Entries.set l "optional" (.bool true)) rest := rfl
    rw [hcons, ih hrest]
    cases rest with
    | nil => rfl
    | cons => exact set_set l _ _

/-- What is due for a list is due for its items. -/
theorem Due.items {k : Nat} {items : List Json} (h : Due D (Everywhere p) k (.arr items)) :
    ∀ item ∈ items, Due D (Everywhere p) k item := by
  intro item hitem
  cases h with
  | source nesting source =>
    have hle : item.nesting ≤ (Json.arr items).nesting :=
      Json.nestingItems_le_iff.1 (Nat.le_refl _) item hitem
    exact .source (by omega) (Json.everywhere_of_mem source hitem)
  | leaf _ scalar =>
    rw [show items = [] from scalar] at hitem
    cases hitem
  | arr hitems => exact hitems item hitem

section
variable {visit : Place → Json → Rewrite (Walked Json)} {k : Nat}
  (hvisit : ∀ place n, n.isNode = true → Due D (Everywhere p) k n →
    (visit place n).Yields (VisitedTo R (siteAt place n) n))

/-- What has become of some items, and the fields that they gave. -/
structure ItemsVisited (R : Site → Json → Json → Bool → Prop) (site : Site) (condition : Prop)
    (items : List Json) (w : Walked (List Json)) : Prop where
  items : List.Forall₂ (ItemWalked R site (w.parentFields ≠ [])) items w.present
  marks : Marks condition w.parentFields

/-- What has become of some entries, and the fields that they gave. -/
structure EntriesVisited (R : Site → Json → Json → Bool → Prop) (site : Site) (condition : Prop)
    (entries : Entries) (w : Walked Entries) : Prop where
  entries : entries.Rel (EntryWalked R site (w.parentFields ≠ [])) w.present
  marks : Marks condition w.parentFields

/-- A child that was visited is an item that was walked, and marks its parent only if it
may. -/
theorem marks_of_visited {condition : Prop} {v : Json} {w : Walked Json}
    (h : VisitedTo R site v w) (hn : v.isNode = true) (hname : site.isParam = true → condition) :
    ItemWalked R site (w.parentFields ≠ []) v w.present ∧ Marks condition w.parentFields := by
  obtain ⟨mark, hfields, hR, hmark⟩ := h.walked
  rw [hfields]
  cases mark with
  | false => exact ⟨.node hn hR h.came nofun, .nil⟩
  | true =>
    refine ⟨.node hn hR h.came fun _ => List.cons_ne_nil _ _, ?_⟩
    exact List.forall_mem_singleton.2 ⟨rfl, hname (hmark rfl)⟩

include hvisit in
/-- The items of a list: at each place the site is the same. -/
theorem walkItems_visited {frame : List Json → List Json → Frame} {up : Place} {condition : Prop}
    {items : List Json} (hname : site.isParam = true → condition)
    (hframe : ∀ left item right, left.length + (right.length + 1) = items.length →
      siteAt (frame left right :: up) item = site)
    (hdue : ∀ item ∈ items, Due D (Everywhere p) k item) :
    ∀ (done : Walked (List Json)) (before rest : List Json), before ++ rest = items →
      ItemsVisited R site condition before done →
      (Syntax.walkItems visit frame up done rest).Yields (ItemsVisited R site condition items) := by
  intro done before rest
  induction rest generalizing done before with
  | nil =>
    rintro rfl hdone
    rw [List.append_nil]
    exact .pure hdone
  | cons item rest ih =>
    intro hsplit hdone
    have next (w : Walked Json) (hitem : ItemWalked R site (w.parentFields ≠ []) item w.present)
        (hw : Marks condition w.parentFields) :
        (Syntax.walkItems visit frame up (done.snoc w) rest).Yields
          (ItemsVisited R site condition items) := by
      refine ih (done.snoc w) (before ++ [item]) (by simpa using hsplit) ⟨?_, hdone.marks.append hw⟩
      have hfields : (done.snoc w).parentFields = done.parentFields ++ w.parentFields := rfl
      rw [hfields]
      exact List.rel_append
        (hdone.items.imp fun _ _ h => h.mono fun h => List.append_ne_nil_of_left_ne_nil h _)
        (.cons (hitem.mono fun h => List.append_ne_nil_of_right_ne_nil _ h) .nil)
    rw [Syntax.walkItems]
    refine .ite (fun hn => ?_) fun hn => .bind (.pure (next (Walked.same item) ?_ .nil))
    · -- what was walked and what is to come make up the whole list
      have hmem : item ∈ items := hsplit ▸ List.mem_append_right _ List.mem_cons_self
      refine .bind ((hvisit _ _ hn (hdue item hmem)).mono fun w hw => ?_)
      rw [hframe] at hw
      · obtain ⟨hitem, hmarks⟩ := marks_of_visited hw hn hname
        exact next w hitem hmarks
      · rw [← hdone.items.length_eq, ← hsplit]
        simp
    · exact .leaf (by simpa using hn)

include hvisit in
/-- The value of an entry. -/
theorem walkEntry_visited {up : Place} {before after : Entries} {key : String} {condition : Prop}
    {v : Json} (hname : site.isParam = true → condition)
    (hsite : ∀ (f : Frame) (child v' : Json), Looks v v' →
      f.fill child = .obj (before ++ (key, v') :: after) → siteAt (f :: up) child = site)
    (hdue : Due D (Everywhere p) k v) :
    (Syntax.walkEntry visit up before key after v).Yields fun w =>
      ValueWalked R site (w.parentFields ≠ []) v w.present ∧ Marks condition w.parentFields := by
  have single (hn : v.isNode = true) :
      (visit (⟨before, key, none, after⟩ :: up) v).Yields fun w =>
        ValueWalked R site (w.parentFields ≠ []) v w.present ∧ Marks condition w.parentFields := by
    refine (hvisit _ _ hn hdue).mono fun w hw => ?_
    rw [hsite ⟨before, key, none, after⟩ v v (.refl v) rfl] at hw
    obtain ⟨hitem, hmarks⟩ := marks_of_visited hw hn hname
    refine ⟨.single ?_ hitem, hmarks⟩
    cases v with
    | arr items => cases hn
    | _ => rfl
  cases v with
  | arr items =>
    rw [Syntax.walkEntry]
    refine .bind ((walkItems_visited hvisit hname ?_ hdue.items (Walked.same []) [] items
      rfl ⟨.nil, .nil⟩).mono fun w hw => .pure ⟨.arr hw.items, hw.marks⟩)
    intro left item right hlength
    refine hsite _ _ (.arr (left ++ item :: right)) (.arr ?_) rfl
    have hne : items ≠ [] := by
      rintro rfl
      simp at hlength
    rw [Json.isTrue, Json.isTrue, List.isEmpty_eq_false_iff.2 hne,
      List.isEmpty_eq_false_iff.2 (List.append_ne_nil_of_right_ne_nil _ (List.cons_ne_nil _ _))]
  | _ =>
    rw [Syntax.walkEntry]
    · exact .ite single fun hn => .pure ⟨.single rfl (.leaf (by simpa using hn)), .nil⟩
    · rintro _ ⟨⟩

/-- The annotation of a parameter belongs to a name. -/
theorem name_of_isParam {l : Entries} (h : (site.below (.obj l)).isParam = true) :
    (Json.obj l).plainKind = "Identifier" := by
  rw [Site.isParam, decide_eq_true_iff] at h
  exact Option.some.inj h.1

include hvisit in
/-- The entries of a node that has been entered. -/
theorem walkEntries_visited {place : Place} {l : Entries} (hlooks : Looks n (.obj l))
    (hdue : DueParts D (Everywhere p) k (.obj l)) :
    ∀ (done : Walked Entries) (before rest : Entries), before ++ rest = l →
      EntriesVisited R ((siteAt place n).below (.obj l)) ((Json.obj l).plainKind = "Identifier")
        before done →
      (Syntax.walkEntries visit place done rest).Yields
        (EntriesVisited R ((siteAt place n).below (.obj l))
          ((Json.obj l).plainKind = "Identifier") l) := by
  intro done before rest
  induction rest generalizing done before with
  | nil =>
    rintro rfl hdone
    rw [List.append_nil] at hdone ⊢
    exact .pure hdone
  | cons entry rest ih =>
    obtain ⟨key, v⟩ := entry
    intro hsplit hdone
    have hmem : (key, v) ∈ l := hsplit ▸ List.mem_append_right _ List.mem_cons_self
    have next (w : Walked Json) (hentry : EntryWalked R ((siteAt place n).below (.obj l))
          (done.parentFields ++ w.parentFields ≠ []) key v w.present)
        (hw : Marks ((Json.obj l).plainKind = "Identifier") w.parentFields) :=
      ih (done.snoc (w.under key)) (before ++ [(key, v)]) (by simpa using hsplit)
        ⟨Entries.Rel.append (hdone.entries.mono fun _ _ _ h =>
            h.mono fun h => List.append_ne_nil_of_left_ne_nil h _) (.cons ⟨rfl, hentry⟩ .nil),
          hdone.marks.append hw⟩
    rw [Syntax.walkEntries]
    refine .ite (fun hskip => ?_) fun hwalk => ?_
    · refine .bind (.pure (next (Walked.same v) (.skipped ?_) .nil))
      rw [Bool.or_eq_true, List.contains_iff_mem] at hskip
      refine hskip.imp_right fun hgiven => ?_
      -- what a child has given is a marker
      obtain ⟨field, hfield, hkey⟩ := List.any_eq_true.1 hgiven
      obtain ⟨rfl, -⟩ := hdone.marks field hfield
      exact ⟨(of_decide_eq_true hkey).symm,
        List.append_ne_nil_of_left_ne_nil (List.ne_nil_of_mem hfield) _⟩
    · have hmeta : key ∉ Json.metadataKeys := by
        intro hmem
        simp [hmem] at hwalk
      refine .bind ((walkEntry_visited hvisit name_of_isParam ?_ (hdue _ hmem hmeta)).mono
        fun w hw => next w (.walked hmeta (hw.1.mono ?_)) hw.2)
      · -- the parent that the child sees is the node with some entries walked
        intro f child v' hv' hfill
        refine siteAt_cons hlooks hfill ?_
        rw [← hsplit]
        exact fill_rel (hdone.entries.mono fun _ _ _ h => h.looks) hv'
      · exact fun h => List.append_ne_nil_of_right_ne_nil _ h

include hvisit in
/-- The children of a node that has been entered. -/
theorem walkChildren_visited {place : Place} (hm : m.isNode = true) (hlooks : Looks n m)
    (hdue : DueParts D (Everywhere p) k m) :
    (Syntax.walkChildren visit place m).Yields fun w =>
      ChildrenWalked R (siteAt place n) m w.present := by
  obtain ⟨l, rfl⟩ := exists_obj_of_isObject (isObject_of_isNode hm)
  rw [Syntax.walkChildren]
  refine .bind ((walkEntries_visited hvisit hlooks hdue (Walked.same []) [] l rfl
    ⟨.nil, .nil⟩).mono fun w hw => .pure ?_)
  have hmarked : (w.parentFields ≠ []) ↔ (!w.parentFields.isEmpty) = true := by simp
  rw [Walked.object, hw.marks.setAll_eq]
  refine .intro _ (hw.entries.mono fun _ _ _ h => h.mono hmarked.1) fun h => ?_
  obtain ⟨field, hfield⟩ := List.exists_mem_of_ne_nil _ (hmarked.2 h)
  exact (hw.marks field hfield).2

end

/-- What is known of a node that is due to be walked: what its keys are, and
what its parts are due. -/
theorem Due.visited {k : Nat} (hD : D → ∀ l, p (.obj l) = true → (l.map (·.1)).Nodup)
    (h : Due D (Everywhere p) (k + 1) n) (hn : n.isNode = true) :
    (D → ((entriesOf n).map (·.1)).Nodup) ∧ DueParts D (Everywhere p) k n ∧
      (Ruleless n.kind ∨ n.everywhere p = true ∧ 8 * n.nesting + 4 ≤ k + 1) := by
  cases h with
  | source nesting source =>
    refine ⟨fun d => ?_, (DueParts.source source).mono (by omega), .inr ⟨source, nesting⟩⟩
    obtain ⟨l, rfl⟩ := exists_obj_of_isObject (isObject_of_isNode hn)
    exact hD d l (Json.everywhere_self source)
  | leaf single =>
    rw [hn] at single
    cases single
  | arr => cases hn
  | fresh kind keys _ parts => exact ⟨keys, parts, .inl kind⟩

/-- **What a visitor makes of a node on the way down.** -/
theorem enter_visited {k : Nat} {place : Place}
    (hD : D → ∀ l, p (.obj l) = true → (l.map (·.1)).Nodup) (hn : n.isNode = true)
    (hdue : Due D (Everywhere p) (k + 1) n) :
    ((rewriter o).enter place n).Yields fun visit => ∃ mark,
      Enters D p o (siteAt place n) n visit.node mark ∧ visit.parentFields = markers mark ∧
        DueParts D (Everywhere p) k visit.node := by
  obtain ⟨hkeys, hparts, hsource⟩ := hdue.visited hD hn
  rw [rewriter]
  dsimp only
  split
  next rule hrule =>
    obtain ⟨hsource, hnesting⟩ := hsource.resolve_left fun h => by rw [h.1] at hrule; cases hrule
    cases hkeeps : rule.keepsPlace with
    | true =>
      refine (applyEnter_yields o place n hkeeps).mono fun visit hvisit => ?_
      obtain ⟨rfl, haccepts⟩ := hvisit
      exact ⟨false, .kept hrule hkeeps hsource haccepts, rfl,
        keptAs_due hD hsource hnesting⟩
    | false =>
      refine (applyEnter_gives (D := D) (k := k) o hkeeps hsource (by omega)).mono
        fun visit hvisit => ?_
      obtain ⟨new, mark, hnode, hfields, hreplaced⟩ := hvisit
      refine ⟨mark, hnode ▸ .replaced hrule hkeeps hsource hreplaced, hfields, ?_⟩
      rw [hnode]
      exact (hreplaced.written.inherit n).parts
  next hrule => exact .pure ⟨false, .free hrule hkeys, rfl, hparts⟩

/-- A field that is read as a list is one. -/
theorem listField_yields (n : Json) (key : String) :
    Result.Yields (n.listField key) fun items => n.get? key = some (.arr items) := by
  intro items hitems
  rw [Json.listField] at hitems
  split at hitems <;> cases hitems
  assumption

/-- **What a visitor makes of a node on the way up.** -/
theorem leave_visited (place : Place) (c : Json) :
    ((rewriter o).leave place c).Yields (Leaves o c) := by
  rw [rewriter]
  dsimp only
  split
  next rule hrule =>
    cases rule with
    | program =>
      refine .bind (.trivial _ fun progress => .ite (fun _ => .pure (.ruled hrule .program))
        fun _ => .bind (.ofResult ((listField_yields c _).mono fun body hbody =>
          .pure (.ruled hrule (.importing hbody)))))
    | function =>
      change (leaveFunction c).Yields _
      rw [leaveFunction]
      split
      next params hparams =>
        exact .bind (.ofResult fun params' h => .pure (.ruled hrule (.function hparams h)))
      next hnone => exact .pure (.ruled hrule (.withoutParams hnone))
    | assignmentPattern => exact .pure (.ruled hrule .pattern)
  next hrule => exact .pure (.free hrule)

/-- A node is due a step at least. -/
theorem Due.not_zero {K : Json → Prop} (hn : n.isNode = true) : ¬Due D K 0 n := by
  intro hdue
  generalize hk : 0 = k at hdue
  cases hdue with
  | source nesting => omega
  | leaf single =>
    rw [hn] at single
    cases single
  | arr => cases hn
  | fresh => cases hk

section
variable {E : Json → Json → Prop}
  (hD : D → ∀ l, p (.obj l) = true → (l.map (·.1)).Nodup)
  (henter : ∀ k place n, n.isNode = true → Due D (Everywhere p) (k + 1) n →
    ((rewriter o).enter place n).Yields fun visit => E n visit.node)
  (hstep : ∀ site n m c n' mark, n.isNode = true → Enters D p o site n m mark → E n m →
    ChildrenWalked R site m c → Leaves o c n' → R site n n' mark)
include hD henter hstep

/-- **What relates every node to what has become of it**, given that it does
where it relates the children, and what else is known of a node that is entered:
a walk whose fuel is enough. -/
theorem walk_passes_over (fuel : Nat) : ∀ (place : Place) (n : Json), n.isNode = true →
    Due D (Everywhere p) fuel n →
    (Syntax.walk (rewriter o) fuel place n).Yields (VisitedTo R (siteAt place n) n) := by
  induction fuel with
  | zero => exact fun _ _ hn hdue => absurd hdue (Due.not_zero hn)
  | succ fuel ih =>
    intro place n hn hdue
    rw [Syntax.walk]
    refine .bind (((enter_visited hD hn hdue).and (henter fuel place n hn hdue)).mono
      fun entered hentered => ?_)
    obtain ⟨⟨mark, henters, hfields, hparts⟩, hover⟩ := hentered
    refine .bind ((walkChildren_visited ih (henters.isNode hn) (henters.looks hn) hparts).mono
      fun inside hinside => ?_)
    refine .bind ((leave_visited place inside.present).mono fun left hleft => .pure ?_)
    have hpassed : Passed D p o R (siteAt place n) n left mark :=
      ⟨entered.node, inside.present, henters, hinside, hleft⟩
    exact ⟨⟨mark, hfields, hstep _ _ _ _ _ _ hn henters hover hinside hleft, henters.mark_isParam⟩,
      hpassed.came hn⟩

/-- **What relates every node to what has become of it** relates a tree to what
it is rewritten to. -/
theorem rewriteTree_passes_over {tree rewritten : Json} {progress : Progress}
    (hroot : tree.kind ∈ rootKinds) (hsource : tree.everywhere p = true)
    (h : rewriteTree o tree = (.ok rewritten, progress)) :
    ∃ mark, R .root tree rewritten mark := by
  have hn := isNode_of_root hroot
  have hdue : Due D (Everywhere p) (walkFuel tree) tree := by
    refine .source ?_ hsource
    have hle := Json.nesting_le_depth tree
    rw [walkFuel]
    omega
  have hwalk : (Syntax.walk (rewriter o) (walkFuel tree) [] tree).Yields fun w =>
      ∃ mark, R .root tree w.present mark := by
    refine (walk_passes_over hD henter hstep _ [] tree hn hdue).mono fun w hw => ?_
    obtain ⟨mark, -, hR, -⟩ := hw.walked
    exact ⟨mark, hR⟩
  exact walkTree_yields_present (P := fun rewritten => ∃ mark, R .root tree rewritten mark) hroot
    hwalk {} rewritten progress h

end

/-- **A walk passes every node**, and so keeps what passing a node keeps. -/
theorem walk_passes (hD : D → ∀ l, p (.obj l) = true → (l.map (·.1)).Nodup)
    (hstep : ∀ site n n' mark, n.isNode = true → Passed D p o R site n n' mark → R site n n' mark)
    (fuel : Nat) (place : Place) (n : Json) (hn : n.isNode = true)
    (hdue : Due D (Everywhere p) fuel n) :
    (Syntax.walk (rewriter o) fuel place n).Yields (VisitedTo R (siteAt place n) n) :=
  walk_passes_over (E := fun _ _ => True) hD (fun _ _ _ _ _ => .trivial _ fun _ => trivial)
    (fun site n m c n' mark hn henters _ hchildren hleaves =>
      hstep site n n' mark hn ⟨m, c, henters, hchildren, hleaves⟩) fuel place n hn hdue

/-- So does the rewriting of a tree. -/
theorem rewriteTree_passes {tree rewritten : Json} {progress : Progress}
    (hD : D → ∀ l, p (.obj l) = true → (l.map (·.1)).Nodup)
    (hstep : ∀ site n n' mark, n.isNode = true → Passed D p o R site n n' mark → R site n n' mark)
    (hroot : tree.kind ∈ rootKinds) (hsource : tree.everywhere p = true)
    (h : rewriteTree o tree = (.ok rewritten, progress)) :
    ∃ mark, R .root tree rewritten mark :=
  rewriteTree_passes_over (E := fun _ _ => True) hD (fun _ _ _ _ _ => .trivial _ fun _ => trivial)
    (fun site n m c n' mark hn henters _ hchildren hleaves =>
      hstep site n n' mark hn ⟨m, c, henters, hchildren, hleaves⟩) hroot hsource h

end

end Retype.Migration
