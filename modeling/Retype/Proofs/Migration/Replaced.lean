import Retype.Proofs.Migration.Entering
import Retype.Proofs.Migration.Kept
/-!
# Nodes that lose their place

The other half of the rules put a new node in the place of one. It is an
annotation, one of the parts that a type may have, a declaration of a type, or
what a cast becomes (`Replaces`). What it holds was written, apart from the
parts that were handed on, so it is due fewer steps than the node was
(`applyEnter_replaces`).
-/

namespace Retype

/-! ## What a node inherits -/

namespace Json

variable {p q : Json → Bool} {n origin : Json} {key : String}

/-- The entries of a node with inherited positions are its own and the inherited ones. -/
theorem mem_entriesOf_inherit {entry : String × Json}
    (h : entry ∈ Migration.entriesOf (inherit origin n)) :
    entry ∈ Migration.entriesOf n ∨
      entry.1 ∈ inheritedKeys ∧ origin.get? entry.1 = some entry.2 := by
  let P (m : Json) : Prop := ∀ entry ∈ Migration.entriesOf m, entry ∈ Migration.entriesOf n ∨
    entry.1 ∈ inheritedKeys ∧ origin.get? entry.1 = some entry.2
  have hP : P (inherit origin n) := by
    refine inherit_induction (fun entry hentry => .inl hentry) ?_
    intro m key v hkey hv hm entry hentry
    cases m with
    | obj l =>
      rcases Entries.mem_set hentry with hentry | rfl
      · exact hm entry hentry
      · exact .inr ⟨hkey, hv⟩
    | _ => cases hentry
  exact hP entry h

/-- Positions inherited make no object. -/
theorem isObject_inherit : (inherit origin n).isObject = n.isObject :=
  inherit_induction (P := fun m => m.isObject = n.isObject) rfl fun m k v _ _ hm => by
    rw [isObject_set, hm]

/-- A node is one level deeper than its parts. -/
theorem nesting_le_iff {l : Entries} {d : Nat} :
    (obj l).nesting ≤ d + 1 ↔ ∀ entry ∈ l, entry.2.nesting ≤ d := by
  rw [nesting, Nat.add_le_add_iff_right, nestingEntries_le_iff]

/-- A node that inherits is as deep as it was, or as the one that it inherits from. -/
theorem nesting_inherit_le {l : Entries} {d : Nat} (hl : (obj l).nesting ≤ d)
    (horigin : origin.nesting ≤ d) : (inherit origin (obj l)).nesting ≤ d := by
  obtain ⟨d, rfl⟩ : ∃ m, d = m + 1 := ⟨d - 1, by rw [nesting] at hl; omega⟩
  obtain ⟨l', hl'⟩ : ∃ l', inherit origin (obj l) = obj l' :=
    Migration.exists_obj_of_isObject isObject_inherit
  rw [hl', nesting_le_iff]
  intro entry hentry
  have hmem : entry ∈ Migration.entriesOf (inherit origin (obj l)) := by rwa [hl']
  rcases mem_entriesOf_inherit hmem with hmem | ⟨-, hget⟩
  · exact nesting_le_iff.1 hl entry hmem
  · have hlt := (Within.of_get? hget).nesting_lt
    omega

/-- A field set within a bound keeps the node within it. -/
theorem nesting_set_le {v : Json} {d : Nat} (hn : n.nesting ≤ d) (hv : v.nesting < d) :
    (n.set key v).nesting ≤ d := by
  obtain ⟨d, rfl⟩ : ∃ m, d = m + 1 := ⟨d - 1, by omega⟩
  cases n with
  | obj l =>
    refine nesting_le_iff.2 fun entry hentry => ?_
    rcases Entries.mem_set hentry with hentry | rfl
    · exact nesting_le_iff.1 hn entry hentry
    · exact Nat.le_of_lt_succ hv
  | _ => exact hn

/-- What holds of a node and of its origin holds of the node with the origin's positions. -/
theorem everywhere_inherit {l : Entries} (hself : q (inherit origin (obj l)) = true)
    (hl : ∀ entry ∈ l, entry.2.everywhere q = true) (horigin : origin.everywhere q = true) :
    (inherit origin (obj l)).everywhere q = true := by
  obtain ⟨l', hl'⟩ : ∃ l', inherit origin (obj l) = obj l' :=
    Migration.exists_obj_of_isObject isObject_inherit
  rw [hl'] at hself ⊢
  refine everywhere_obj_iff.2 ⟨hself, fun entry hentry => ?_⟩
  have hmem : entry ∈ Migration.entriesOf (inherit origin (obj l)) := by rwa [hl']
  rcases mem_entriesOf_inherit hmem with hmem | ⟨-, hget⟩
  · exact hl entry hmem
  · exact everywhere_of_get? horigin hget

end Json

namespace Migration

open Syntax (Place Visit)
open Retype.Flow (Inside)
open TypeScript (node identifier encode annotationNode)

variable {D : Prop} {p : Json → Bool} {k : Nat} {n : Json}

/-! ## Types of the source -/

/-- The key of a property of an object type passes a test throughout. -/
def keyPasses (p : Json → Bool) (n : Json) : Bool :=
  !n.hasText "type" "ObjectTypeProperty" || (n.get? "key").all (·.everywhere p)

/-- Keys may be read where the condition passes them. -/
theorem keyRule_keyPasses : Flow.KeyRule (Everywhere p) (keyPasses p) := by
  intro n key h hproperty hkey
  have hpass := Json.everywhere_self h
  rw [keyPasses, hproperty, hkey] at hpass
  exact hpass

/-- A condition that holds everywhere passes every key. -/
theorem everywhere_keyPasses {v : Json} (h : v.everywhere p = true) :
    v.everywhere (keyPasses p) = true := by
  refine Json.everywhere_of_everywhere (fun v hv => ?_) h
  rw [keyPasses, Bool.or_eq_true]
  refine .inr ?_
  cases hkey : v.get? "key" with
  | none => rfl
  | some key => exact Json.everywhere_of_get? hv hkey

variable (c : TypeContext) (o : FileOptions)

/-- **What a type node becomes is laid within eight times its nesting.** -/
theorem migrateNode_laid (h : n.everywhere (keyPasses p) = true) :
    (migrateNode c n).Yields (Laid (Everywhere p) (8 * n.nesting)) :=
  .bind (.ofResult ((Flow.decodeType_spans c.path keyRule_keyPasses n h).mono fun _ ht =>
    migrate_laid c ht))

/-- A type node is read and then rewritten. -/
theorem migrateNode_read (n : Json) : (migrateNode c n).Yields fun u =>
    ∃ t, Flow.decodeType c.path n = .ok t ∧ (migrate c t).result = .ok u :=
  .bind (.ofResult fun t ht => fun _ hu => ⟨t, ht, hu⟩)

/-- The types inside a node become what is laid within its bound. -/
theorem Inside.becomes {ts : List FlowType} (h : Inside (Everywhere p) n ts)
    (hk : 8 * n.nesting ≤ k + 8) : Becomes c (Everywhere p) k ts := by
  intro t ht
  obtain ⟨d, hd, hspans⟩ := h t ht
  exact (migrate_laid c hspans).mono fun u hu => hu.mono (by omega)

/-- A node of a kind that was written. -/
structure WrittenAs (kind : String) (D : Prop) (p : Json → Bool) (k : Nat) (new : Json) : Prop where
  type : new.get? "type" = some (.str kind)
  written : Written D (Everywhere p) k new

/-- Type arguments are written anew. -/
theorem migrateArgsNode_written (h : n.everywhere p = true) (hk : 8 * n.nesting ≤ k + 8) :
    (migrateArgsNode o n).Yields (WrittenAs "TSTypeParameterInstantiation" D p k) := by
  refine .bind (.ofResult ((Flow.decodeArgs_inside o.path keyRule_keyPasses n
    (everywhere_keyPasses h)).mono fun args hargs => ?_))
  refine .bind (.ofRecorded ((migrateArgs_each o.types (Inside.becomes _ hargs hk)).mono
    fun as has => .pure ⟨?_, Due.writtenArgs fun u hu => (has u hu).due⟩))
  obtain ⟨origin, params⟩ := as
  exact get?_type_inheritOption origin _ _

/-- So are type parameters. -/
theorem migrateTypeParamsNode_written (h : n.everywhere p = true) (hk : 8 * n.nesting < k) :
    (migrateTypeParamsNode o n).Yields (WrittenAs "TSTypeParameterDeclaration" D p k) := by
  refine .bind (.ofResult ((Flow.decodeTypeParams_inside o.path keyRule_keyPasses n
    (everywhere_keyPasses h)).mono fun params hparams => ?_))
  refine .bind (.ofRecorded ((migrateTypeParams_each o.types
    (Inside.becomes (k := 8 * n.nesting - 8) _ hparams (by omega))).mono
      fun ps hps => .pure ⟨?_, ?_⟩))
  · obtain ⟨origin, params⟩ := ps
    exact get?_type_inheritOption origin _ _
  · exact (Due.writtenTypeParams fun u hu => (hps u hu).due).mono (by omega)

/-- The type parameters of a declaration, or nothing. -/
theorem declaredTypeParams_due (h : n.everywhere p = true) (hk : 8 * n.nesting ≤ k) :
    (declaredTypeParams o n).Yields (Due D (Everywhere p) k) := by
  rw [declaredTypeParams]
  split
  next params hparams =>
    have hwithin := Json.Within.of_get? (Location.eq_of_objectAt? hparams)
    have hlt := hwithin.nesting_lt
    obtain ⟨k, rfl⟩ : ∃ j, k = j + 1 := ⟨k - 1, by omega⟩
    exact (migrateTypeParamsNode_written o (hwithin.everywhere h) (by omega)).mono
      fun _ hnew => hnew.written.due
  next => exact .pure .null

/-- So is a heritage clause. -/
theorem migrateHeritage_written (h : n.everywhere p = true) (hk : 8 * n.nesting ≤ k) :
    (migrateHeritage o n).Yields (WrittenAs "TSExpressionWithTypeArguments" D p k) := by
  refine .bind (.ofResult ((field_yields n "id").mono fun id hid => ?_))
  refine .bind (.ofResult ((Flow.decodeEntity_height o.path id).mono fun e he => ?_))
  have hlt := (Json.Within.of_get? hid).nesting_lt
  have hname : Due D (Everywhere p) k (TypeScript.encodeEntity (migrateEntity e)) :=
    (Due.entity _).mono (by rw [migrateEntity_height]; omega)
  have hnew (args : Json) (hargs : Due D (Everywhere p) k args) :
      WrittenAs "TSExpressionWithTypeArguments" D p k
        (Json.inherit n (node "TSExpressionWithTypeArguments"
          [("expression", TypeScript.encodeEntity (migrateEntity e)), ("typeParameters", args)])) :=
    ⟨get?_type_inheritOption (some n) _ _,
      (Written.node (List.forall_mem_cons.2 ⟨hname, List.forall_mem_singleton.2 hargs⟩) (by decide)
        (by simp)).inherit n⟩
  split
  next args hargs =>
    have hwithin := Json.Within.of_get? (Location.eq_of_objectAt? hargs)
    have hlt := hwithin.nesting_lt
    refine .bind
      ((migrateArgsNode_written (D := D) (k := k - 1) o (hwithin.everywhere h) (by omega)).mono
      fun args hargs => .pure (hnew args ?_))
    exact hargs.written.due.mono (by omega)
  next => exact .bind (.pure (.pure (hnew .null .null)))

/-! ## Declarations -/

/-- A field that must be there is the one that is read. -/
theorem anyField_yields (n : Json) (key : String) :
    Result.Yields (n.anyField key) fun v => n.get? key = some v := by
  intro v hv
  rw [Json.anyField] at hv
  split at hv <;> cases hv
  assumption

/-- A type alias is written as a declaration. -/
theorem migrateAlias_written (key : String) (h : n.everywhere p = true) (hk : 8 * n.nesting ≤ k) :
    (migrateAlias o key n).Yields (WrittenAs "TSTypeAliasDeclaration" D p k) := by
  refine .bind (.ofResult ((field_yields n key).mono fun type htype => ?_))
  refine .bind (.ofResult ((anyField_yields n "id").mono fun id hid => ?_))
  refine .bind ((declaredTypeParams_due (D := D) o h hk).mono fun params hparams => ?_)
  have htype := Json.Within.of_get? htype
  have hid := Json.Within.of_get? hid
  have hlt := htype.nesting_lt
  have hlt' := hid.nesting_lt
  have hlaid := migrateNode_laid o.types (everywhere_keyPasses (htype.everywhere h))
  refine .bind
    (.ofRecorded
      (hlaid.mono fun t ht => .pure ⟨get?_type_node _ _, .node ?_ (by decide) (by simp)⟩))
  simp only [List.forall_mem_cons]
  exact ⟨.source (by omega) (hid.everywhere h), hparams, ht.due.mono (by omega), nofun⟩

/-- An item of a list stands within the node. -/
theorem within_of_itemsAt {key : String} {item : Json} (h : item ∈ n.itemsAt key) :
    item.Within n := by
  rw [Json.itemsAt] at h
  split at h
  next v hv =>
    cases v with
    | arr items => exact .of_item hv h
    | _ => cases h
  next => cases h

/-- The body of an interface is due. -/
theorem migrateInterfaceBody_due (h : n.everywhere p = true) (hk : 8 * n.nesting + 1 ≤ k) :
    (migrateInterfaceBody o n).Yields (Due D (Everywhere p) k) := by
  have hlaid := migrateNode_laid o.types (everywhere_keyPasses h)
  refine .bind (.ofRecorded (hlaid.mono fun t ht => ?_))
  split
  next origin members =>
    refine .pure (Due.mono (Written.due (.inherit (.node ?_ (by decide) (by simp)) n)) hk)
    exact List.forall_mem_singleton.2 (.arr (Due.members ht.members_due))
  next => exact .refuse _

/-- An interface is written as a declaration. -/
theorem migrateInterface_written (h : n.everywhere p = true) (hk : 8 * n.nesting ≤ k) :
    (migrateInterface o n).Yields (WrittenAs "TSInterfaceDeclaration" D p k) := by
  refine .ite (fun _ => .bind (.refuse _)) fun _ => .ite (fun _ => .bind (.refuse _)) fun _ => ?_
  refine .bind (.ofResult ((field_yields n "body").mono fun body hbody => ?_))
  have hbody := Json.Within.of_get? hbody
  have hlt := hbody.nesting_lt
  refine .bind ((migrateInterfaceBody_due (D := D) (k := k) o (hbody.everywhere h) (by omega)).mono
    fun body hbody => ?_)
  have hitems : ∀ item ∈ n.itemsAt "extends",
      (migrateHeritage o item).Yields (Due D (Everywhere p) k) := by
    intro item hitem
    have hwithin := within_of_itemsAt hitem
    have hlt := hwithin.nesting_lt
    exact (migrateHeritage_written (k := k - 1) o (hwithin.everywhere h) (by omega)).mono
      fun _ hnew => hnew.written.due.mono (by omega)
  refine .bind ((Rewrite.Yields.mapM hitems).mono fun heritage hheritage => ?_)
  refine .bind (.ofResult ((anyField_yields n "id").mono fun id hid => ?_))
  refine .bind ((declaredTypeParams_due (D := D) o h hk).mono fun params hparams => ?_)
  have hid := Json.Within.of_get? hid
  have hlt' := hid.nesting_lt
  have hextends : Due D (Everywhere p) k (if heritage.isEmpty then .null else .arr heritage) := by
    split
    · exact .null
    · exact .arr hheritage
  refine .pure ⟨get?_type_node _ _, .node ?_ (by decide) (by simp)⟩
  simp only [List.forall_mem_cons]
  exact ⟨.source (by omega) (hid.everywhere h), hparams, hextends, hbody, nofun⟩

/-! ## Annotations -/

/-- What an annotation at a site is rewritten from: the type that makes its
parameter optional, if there is one, and else its own. -/
def ParamType (site : Site) (type : Json) (optional : Option Json) : Prop :=
  if site.isParam then optionalParamType? type = .ok optional else optional = none

/-- Keys pass in every node but a property. -/
theorem keyPasses_of_hasText {kind : String} (h : n.hasText "type" kind = true)
    (hkind : kind ≠ "ObjectTypeProperty") : keyPasses p n = true := by
  rw [keyPasses, hasText_of_kind (get?_of_hasText h)]
  simp [hkind]

/-- A type with another list of types. -/
theorem everywhere_set {type v : Json} {kind : String} {key : String}
    (hkind : type.hasText "type" kind = true)
    (hne : kind ≠ "ObjectTypeProperty") (hkey : key ≠ "type")
    (h : type.everywhere (keyPasses p) = true) (hv : v.everywhere (keyPasses p) = true) :
    (type.set key v).everywhere (keyPasses p) = true := by
  obtain ⟨l, rfl⟩ := Json.exists_obj_of_get? (get?_of_hasText hkind)
  refine Json.everywhere_obj_iff.2 ⟨keyPasses_of_hasText ?_ hne, fun entry hentry => ?_⟩
  · exact (Json.hasText_congr (Json.get?_set_ne hkey.symm v) _).trans hkind
  · rcases Entries.mem_set hentry with hentry | rfl
    · exact Json.everywhere_of_entry h hentry
    · exact hv

/-- The type that makes a parameter optional has the keys of the type before,
and is one level deeper at most. -/
theorem optionalParamType?_yields {type : Json} (h : type.everywhere (keyPasses p) = true) :
    Result.Yields (optionalParamType? type) fun optional => ∀ type', optional = some type' →
      type'.everywhere (keyPasses p) = true ∧ type'.nesting ≤ type.nesting + 1 := by
  rw [optionalParamType?]
  refine .ite (fun _ => ?_) fun _ => .ite (fun hunion => ?_) fun _ => .ok nofun
  · -- a new union of the type that may be null, and null
    refine .bind ((anyField_yields type _).mono fun inner hinner => .pure ?_)
    rintro _ ⟨⟩
    have hwithin := Json.Within.of_get? hinner
    have hlt := hwithin.nesting_lt
    have hnull : (node "NullLiteralTypeAnnotation" []).everywhere (keyPasses p) = true := rfl
    refine ⟨Json.everywhere_inherit ?_ ?_ h, Json.nesting_inherit_le ?_ (Nat.le_succ _)⟩
    · refine keyPasses_of_hasText (?_ : Json.hasText _ "type" "UnionTypeAnnotation" = true)
        (by decide)
      exact Json.hasText_congr (Json.get?_inherit_ne (by decide)) _
    · simp only [List.forall_mem_cons]
      exact ⟨rfl, Json.everywhere_arr_iff.2 ⟨rfl, List.forall_mem_cons.2
        ⟨hwithin.everywhere h, List.forall_mem_singleton.2 hnull⟩⟩, nofun⟩
    · simp only [Json.nesting_le_iff, List.forall_mem_cons]
      refine ⟨Nat.zero_le _, Json.nestingItems_le_iff.2 (List.forall_mem_cons.2
        ⟨Nat.le_of_lt hlt, List.forall_mem_singleton.2 ?_⟩), nofun⟩
      exact Nat.le_trans (by decide) (Nat.succ_le_of_lt (Nat.zero_lt_of_lt hlt))
  · -- the types that are left of a union
    extract_lets types remaining
    have hitems : ∀ t ∈ remaining, t.Within type := fun t ht =>
      within_of_itemsAt (List.mem_of_mem_filter ht)
    clear_value remaining
    refine .ite (fun _ => .pure nofun) fun _ => ?_
    match remaining, hitems with
    | [], _ => exact .pure nofun
    | [t], hitems =>
      refine .pure ?_
      rintro _ ⟨⟩
      have hwithin := hitems t List.mem_cons_self
      have hlt := hwithin.nesting_lt
      exact ⟨hwithin.everywhere h, by omega⟩
    | t :: u :: rest, hitems =>
      refine .pure ?_
      rintro _ ⟨⟩
      refine ⟨everywhere_set hunion (by decide) (by decide) h (Json.everywhere_arr_iff.2
        ⟨rfl, fun t ht => (hitems t ht).everywhere h⟩), ?_⟩
      refine Nat.le_succ_of_le (Json.nesting_set_le (Nat.le_refl _) ?_)
      have hpos := (hitems t List.mem_cons_self).nesting_lt
      have hle : Json.nestingItems (t :: u :: rest) ≤ type.nesting - 1 :=
        Json.nestingItems_le_iff.2 fun t ht => Nat.le_sub_one_of_lt (hitems t ht).nesting_lt
      rw [Json.nesting]
      omega

/-! ## What takes the place of a node -/

/-- The expression that is left of a cast: its own, or that of the cast inside
it. -/
inductive CastOf (n : Json) : Json → Prop
  | once {expression : Json} (field : n.get? "expression" = some expression) : CastOf n expression
  | twice {inner expression : Json} (field : n.get? "expression" = some inner)
      (cast : inner.hasText "type" "TypeCastExpression" = true)
      (inside : inner.get? "expression" = some expression) : CastOf n expression

/-- What a cast of an expression may become. -/
inductive CastAs (o : FileOptions) (expression : Json) : Json → Prop
  | asserted (type : Json) : CastAs o expression (asExpression expression type)
  | twice (inner type : Json) :
      CastAs o expression (asExpression (asExpression expression inner) type)
  | called (type : Json) : CastAs o expression (safeCastCall o.utilsBinding expression type)

/-- The kinds of the nodes that parts of types and declarations become. -/
def partKinds : List (EnterRule × String) :=
  [(.typeParams, "TSTypeParameterDeclaration"), (.typeArgs, "TSTypeParameterInstantiation"),
    (.implementsClause, "TSExpressionWithTypeArguments"), (.typeAlias, "TSTypeAliasDeclaration"),
    (.opaqueType, "TSTypeAliasDeclaration"), (.interfaceDeclaration, "TSInterfaceDeclaration")]

/-- What takes the place of a node at a site, and whether it makes the parent
optional. -/
inductive Replaces (o : FileOptions) (site : Site) (n : Json) : EnterRule → Json → Bool → Prop
  | annotated {type : Json} {optional : Option Json} {t : FlowType} {u : TsType}
      (field : n.get? "typeAnnotation" = some type) (param : ParamType site type optional)
      (read : Flow.decodeType o.path (optional.getD type) = .ok t)
      (rewritten : (migrate o.types t).result = .ok u) :
      Replaces o site n .annotated (annotationNode (encode u)) optional.isSome
  | part {rule : EnterRule} {kind : String} {new : Json} (part : (rule, kind) ∈ partKinds)
      (type : new.get? "type" = some (.str kind)) : Replaces o site n rule new false
  | cast {expression new : Json} (of : CastOf n expression) (as : CastAs o expression new) :
      Replaces o site n .typeCast new false

/-- The marker that a child may give its parent. -/
def markers (mark : Bool) : Entries := if mark then [("optional", .bool true)] else []

/-- What is known of a node that lost its place: what took it, which was
written, and inherited what it could. -/
structure Replaced (D : Prop) (p : Json → Bool) (k : Nat) (o : FileOptions) (site : Site)
    (n : Json) (rule : EnterRule) (mark : Bool) (new : Json) : Prop where
  replaces : Replaces o site n rule new mark
  written : Written D (Everywhere p) k new

/-- What a rule gives that puts another node in the place of one. -/
def GivesPlace (D : Prop) (p : Json → Bool) (k : Nat) (o : FileOptions) (site : Site) (n : Json)
    (rule : EnterRule) (visit : Visit) : Prop :=
  ∃ new mark, visit.node = Json.inherit n new ∧ visit.parentFields = markers mark ∧
    Replaced D p k o site n rule mark new

/-- A rule that puts a written node in a place gives the place to it. -/
theorem GivesPlace.of_replaceBy {site : Site} {rule : EnterRule} {rewrite : Json → Rewrite Json}
    (slots : List Json.Route) (handed : List Syntax.Handover)
    (h : (rewrite n).Yields (Replaced D p k o site n rule false)) :
    (replaceBy rewrite slots handed n).Yields (GivesPlace D p k o site n rule) := by
  refine (replaceBy_yields slots handed h).mono fun visit hvisit => ?_
  obtain ⟨new, hnew, hnode, hfields⟩ := hvisit
  exact ⟨new, false, hnode, hfields, hnew⟩

/-! ## Annotations -/

/-- An annotation is replaced, and its parameter marked when it should be. -/
theorem migrateAnnotationNode_replaced {site : Site} (h : n.everywhere p = true)
    (hk : 8 * n.nesting ≤ k) :
    (migrateAnnotationNode o site.isParam n).Yields fun new => ∃ mark,
      Replaced D p k o site n .annotated mark new ∧
        if site.isParam then makesOptional n = .ok mark else mark = false := by
  refine .bind (.ofResult fun type hfield => ?_)
  have htype := field_yields n _ type hfield
  have hwithin := Json.Within.of_get? htype
  have hlt := hwithin.nesting_lt
  have hkeys := everywhere_keyPasses (hwithin.everywhere h)
  have hnew (optional : Option Json) (hparam : ParamType site type optional)
      (hinside : (optional.getD type).everywhere (keyPasses p) = true)
      (hnesting : (optional.getD type).nesting ≤ type.nesting + 1) :
      (migrateAnnotationOf o (optional.getD type)).Yields
        (Replaced D p k o site n .annotated optional.isSome) := by
    refine .bind (.ofRecorded fun u hu => .pure ?_)
    obtain ⟨t, ht, hmigrate⟩ := migrateNode_read o.types _ u hu
    have hdue := (migrateNode_laid o.types hinside u hu).due (D := D)
    refine ⟨.annotated htype hparam ht hmigrate, .node (List.forall_mem_singleton.2 ?_)
      (by decide) (by simp)⟩
    exact hdue.mono (by omega)
  cases hparam : site.isParam with
  | false =>
    refine .bind (.pure ((hnew none ?_ hkeys (Nat.le_succ _)).mono fun new h => ⟨false, h, rfl⟩))
    simp [ParamType, hparam]
  | true =>
    refine .bind (.ofResult fun optional hoptional => ?_)
    have hinside := optionalParamType?_yields hkeys optional hoptional
    refine (hnew optional ?_ ?_ ?_).mono fun new h => ⟨_, h, ?_⟩
    · simpa [ParamType, hparam] using hoptional
    · cases optional with
      | none => exact hkeys
      | some type' => exact (hinside type' rfl).1
    · cases optional with
      | none => exact Nat.le_succ _
      | some type' => exact (hinside type' rfl).2
    · simp only [if_true, makesOptional, hfield]
      exact congrArg (Option.isSome <$> ·) hoptional

/-- The rule for annotations gives the place to what it writes. -/
theorem enterAnnotationNode_gives {place : Place} (h : n.everywhere p = true)
    (hk : 8 * n.nesting ≤ k) :
    (enterAnnotationNode o place n).Yields (GivesPlace D p k o (siteAt place n) n .annotated) := by
  have hreplaced := @migrateAnnotationNode_replaced D p k n o (siteAt place n) h hk
  unfold enterAnnotationNode
  rw [annotatesParam_eq]
  have hvisit := replaceBy_yields [[.key "typeAnnotation"]] [] hreplaced
  cases hparam : (siteAt place n).isParam with
  | false =>
    simp only [hparam, if_false, Bool.false_eq_true] at hvisit
    refine .bind (.pure (.bind (hvisit.mono fun visit hnew => .pure ?_)))
    obtain ⟨new, ⟨mark, hnew, hmark⟩, hnode, hfields⟩ := hnew
    subst hmark
    exact ⟨new, false, hnode, hfields, hnew⟩
  | true =>
    simp only [hparam, if_true] at hvisit
    refine .bind
      (.ofResult fun isOptional hoptional => .bind (hvisit.mono fun visit hnew => .pure ?_))
    obtain ⟨new, ⟨mark, hnew, hmark⟩, hnode, hfields⟩ := hnew
    obtain rfl : mark = isOptional := Except.ok.inj (hmark.symm.trans hoptional)
    cases mark with
    | true => exact ⟨new, true, hnode, rfl, hnew⟩
    | false => exact ⟨new, false, hnode, hfields, hnew⟩

/-! ## Casts -/

/-- The type of a cast stands two levels inside it. -/
theorem castType_yields (cast : Json) : Result.Yields (castType cast) fun type =>
    type.Within cast ∧ type.nesting + 2 ≤ cast.nesting := by
  refine .bind ((field_yields cast _).mono fun typed htyped => ?_)
  refine (field_yields typed _).mono fun type htype => ?_
  have htyped := Json.Within.of_get? htyped
  have htype := Json.Within.of_get? htype
  have hlt := htyped.nesting_lt
  have hlt' := htype.nesting_lt
  exact ⟨htype.trans htyped, by omega⟩

/-- What it becomes is due within the cast's bound. -/
theorem migrateCastType_due {cast : Json} (h : cast.everywhere p = true)
    (hk : 8 * cast.nesting ≤ k + 16) :
    (migrateCastType c cast).Yields (Due D (Everywhere p) k) := by
  refine .bind (.ofResult ((castType_yields cast).mono fun type htype => ?_))
  have hkeys := everywhere_keyPasses (htype.1.everywhere h)
  refine .bind ((migrateNode_laid c hkeys).mono fun u hu => .pure (hu.due.mono ?_))
  have hle := htype.2
  omega

/-- An `as` expression is written from its expression and its type. -/
theorem asExpression_written {expression type : Json} (h : Due D (Everywhere p) k expression)
    (h' : Due D (Everywhere p) k type) :
    Written D (Everywhere p) k (asExpression expression type) := by
  refine .node ?_ (by decide) (by simp)
  simp only [List.forall_mem_cons]
  exact ⟨h, h', .leaf rfl rfl, nofun⟩

/-- So is a call of the helper. -/
theorem safeCastCall_written {binding : String} {expression type : Json} (hk : 2 ≤ k)
    (h : Due D (Everywhere p) k expression) (h' : Due D (Everywhere p) (k - 1) type) :
    Written D (Everywhere p) k (safeCastCall binding expression type) := by
  have hcallee : Due D (Everywhere p) 2 (node "MemberExpression"
      [("object", identifier binding []), ("property", identifier "cast" []),
        ("computed", .bool false)]) := by
    refine .node ?_ (by decide) (by simp)
    simp only [List.forall_mem_cons]
    exact ⟨.name binding none, .name "cast" none, .bool _, nofun⟩
  have htypes : Due D (Everywhere p) (k - 1 + 1)
      (node "TSTypeParameterInstantiation" [("params", .arr [type])]) :=
    .node (List.forall_mem_singleton.2 (.arr (List.forall_mem_singleton.2 h'))) (by decide)
      (by simp)
  refine .node ?_ (by decide) (by simp)
  simp only [List.forall_mem_cons]
  exact ⟨hcallee.mono hk, .arr (List.forall_mem_singleton.2 h), htypes.mono (by omega), nofun⟩

/-- **Whatever a cast becomes, it is one around the expression.** -/
theorem rewriteCast_replaced {site : Site} {keepsInner : Bool} {strategy : CastStrategy}
    (h : n.everywhere p = true) (hk : 8 * n.nesting ≤ k)
    (hstrategy : selectStrategy n = .ok strategy) :
    (rewriteCast o.types o.utilsBinding keepsInner n strategy).Yields
      (Replaced D p k o site n .typeCast false) := by
  have hfield := field_yields n "expression"
  have hdue {expression : Json} (hget : n.get? "expression" = some expression) :
      Due D (Everywhere p) k expression := by
    have hwithin := Json.Within.of_get? hget
    have hlt := hwithin.nesting_lt
    exact .source (by omega) (hwithin.everywhere h)
  have htype := migrateCastType_due (D := D) (k := k) o.types h (by omega)
  cases strategy with
  | nestedUnsound =>
    rw [rewriteCast]
    refine .bind (.ofResult (hfield.mono fun inner hinner => ?_))
    have hcast := selectStrategy_nested hinner _ hstrategy rfl
    have hwithin := Json.Within.of_get? hinner
    have hlt := hwithin.nesting_lt
    refine .bind
      (.ofResult ((field_yields inner "expression").mono fun expression hexpression => ?_))
    have hof : CastOf n expression := .twice hinner (by simp [Json.hasText, hcast]) hexpression
    have hlt' := (Json.Within.of_get? hexpression).nesting_lt
    have hexpression : Due D (Everywhere p) (k - 1) expression :=
      .source (by omega) ((Json.Within.of_get? hexpression).everywhere (hwithin.everywhere h))
    refine .bind (htype.mono fun target htarget => .ite (fun _ => ?_) fun _ => ?_)
    · refine .bind ((migrateCastType_due (D := D) (k := k - 1) o.types (hwithin.everywhere h)
        (by omega)).mono fun type htype => .pure ⟨.cast hof (.twice _ _), ?_⟩)
      exact asExpression_written
        ((asExpression_written hexpression htype).due.mono (by omega)) htarget
    · exact .pure ⟨.cast hof (.asserted _),
        asExpression_written (hexpression.mono (Nat.sub_le k 1)) htarget⟩
  | unsound | structuralLiteral =>
    rw [rewriteCast]
    refine .bind (.ofResult (hfield.mono fun expression hget => .bind (htype.mono
      fun type htype => .pure ⟨.cast (.once hget) (.asserted _), ?_⟩)))
    exact asExpression_written (hdue hget) htype
  | constLiteral =>
    rw [rewriteCast]
    refine .bind (.ofResult (hfield.mono fun expression hget =>
      .pure ⟨.cast (.once hget) (.asserted _), asExpression_written (hdue hget) ?_⟩))
    have hlt := (Json.Within.of_get? hget).nesting_lt
    refine Due.mono (k := 2) ?_ (by omega)
    exact .node (List.forall_mem_singleton.2 (.name "const" none)) (by decide) (by simp)
  | safeCast =>
    rw [rewriteCast]
    refine .bind (.ofResult (hfield.mono fun expression hget => .bind (.trivial _ fun _ => ?_)))
    have hlt := (Json.Within.of_get? hget).nesting_lt
    refine .bind ((migrateCastType_due (D := D) (k := k - 1) o.types h (by omega)).mono
      fun type htype => .pure ⟨.cast (.once hget) (.called _), ?_⟩)
    exact safeCastCall_written (by omega) (hdue hget) htype

/-- The rule for casts gives the place to what it writes. -/
theorem enterCast_gives {place : Place} (h : n.everywhere p = true) (hk : 8 * n.nesting ≤ k) :
    (enterCast o place n).Yields (GivesPlace D p k o (siteAt place n) n .typeCast) := by
  refine .bind (.ofResult fun strategy hstrategy => ?_)
  refine .bind (Rewrite.Yields.mono (P := GivesPlace D p k o (siteAt place n) n .typeCast)
    (.of_replaceBy o _ _ (.ofRecorded (rewriteCast_replaced o h hk hstrategy)))
    fun visit hvisit => ?_)
  exact .ite (fun _ => .bind (.trivial _ fun _ => .pure hvisit)) fun _ => .pure hvisit

/-! ## All rules -/

/-- **What takes the place of a node**, for every rule that gives it away. -/
theorem applyEnter_gives {place : Place} {rule : EnterRule} (hrule : rule.keepsPlace = false)
    (h : n.everywhere p = true) (hk : 8 * n.nesting < k) :
    (applyEnter o place n rule).Yields (GivesPlace D p k o (siteAt place n) n rule) := by
  have hk' := Nat.le_of_lt hk
  have part {kind : String} {rewrite : Json → Rewrite Json} {rule : EnterRule}
      (slots : List Json.Route) (handed : List Syntax.Handover) (hpart : (rule, kind) ∈ partKinds)
      (hnew : (rewrite n).Yields (WrittenAs kind D p k)) :
      (replaceBy rewrite slots handed n).Yields (GivesPlace D p k o (siteAt place n) n rule) :=
    .of_replaceBy o slots handed (hnew.mono fun new hnew => ⟨.part hpart hnew.type, hnew.written⟩)
  cases rule with
  | annotated => exact enterAnnotationNode_gives o h hk'
  | typeParams => exact part _ _ (by decide) (migrateTypeParamsNode_written o h hk)
  | typeArgs => exact part _ _ (by decide) (migrateArgsNode_written o h (by omega))
  | implementsClause => exact part _ _ (by decide) (migrateHeritage_written o h hk')
  | typeAlias => exact part _ _ (by decide) (migrateAlias_written o "right" h hk')
  | opaqueType =>
    refine .ite (fun _ => .bind (.refuse _)) fun _ => ?_
    exact part _ _ (by decide) (migrateAlias_written o "impltype" h hk')
  | interfaceDeclaration => exact part _ _ (by decide) (migrateInterface_written o h hk')
  | typeCast => exact enterCast_gives o h hk'
  | flowOnly => exact .refuse _
  | _ => cases hrule

end Migration

end Retype
