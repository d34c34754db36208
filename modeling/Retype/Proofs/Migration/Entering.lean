import Retype.Proofs.Migration.Walking
/-!
# What the rules do on the way down

Most rules change the types of a node and nothing else, so the node is
`Retyped`. Two put another node in its place: a declaration of types becomes
another such declaration, of which nothing is left either, and a cast becomes
an `as` or a call of the checked cast, of which the expression is left. The
rules for types themselves need no argument, since a well-placed node is none.
-/

namespace Retype.Migration

open Syntax (Place Visit Handover)
open TypeScript (node identifier)

variable {e : Erasure} {place : Place} {n : Json}

/-! ## Ways to enter -/

/-- A node that differs in its types alone is a node. -/
theorem isNode_of_retyped {v v' : Json} (h : Retyped e v v') (hn : v.isNode = true) :
    v'.isNode = true := by
  rwa [Erasure.isNode_eq, h.kind, ← Erasure.isNode_eq]

/-- No field marks anybody. -/
theorem MarksName.nil : MarksName place n [] := fun _ h => absurd h List.not_mem_nil

/-- A node that has changed in its types. -/
theorem Entered.keep {n' : Json} (hn : n.isNode = true) (h : Retyped e n n') :
    Entered e place n (Visit.keep n') where
  isNode := isNode_of_retyped h hn
  kept hplaced := ⟨h.wellPlaced hplaced, h.toKept⟩
  marks := .nil

/-- What a node that takes the place of another one has to be. -/
structure Stands (e : Erasure) (n new : Json) : Prop where
  isNode : new.isNode = true
  kept : e.wellPlaced n = true →
    e.wellPlaced new = true ∧ e.erase new = e.erase n ∧ Erasure.markerFree new = true

/-- A node that takes the place of another one inherits its positions. -/
theorem replaceBy_yields {rewrite : Json → Rewrite Json} (slots : List Json.Route)
    (handed : List Handover) {P : Json → Prop} (h : (rewrite n).Yields P) :
    (replaceBy rewrite slots handed n).Yields fun visit =>
      ∃ new, P new ∧ visit.node = Json.inherit n new ∧ visit.parentFields = [] :=
  .bind (h.mono fun new hnew => .pure ⟨new, hnew, rfl, rfl⟩)

/-- A visit that puts a node in the place of one is as it should be when that node is. -/
theorem Entered.replace {visit : Visit} {new : Json} (h : Stands e n new)
    (hnode : visit.node = Json.inherit n new) (hmarks : MarksName place n visit.parentFields) :
    Entered e place n visit := by
  have hinherit : Retyped e new visit.node := hnode ▸ .inherit n new
  refine ⟨isNode_of_retyped hinherit h.isNode, fun hplaced => ?_, hmarks⟩
  obtain ⟨hplaced', herase, hfree⟩ := h.kept hplaced
  exact ⟨hinherit.wellPlaced hplaced',
    hinherit.erases.trans herase, fun _ => hinherit.free hfree⟩

/-- So is a rule that replaces nodes. -/
theorem Entered.of_replaceBy {rewrite : Json → Rewrite Json} {slots : List Json.Route}
    {handed : List Handover} (h : (rewrite n).Yields (Stands e n)) :
    (replaceBy rewrite slots handed n).Yields (Entered e place n) :=
  (replaceBy_yields slots handed h).mono fun _ ⟨_, hnew, hnode, hmarks⟩ =>
    .replace hnew hnode (hmarks ▸ .nil)

/-! ## Types -/

/-- A node of a type is not well placed where it is seen. -/
theorem not_wellPlaced_of_kind {kind : String} (hn : n.isNode = true) (hkind : n.kind = kind)
    (hmem : kind ∈ Erasure.typeNodeKinds) : e.wellPlaced n = false := by
  cases hplaced : e.wellPlaced n with
  | false => rfl
  | true =>
    obtain ⟨kind', hget, hnot⟩ := kind_of_wellPlaced hn hplaced
    rw [kind_of_kind hget] at hkind
    exact absurd (hkind ▸ hmem) hnot

/-- So whatever node takes its place will do. -/
theorem Stands.of_type (hplaced : e.wellPlaced n = false) {new : Json} (h : new.isNode = true) :
    Stands e n new :=
  ⟨h, fun h' => by rw [hplaced] at h'; cases h'⟩

/-- Positions inherited make no node. -/
theorem isNode_inherit (origin new : Json) : (Json.inherit origin new).isNode = new.isNode := by
  rw [Erasure.isNode_eq, (Retyped.inherit (e := ⟨"", "", false⟩) origin new).kind,
    ← Erasure.isNode_eq]

/-- What is written is a node whatever its origin. -/
theorem isNode_inheritOption (origin : Option Json) (kind : String) (fields : Entries) :
    (Json.inheritOption origin (node kind fields)).isNode = true := by
  cases origin with
  | none => rfl
  | some origin => rw [Json.inheritOption, isNode_inherit]; rfl

variable (o : FileOptions)

/-- Type parameters become a node. -/
theorem migrateTypeParamsNode_isNode :
    (migrateTypeParamsNode o n).Yields fun new => new.isNode = true := by
  refine .bind (.trivial _ fun _ => .bind (.trivial _ fun params => .pure ?_))
  obtain ⟨origin, params⟩ := params
  rw [TypeScript.encodeTypeParams]
  exact isNode_inheritOption origin _ _

/-- So do type arguments. -/
theorem migrateArgsNode_isNode : (migrateArgsNode o n).Yields fun new => new.isNode = true := by
  refine .bind (.trivial _ fun _ => .bind (.trivial _ fun args => .pure ?_))
  obtain ⟨origin, params⟩ := args
  rw [TypeScript.encodeArgs]
  exact isNode_inheritOption origin _ _

/-- So does a heritage clause. -/
theorem migrateHeritage_isNode : (migrateHeritage o n).Yields fun new => new.isNode = true := by
  refine .bind (.trivial _ fun _ => .bind (.trivial _ fun _ => ?_))
  split
  · exact .bind (.trivial _ fun _ => .pure (by rw [isNode_inherit]; rfl))
  · exact .bind (.trivial _ fun _ => .pure (by rw [isNode_inherit]; rfl))

/-- So does an annotation. -/
theorem migrateAnnotationNode_isNode (isParam : Bool) :
    (migrateAnnotationNode o isParam n).Yields fun new => new.isNode = true := by
  have hnew (type : Json) : (migrateAnnotationOf o type).Yields fun new => new.isNode = true :=
    .bind (.trivial _ fun _ => .pure rfl)
  refine .bind (.trivial _ fun _ => .ite (fun _ => ?_) fun _ => ?_)
  · exact .bind (.trivial _ fun _ => hnew _)
  · exact .bind (.trivial _ fun _ => hnew _)

/-- An annotation marks its parent only where it belongs to a parameter, whose
parent is a name. -/
theorem enterAnnotationNode_entered (hplaced : e.wellPlaced n = false) :
    (enterAnnotationNode o place n).Yields (Entered e place n) := by
  have hvisit := replaceBy_yields [[.key "typeAnnotation"]] []
    (migrateAnnotationNode_isNode (n := n) o (annotatesParam place n))
  have hentered (visit : Visit) (fields : Entries) (hmarks : MarksName place n fields)
      (h : ∃ new, new.isNode = true ∧ visit.node = Json.inherit n new ∧ visit.parentFields = []) :
      Entered e place n { visit with parentFields := fields } := by
    obtain ⟨new, hnew, hnode, -⟩ := h
    exact .replace (.of_type hplaced hnew) hnode hmarks
  unfold enterAnnotationNode
  refine .ite (fun hparam => ?_) fun _ => ?_
  · -- only here may the annotation mark its parent
    have hname : place.parentKind? n = some "Identifier" := by
      simp only [annotatesParam, decide_eq_true_eq] at hparam
      exact hparam.1
    refine .bind (.trivial _ fun isOptional => .bind (hvisit.mono fun visit h => .pure ?_))
    cases isOptional with
    | true =>
      refine hentered visit [("optional", .bool true)] (fun field hfield => ?_) h
      rw [List.mem_singleton.1 hfield]
      exact ⟨rfl, hname⟩
    | false => exact hentered visit visit.parentFields (by rw [h.choose_spec.2.2]; exact .nil) h
  · refine .bind (.pure (.bind (hvisit.mono fun visit h => .pure ?_)))
    exact hentered visit visit.parentFields (by rw [h.choose_spec.2.2]; exact .nil) h

/-! ## Declarations of types -/

/-- Nothing is left of a node that is there for types only. -/
theorem erase_of_typeOnly {n : Json} (h : n.kindIn typeOnlyKinds = true) : e.erase n = none := by
  cases n with
  | obj l => simp [Erasure.erase, Erasure.ofParts, h]
  | _ => simp [Json.kindIn, Json.hasText, Json.get?] at h

/-- A new node that is none of a type. -/
theorem isRuntimeNode_node {kind : String} {fields : Entries}
    (hkind : kind ∉ "AssignmentPattern" :: Erasure.typeNodeKinds) :
    e.isRuntimeNode (node kind fields) = true := by
  rw [List.mem_cons, not_or] at hkind
  have hdefault : (node kind fields).hasText "type" "AssignmentPattern" = false := by
    simpa [hasText_of_kind (get?_type_node kind fields)] using hkind.1
  simp [Erasure.isRuntimeNode, get?_type_node, hkind.2, Erasure.defaultUnmarked, hdefault]

/-- What takes the place of a declaration of types declares types. -/
theorem Stands.of_typeOnly {fields : Entries} {kind : String} (hn : n.isNode = true)
    (honly : n.kind ∈ typeOnlyKinds) (hkind : kind ∈ typeOnlyKinds)
    (hfree : Entries.get? fields "optional" = none) : Stands e n (node kind fields) := by
  have hnew : (node kind fields).kindIn typeOnlyKinds = true := by
    rw [kindIn_of_kind (get?_type_node kind fields)]
    simpa using hkind
  refine ⟨rfl, fun hplaced => ⟨?_, ?_, ?_⟩⟩
  · have hruntime : e.isRuntimeNode (node kind fields) = true := by
      refine isRuntimeNode_node ?_
      simp only [typeOnlyKinds, List.mem_cons, List.not_mem_nil, or_false] at hkind
      rcases hkind with rfl | rfl | rfl | rfl | rfl <;> decide
    exact (Erasure.wellPlaced_obj_iff _ rfl).2 ⟨hruntime, fun h => by
      rw [show Json.obj (("type", .str kind) :: fields) = node kind fields from rfl, hnew] at h
      cases h⟩
  · -- nothing is left of either declaration
    obtain ⟨kind', hget', -⟩ := kind_of_wellPlaced hn hplaced
    rw [kind_of_kind hget'] at honly
    rw [erase_of_typeOnly hnew, erase_of_typeOnly]
    rw [kindIn_of_kind hget']
    simpa using honly
  · simp [Erasure.markerFree, node, Json.get?, Entries.get?, hfree]

/-- A type alias stands in the place of the old one. -/
theorem migrateAlias_stands (key : String) (hn : n.isNode = true) (honly : n.kind ∈ typeOnlyKinds) :
    (migrateAlias o key n).Yields (Stands e n) := by
  refine .bind (.trivial _ fun _ => .bind (.trivial _ fun _ => .bind (.trivial _ fun _ =>
    .bind (.trivial _ fun _ => .pure ?_))))
  exact .of_typeOnly hn honly (by decide) rfl

/-- So does an interface. -/
theorem migrateInterface_stands (hn : n.isNode = true) (honly : n.kind ∈ typeOnlyKinds) :
    (migrateInterface o n).Yields (Stands e n) := by
  refine .ite (fun _ => .bind (.refuse _)) fun _ => .ite (fun _ => .bind (.refuse _)) fun _ => ?_
  refine .bind (.trivial _ fun _ => .bind (.trivial _ fun _ => .bind (.trivial _ fun _ =>
    .bind (.trivial _ fun _ => .bind (.trivial _ fun _ => .pure ?_)))))
  exact .of_typeOnly hn honly (by decide) rfl

/-! ## Imports, variables, functions, properties -/

/-- An import is entered as it should be. -/
theorem enterImport_entered (hn : n.isNode = true) :
    (enterImport o n).Yields (Entered e place n) := by
  rw [enterImport]
  refine .ite (fun _ => .pure (.keep hn (.set_typeLevel n rfl (by decide) _))) fun _ => ?_
  refine .ite (fun _ => .pure (.keep hn (.refl n))) fun _ => .ite (fun _ => ?_) fun _ => .refuse _
  split
  next specifiers hget =>
    refine .pure (.keep hn (.set_part hget (by decide) (by decide) (.map (fun s => ?_) specifiers)))
    split
    · exact .set_typeLevel s rfl (by decide) _
    · exact .refl s
  next => exact .pure (.keep hn (.refl n))

/-- So is a declarator. -/
theorem enterDeclarator_entered (hn : n.isNode = true) :
    (enterDeclarator o place n).Yields (Entered e place n) := by
  have same : (pure (Visit.keep n) : Rewrite Visit).Yields (Entered e place n) :=
    .pure (.keep hn (.refl n))
  rw [enterDeclarator]
  refine .ite (fun _ => ?_) fun _ => same
  split
  next id hget =>
    refine .ite (fun _ => ?_) fun _ => same
    split
    next type _ =>
      have hid : Retyped e id (id.set "typeAnnotation" type) := .set_typeLevel id rfl (by decide) _
      exact .pure (.keep hn (.set_part hget (by decide) (by decide) hid))
    next => exact same
  next => exact same

/-- So are parameters that ask for their types. -/
theorem awaitTypes_entered (hn : n.isNode = true) :
    (awaitTypes o n).Yields (Entered e place n) :=
  .bind (.trivial _ fun _ => .pure (.keep hn (.refl n)))

/-- Parameters that get an annotation change in their types. -/
theorem annotateWithAny_retyped (n : Json) : Retyped e n (annotateWithAny n) := by
  rw [annotateWithAny]
  split
  next params hget =>
    refine .set_part hget (by decide) (by decide) (.map (fun p => ?_) params)
    split
    · exact .set_typeLevel p rfl (by decide) _
    · exact .refl p
  next => exact .refl n

/-- So is a function. -/
theorem enterFunction_entered (hn : n.isNode = true) :
    (enterFunction o n).Yields (Entered e place n) :=
  .ite (fun _ => .pure (.keep hn (annotateWithAny_retyped n))) fun _ => awaitTypes_entered o hn

/-- So is a method of an object. -/
theorem enterObjectMethod_entered (hn : n.isNode = true) :
    (enterObjectMethod o place n).Yields (Entered e place n) :=
  .ite (fun _ => awaitTypes_entered o hn) fun _ => .pure (.keep hn (.refl n))

/-- So is a class property. -/
theorem enterClassProperty_entered (hn : n.isNode = true) :
    (enterClassProperty o n).Yields (Entered e place n) := by
  have hvariance : Retyped e n (n.set "variance" .null) := .set_typeLevel n rfl (by decide) _
  rw [enterClassProperty]
  split
  next => exact .pure (.keep hn (.refl n))
  next =>
    refine .ite (fun _ => .pure (.keep hn ?_)) fun _ => .bind (.trivial _ fun _ => .pure ?_)
    · exact hvariance.trans (.set_typeLevel _ rfl (by decide) _)
    · exact .keep hn hvariance

/-! ## Casts -/

/-- The field of a node, if it is as it should be. -/
theorem field_yields (n : Json) (key : String) :
    Result.Yields (n.field key) fun v => n.get? key = some v := by
  intro v hv
  rw [Json.field] at hv
  split at hv <;> cases hv
  assumption

/-- What is left under a key that erasure leaves alone. -/
theorem lookup_eraseEntries {key : String} (l : Entries) (hlevel : isTypeLevel n key = false)
    (hkey : key ≠ "left") :
    ((e.eraseEntries n l).lookup key).join = (Entries.get? l key).bind e.erase := by
  have htrim : e.trim n key = id := by
    funext part
    simp [Erasure.trim, hkey]
  induction l with
  | nil => rfl
  | cons entry rest ih =>
    obtain ⟨k, v⟩ := entry
    by_cases hk : k = key
    · subst hk
      simp [Erasure.eraseEntries, hlevel, htrim, Entries.get?]
    · cases hlevel' : isTypeLevel n k with
      | true => simp [Erasure.eraseEntries, hlevel', Entries.get?, hk, ih]
      | false =>
        have hk' : (key == k) = false := by simpa using Ne.symm hk
        simp [Erasure.eraseEntries, hlevel', List.lookup_cons, hk', Entries.get?, hk, ih]

/-- **A cast that does nothing leaves its expression.** -/
theorem erase_of_assertion {kind : String} {expression : Json}
    (hget : n.get? "type" = some (.str kind)) (hkind : kind ∈ assertionKinds)
    (hexpression : n.get? "expression" = some expression) : e.erase n = e.erase expression := by
  obtain ⟨l, rfl⟩ := Json.exists_obj_of_get? hget
  have honly : (Json.obj l).kindIn typeOnlyKinds = false := by
    rw [kindIn_of_kind hget]
    simp only [assertionKinds, List.mem_cons, List.not_mem_nil, or_false] at hkind
    rcases hkind with rfl | rfl <;> rfl
  have hassertion : (Json.obj l).kindIn assertionKinds = true := by
    rw [kindIn_of_kind hget]
    simpa using hkind
  have hexpression : Entries.get? l "expression" = some expression := hexpression
  rw [Erasure.erase, Erasure.ofParts, if_neg (by simp [honly]), if_pos hassertion,
    lookup_eraseEntries l rfl (by decide), hexpression]
  rfl

/-- The expression of a well-placed cast. -/
theorem wellPlaced_expression {expression : Json} (hn : n.isNode = true)
    (hkind : n.get? "type" = some (.str "TypeCastExpression"))
    (hexpression : n.get? "expression" = some expression) (hplaced : e.wellPlaced n = true) :
    e.wellPlaced expression = true := by
  obtain ⟨l, rfl⟩ := Json.exists_obj_of_get? hkind
  have hparts := ((Erasure.wellPlaced_obj_iff l hn).1 hplaced).2 (by rw [kindIn_of_kind hkind]; rfl)
  exact (hparts _ (Entries.mem_of_get? hexpression)).resolve_left (by simp [isTypeLevel,
    Json.metadataKeys, typeKeys])

/-- What a cast may become: its expression is left, and its types stand where
they should if those of the expression do. -/
structure CastsTo (e : Erasure) (expression new : Json) : Prop where
  isNode : new.isNode = true
  erases : e.erase new = e.erase expression
  wellPlaced : e.wellPlaced expression = true → e.wellPlaced new = true
  free : Erasure.markerFree new = true

/-- A cast may become an `as` expression. -/
theorem castsTo_asExpression (expression type : Json) :
    CastsTo e expression (asExpression expression type) where
  isNode := rfl
  erases := erase_of_assertion (get?_type_node _ _) (by decide) (by
    simp [asExpression, node, Json.get?, Entries.get?])
  wellPlaced h := by
    refine (Erasure.wellPlaced_obj_iff _ rfl).2 ⟨isRuntimeNode_node (by decide),
      fun _ entry hentry => ?_⟩
    simp only [List.mem_cons, List.not_mem_nil, or_false] at hentry
    rcases hentry with rfl | rfl | rfl | rfl
    · exact .inr rfl
    · exact .inr h
    · exact .inl rfl
    · exact .inl rfl
  free := by simp [asExpression, Erasure.markerFree, node, Json.get?, Entries.get?]

/-- It may become a call of the helper. -/
theorem castsTo_safeCastCall (o : FileOptions) {keeps : Bool} (expression type : Json) :
    CastsTo (o.erasure keeps) expression (safeCastCall o.utilsBinding expression type) where
  isNode := rfl
  erases := by
    simp [safeCastCall, node, identifier, Erasure.erase, Erasure.eraseEntries, Erasure.eraseItems,
      Erasure.ofParts, Erasure.trim, Erasure.isHelperCast, isIdentifierAt, isTypeLevel, isTypedCall,
      remaining, Json.kindIn, Json.hasText, Json.get?, Entries.get?, Json.itemsAt, Json.items,
      Json.holds, Json.isTrue, Json.isObject, Json.metadataKeys, typeKeys, typeOnlyKinds,
      assertionKinds, FileOptions.erasure]
  wellPlaced h := by
    refine (Erasure.wellPlaced_obj_iff _ rfl).2 ⟨isRuntimeNode_node (by decide),
      fun _ entry hentry => ?_⟩
    simp only [List.mem_cons, List.not_mem_nil, or_false] at hentry
    rcases hentry with rfl | rfl | rfl | rfl
    · exact .inr rfl
    · exact .inr (by simp [node, identifier, Erasure.wellPlaced, Erasure.entriesWellPlaced,
        Erasure.isRuntimeNode, Erasure.defaultUnmarked, Erasure.typeNodeKinds, Json.hasText,
        Json.get?, Entries.get?])
    · exact .inr (by simp [Erasure.wellPlaced, Erasure.itemsWellPlaced, h])
    · exact .inl rfl
  free := by simp [safeCastCall, Erasure.markerFree, node, Json.get?, Entries.get?]

namespace CastsTo

variable {expression expression' new : Json}

/-- What becomes of a cast of what a cast becomes is what becomes of the first. -/
theorem trans (h : CastsTo e expression expression') (h' : CastsTo e expression' new) :
    CastsTo e expression new :=
  ⟨h'.isNode, h'.erases.trans h.erases, h'.wellPlaced ∘ h.wellPlaced, h'.free⟩

/-- What the expression of a cast becomes, the cast may become. -/
theorem of_expression (hkind : n.get? "type" = some (.str "TypeCastExpression"))
    (hexpression : n.get? "expression" = some expression) (h : CastsTo e expression new) :
    CastsTo e n new := by
  have hn : n.isNode = true := by
    rw [Erasure.isNode_eq, hkind]
    rfl
  exact ⟨h.isNode, h.erases.trans (erase_of_assertion hkind (by decide) hexpression).symm,
    h.wellPlaced ∘ wellPlaced_expression hn hkind hexpression, h.free⟩

/-- What a cast becomes stands in its place. -/
theorem stands (hn : n.isNode = true) (hkind : n.kind = "TypeCastExpression")
    (hexpression : n.get? "expression" = some expression) (h : CastsTo e expression new) :
    Stands e n new := by
  refine ⟨h.isNode, fun hplaced => ?_⟩
  -- the rule went by the text of the kind, which is the kind of a well-placed node
  obtain ⟨kind, hget, -⟩ := kind_of_wellPlaced hn hplaced
  obtain rfl : kind = "TypeCastExpression" := (kind_of_kind hget).symm.trans hkind
  have hcast := h.of_expression hget hexpression
  exact ⟨hcast.wellPlaced hplaced, hcast.erases, hcast.free⟩

end CastsTo

/-- Only a cast is taken out of another cast. -/
theorem selectStrategy_nested {expression : Json}
    (hexpression : n.get? "expression" = some expression) :
    Result.Yields (selectStrategy n) fun strategy => strategy = .nestedUnsound →
      expression.get? "type" = some (.str "TypeCastExpression") := by
  have hcast : Result.Yields (isUnsoundCast expression) fun isUnsound =>
      isUnsound = true → expression.hasText "type" "TypeCastExpression" = true := by
    rw [isUnsoundCast]
    exact .ite (fun h => .trivial _ fun _ _ => h) fun _ => .ok nofun
  rw [selectStrategy]
  refine .bind ((field_yields n "expression").mono fun expression' hexpression' => ?_)
  obtain rfl : expression' = expression := by simpa [hexpression] using hexpression'.symm
  refine .bind (.trivial _ fun type => .bind (hcast.mono fun isUnsound h => ?_))
  refine .ite (fun hunsound => .pure fun _ => get?_of_hasText (h hunsound)) fun _ => ?_
  repeat' refine .ite (fun _ => .pure nofun) fun _ => ?_
  exact .pure nofun

/-- **Whatever a cast becomes, its expression is left.** -/
theorem rewriteCast_stands {keeps keepsInner : Bool} {strategy : CastStrategy}
    (hn : n.isNode = true) (hkind : n.kind = "TypeCastExpression")
    (hstrategy : selectStrategy n = .ok strategy) :
    (rewriteCast o.types o.utilsBinding keepsInner n strategy).Yields
      (Stands (o.erasure keeps) n) := by
  have hfield := field_yields n "expression"
  cases strategy with
  | nestedUnsound =>
    rw [rewriteCast]
    refine .bind (.ofResult (hfield.mono fun inner hinner => ?_))
    -- the inner cast is dropped, which is sound because it is a cast
    have hcast := selectStrategy_nested hinner _ hstrategy rfl
    refine .bind (.ofResult ((field_yields inner "expression").mono fun expression hexpression =>
      .bind (.trivial _ fun target => ?_)))
    have stands (new : Json) (h : CastsTo (o.erasure keeps) expression new) :
        Stands (o.erasure keeps) n new :=
      (CastsTo.of_expression hcast hexpression h).stands hn hkind hinner
    split
    · exact .bind (.trivial _ fun _ => .pure
        (stands _ ((castsTo_asExpression _ _).trans (castsTo_asExpression _ _))))
    · exact .pure (stands _ (castsTo_asExpression _ _))
  | unsound | structuralLiteral =>
    rw [rewriteCast]
    exact .bind (.ofResult (hfield.mono fun expression hexpression => .bind (.trivial _ fun _ =>
      .pure ((castsTo_asExpression _ _).stands hn hkind hexpression))))
  | constLiteral =>
    rw [rewriteCast]
    exact .bind (.ofResult (hfield.mono fun expression hexpression =>
      .pure ((castsTo_asExpression _ _).stands hn hkind hexpression)))
  | safeCast =>
    rw [rewriteCast]
    exact .bind (.ofResult (hfield.mono fun expression hexpression => .bind (.trivial _ fun _ =>
      .bind (.trivial _ fun _ =>
        .pure ((castsTo_safeCastCall o _ _).stands hn hkind hexpression)))))

/-- A cast is entered as it should be. -/
theorem enterCast_entered {keeps : Bool} (hn : n.isNode = true)
    (hkind : n.kind = "TypeCastExpression") :
    (enterCast o place n).Yields (Entered (o.erasure keeps) place n) := by
  refine .bind (.ofResult fun strategy hstrategy => ?_)
  refine .bind (Rewrite.Yields.mono (P := Entered (o.erasure keeps) place n)
    (.of_replaceBy (.ofRecorded (rewriteCast_stands o hn hkind hstrategy))) fun visit hvisit => ?_)
  exact .ite (fun _ => .bind (.trivial _ fun _ => .pure hvisit)) fun _ => .pure hvisit

/-! ## All rules -/

/-- The kinds of nodes that a rule is for. -/
theorem mem_of_enterRule {kind : String} {rule : EnterRule} (h : enterRule? kind = some rule) :
    (kind, rule) ∈ enterRules := by
  rw [enterRule?, List.lookup_eq_some_iff] at h
  obtain ⟨before, after, hrules, -⟩ := h
  rw [hrules]
  simp

/-- **On the way down every rule keeps what is left of a node.** -/
theorem applyEnter_entered {keeps : Bool} (hn : n.isNode = true) {rule : EnterRule}
    (hrule : enterRule? n.kind = some rule) :
    (applyEnter o place n rule).Yields (Entered (o.erasure keeps) place n) := by
  have hmem := mem_of_enterRule hrule
  have misplaced {kind : String} (hkind : n.kind = kind) (h : kind ∈ Erasure.typeNodeKinds) :
      (o.erasure keeps).wellPlaced n = false :=
    not_wellPlaced_of_kind hn hkind h
  have typeNode {rewrite : Json → Rewrite Json} {slots : List Json.Route} {kind : String}
      (hkind : n.kind = kind) (h : kind ∈ Erasure.typeNodeKinds)
      (hnew : (rewrite n).Yields fun new => new.isNode = true) :
      (replaceBy rewrite slots [] n).Yields (Entered (o.erasure keeps) place n) :=
    .of_replaceBy (hnew.mono fun _ => .of_type (misplaced hkind h))
  cases rule with
  | annotated =>
    have hkind : n.kind = "TypeAnnotation" := by simpa [enterRules, flowOnlyKinds] using hmem
    exact enterAnnotationNode_entered o (misplaced hkind (by decide))
  | typeParams =>
    have hkind : n.kind = "TypeParameterDeclaration" := by
      simpa [enterRules, flowOnlyKinds] using hmem
    exact typeNode hkind (by decide) (migrateTypeParamsNode_isNode o)
  | typeArgs =>
    have hkind : n.kind = "TypeParameterInstantiation" := by
      simpa [enterRules, flowOnlyKinds] using hmem
    exact typeNode hkind (by decide) (migrateArgsNode_isNode o)
  | implementsClause =>
    have hkind : n.kind = "ClassImplements" := by simpa [enterRules, flowOnlyKinds] using hmem
    exact typeNode hkind (by decide) (migrateHeritage_isNode o)
  | importDeclaration => exact enterImport_entered o hn
  | exportNamed => exact .pure (.keep hn (.erase_typeLevel n rfl (by decide)))
  | typeAlias =>
    have hkind : n.kind = "TypeAlias" := by simpa [enterRules, flowOnlyKinds] using hmem
    exact .of_replaceBy (migrateAlias_stands o "right" hn (hkind ▸ by decide))
  | opaqueType =>
    have hkind : n.kind = "OpaqueType" := by simpa [enterRules, flowOnlyKinds] using hmem
    exact .ite (fun _ => .bind (.refuse _)) fun _ =>
      .of_replaceBy (migrateAlias_stands o "impltype" hn (hkind ▸ by decide))
  | interfaceDeclaration =>
    have hkind : n.kind = "InterfaceDeclaration" := by simpa [enterRules, flowOnlyKinds] using hmem
    exact .of_replaceBy (migrateInterface_stands o hn (hkind ▸ by decide))
  | declarator => exact enterDeclarator_entered o hn
  | functionDeclaration => exact enterFunction_entered o hn
  | classMethod => exact awaitTypes_entered o hn
  | objectMethod => exact enterObjectMethod_entered o hn
  | classProperty => exact enterClassProperty_entered o hn
  | typeCast =>
    have hkind : n.kind = "TypeCastExpression" := by simpa [enterRules, flowOnlyKinds] using hmem
    exact enterCast_entered o hn hkind
  | markup => exact .bind (.trivial _ fun _ => .pure (.keep hn (.refl n)))
  | flowOnly => exact .refuse _

end Retype.Migration
