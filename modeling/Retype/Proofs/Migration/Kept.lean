import Retype.Proofs.Migration.Due
import Retype.Proofs.Migration.Site
import Retype.Proofs.Migration.Yields
/-!
# Nodes that keep their place

Half of the rules leave a node where it is and change some of its fields. What
becomes of the node depends on the node and on its site (`keptAs`), and a rule
may ask something of it before (`Accepts`). The parts that are walked next are
those of the source, or were written (`keptAs_due`).
-/

namespace Retype.Migration

open Syntax (Place Visit)

/-! ## Nodes that keep their place -/

/-- Whether a node with a rule keeps its place. -/
def EnterRule.keepsPlace : EnterRule → Bool
  | .importDeclaration | .exportNamed | .declarator | .functionDeclaration | .classMethod
  | .objectMethod | .classProperty | .markup => true
  | _ => false

/-- A specifier of a plain import: it is not marked as a type. -/
def plainSpecifier (s : Json) : Json :=
  if s.hasText "type" "ImportSpecifier" && s.hasText "importKind" "type"
  then s.set "importKind" .null else s

/-- What becomes of an import. -/
def importedAs (n : Json) : Json :=
  if n.hasText "importKind" "type" then n.set "importKind" (.str "value")
  else if n.hasText "importKind" "typeof" then n
  else match n.get? "specifiers" with
    | some (.arr specifiers) => n.set "specifiers" (.arr (specifiers.map plainSpecifier))
    | _ => n

/-- What becomes of a declarator at a site. -/
def declaredAs (o : FileOptions) (site : Site) (n : Json) : Json :=
  if site.declaresTestVariable o then
    match n.get? "id" with
    | some id =>
      if isUnannotated id then
        match variableAnnotation? ((n.get? "init").getD .null) with
        | some type => n.set "id" (id.set "typeAnnotation" type)
        | none => n
      else n
    | none => n
  else n

/-- What becomes of a property of a class. -/
def propertyAs (n : Json) : Json :=
  match Location.objectAt? n "variance" with
  | none => n
  | some variance =>
    if variance.hasText "kind" "plus"
    then (n.set "variance" .null).set "readonly" (.bool true) else n.set "variance" .null

/-- What becomes of a node that keeps its place. -/
def keptAs (o : FileOptions) (site : Site) (n : Json) : EnterRule → Json
  | .importDeclaration => importedAs n
  | .exportNamed => n.erase "exportKind"
  | .declarator => declaredAs o site n
  | .functionDeclaration => if o.isTestFile then annotateWithAny n else n
  | .classProperty => propertyAs n
  | _ => n

/-- Whether an import is of a kind that is known. -/
def importKindKnown (n : Json) : Bool :=
  n.hasText "importKind" "type" || n.hasText "importKind" "typeof" ||
    (((n.get? "importKind").getD .null).isNull || n.hasText "importKind" "value")

/-- Each parameter without an annotation has a place, or none. -/
def Placed (o : FileOptions) (n : Json) : Prop :=
  ∀ param ∈ unannotatedParams n, ∃ l, Location.ofNodeOrRefuse o.path param = .ok l

/-- What a rule asks of a node that keeps its place. -/
def Accepts (o : FileOptions) (site : Site) (n : Json) : EnterRule → Prop
  | .importDeclaration => importKindKnown n = true
  | .functionDeclaration => o.isTestFile = false → o.infers = false → Placed o n
  | .classMethod => o.infers = false → Placed o n
  | .objectMethod => site.isInside n = true → o.infers = false → Placed o n
  | _ => True

variable (o : FileOptions) {n : Json}

/-- Parameters that ask for their types leave the node as it is. -/
theorem awaitTypes_yields (n : Json) :
    (awaitTypes o n).Yields fun visit => visit = Visit.keep n ∧
      (o.infers = false → Placed o n) := by
  have hparam (param : Json) : (awaitType o param).Yields fun _ =>
      o.infers = false → ∃ l, Location.ofNodeOrRefuse o.path param = .ok l := by
    refine .ite (fun hinfers => .trivial _ fun _ h => ?_) fun _ => .ofRecorded (.bind ?_)
    · rw [hinfers] at h
      cases h
    · exact .ofResult fun l hl => .trivial _ fun _ _ => ⟨l, hl⟩
  refine .bind ((Rewrite.Yields.forM fun param _ => hparam param).mono fun _ h => .pure ⟨rfl, ?_⟩)
  exact fun hinfers param hmem => h param hmem hinfers

/-- An import of a known kind is kept with its types made plain. -/
theorem enterImport_yields (n : Json) : (enterImport o n).Yields fun visit =>
    visit = Visit.keep (importedAs n) ∧ importKindKnown n = true := by
  unfold enterImport importedAs importKindKnown
  refine .ite (fun h => .pure ?_) fun htype => .ite (fun h => .pure ?_) fun htypeof =>
    .ite (fun h => ?_) fun _ => .refuse _
  · simp [h]
  · simp [h, htype]
  · rw [if_neg htype, if_neg htypeof]
    have hknown : (((n.get? "importKind").getD .null).isNull ||
        n.hasText "importKind" "value") = true := h
    cases n.get? "specifiers" with
    | none => exact .pure ⟨rfl, by simp [hknown]⟩
    | some specifiers => cases specifiers <;> exact .pure ⟨rfl, by simp [hknown]⟩

/-- A declarator is kept with the type it may need. -/
theorem enterDeclarator_yields (place : Place) (n : Json) : (enterDeclarator o place n).Yields
    fun visit => visit = Visit.keep (declaredAs o (siteAt place n) n) := by
  unfold enterDeclarator declaredAs
  rw [declaresTestVariable_eq]
  cases (siteAt place n).declaresTestVariable o with
  | false => exact .pure rfl
  | true =>
    cases n.get? "id" with
    | none => exact .pure rfl
    | some id =>
      have hid : (id.hasText "type" "Identifier" && !id.holds "typeAnnotation") =
        isUnannotated id := rfl
      dsimp only
      rw [hid]
      cases isUnannotated id with
      | false => exact .pure rfl
      | true => cases variableAnnotation? ((n.get? "init").getD .null) <;> exact .pure rfl

/-- A class property is kept without what only Flow knows. -/
theorem enterClassProperty_yields (n : Json) :
    (enterClassProperty o n).Yields fun visit => visit = Visit.keep (propertyAs n) := by
  unfold enterClassProperty propertyAs
  cases Location.objectAt? n "variance" with
  | none => exact .pure rfl
  | some variance =>
    refine .ite (fun h => .pure ?_) fun h => .bind (.trivial _ fun _ => .pure ?_)
    · simp only [h, if_true]
    · simp only [h, if_false, Bool.false_eq_true]

/-- **What becomes of a node that keeps its place.** -/
theorem applyEnter_yields (place : Place) (n : Json) {rule : EnterRule}
    (h : rule.keepsPlace = true) : (applyEnter o place n rule).Yields fun visit =>
      visit = Visit.keep (keptAs o (siteAt place n) n rule) ∧
        Accepts o (siteAt place n) n rule := by
  cases rule with
  | importDeclaration => exact enterImport_yields o n
  | exportNamed => exact .pure ⟨rfl, trivial⟩
  | declarator => exact (enterDeclarator_yields o place n).mono fun _ h => ⟨h, trivial⟩
  | functionDeclaration =>
    refine .ite (fun htest => .pure ⟨?_, ?_⟩) fun htest => ?_
    · rw [keptAs, if_pos htest]
    · exact fun h => absurd htest (by rw [h]; nofun)
    · refine (awaitTypes_yields o n).mono fun _ h => ⟨?_, fun _ => h.2⟩
      rw [keptAs, if_neg htest]
      exact h.1
  | classMethod => exact awaitTypes_yields o n
  | objectMethod =>
    refine .ite (fun _ => ?_) fun hinside => .pure ⟨rfl, fun h => ?_⟩
    · exact (awaitTypes_yields o n).mono fun _ h => ⟨h.1, fun _ => h.2⟩
    · rw [insideCreateReactClass_eq] at hinside
      exact absurd h hinside
  | classProperty => exact (enterClassProperty_yields o n).mono fun _ h => ⟨h, trivial⟩
  | markup => exact .bind (.trivial _ fun _ => .pure ⟨rfl, trivial⟩)
  | _ => cases h

/-! ## What stays -/

variable {o} {site : Site} {rule : EnterRule} {key : String}

/-- The keys whose values a rule may change. -/
def changedKeys : List String :=
  ["importKind", "specifiers", "exportKind", "id", "params", "variance", "readonly"]

/-- A rule that keeps a node leaves most of its fields. -/
theorem keptAs_get? (hkey : key ∉ changedKeys) :
    (keptAs o site n rule).get? key = n.get? key := by
  simp only [changedKeys, List.mem_cons, List.not_mem_nil, or_false, not_or] at hkey
  obtain ⟨himport, hspecifiers, hexport, hid, hparams, hvariance, hreadonly⟩ := hkey
  cases rule with
  | importDeclaration =>
    rw [keptAs, importedAs]
    split
    · exact Json.get?_set_ne himport _
    split
    · rfl
    split
    · exact Json.get?_set_ne hspecifiers _
    · rfl
  | exportNamed => exact Json.get?_erase_ne hexport
  | declarator =>
    rw [keptAs, declaredAs]
    split
    · split
      · split
        · split
          · exact Json.get?_set_ne hid _
          · rfl
        · rfl
      · rfl
    · rfl
  | functionDeclaration =>
    rw [keptAs, annotateWithAny]
    split
    · split
      · exact Json.get?_set_ne hparams _
      · rfl
    · rfl
  | classProperty =>
    rw [keptAs, propertyAs]
    split
    · rfl
    split
    · rw [Json.get?_set_ne hreadonly, Json.get?_set_ne hvariance]
    · exact Json.get?_set_ne hvariance _
  | _ => rfl

/-- It leaves its kind. -/
theorem keptAs_kind : (keptAs o site n rule).kind = n.kind := kind_congr (keptAs_get? (by decide))

/-- A node that is kept is a node. -/
theorem keptAs_isNode : (keptAs o site n rule).isNode = n.isNode :=
  isNode_congr (keptAs_get? (by decide))

/-- To the rules around it, it looks the same. -/
theorem keptAs_looks (hn : n.isNode = true) : Json.Looks n (keptAs o site n rule) := by
  refine .of_isNode hn (keptAs_isNode.trans hn) ?_
  rw [Json.namesReactClass, Json.namesReactClass, Json.hasText, Json.hasText, Json.hasText,
    Json.hasText, keptAs_get? (by decide), keptAs_get? (by decide)]

/-! ## Keys -/

/-- A field set keeps the keys distinct. -/
theorem keys_set (h : ((entriesOf n).map (·.1)).Nodup) (key : String) (v : Json) :
    ((entriesOf (n.set key v)).map (·.1)).Nodup := by
  cases n with
  | obj l => exact Entries.nodup_set h v
  | _ => exact h

/-- So does a field erased. -/
theorem keys_erase (h : ((entriesOf n).map (·.1)).Nodup) (key : String) :
    ((entriesOf (n.erase key)).map (·.1)).Nodup := by
  cases n with
  | obj l => exact h.sublist (List.filter_sublist.map _)
  | _ => exact h

/-- So does a rule that keeps a node. -/
theorem keys_keptAs (h : ((entriesOf n).map (·.1)).Nodup) :
    ((entriesOf (keptAs o site n rule)).map (·.1)).Nodup := by
  cases rule with
  | importDeclaration =>
    rw [keptAs, importedAs]
    split
    · exact keys_set h _ _
    split
    · exact h
    split
    · exact keys_set h _ _
    · exact h
  | exportNamed => exact keys_erase h _
  | declarator =>
    rw [keptAs, declaredAs]
    split
    · split
      · split
        · split
          · exact keys_set h _ _
          · exact h
        · exact h
      · exact h
    · exact h
  | functionDeclaration =>
    rw [keptAs, annotateWithAny]
    split
    · split
      · exact keys_set h _ _
      · exact h
    · exact h
  | classProperty =>
    rw [keptAs, propertyAs]
    split
    · exact h
    split
    · exact keys_set (keys_set h _ _) _ _
    · exact keys_set h _ _
  | _ => exact h

/-! ## What is walked next -/

/-- A test holds everywhere in a value. -/
abbrev Everywhere (p : Json → Bool) (v : Json) : Prop := v.everywhere p = true

variable {D : Prop} {p : Json → Bool} {k : Nat}

namespace DueParts

/-- Parts that are due within a bound are due within a larger one. -/
theorem mono {k' : Nat} (h : DueParts D (Everywhere p) k n) (hk : k ≤ k') :
    DueParts D (Everywhere p) k' n :=
  fun entry hentry hkey => (h entry hentry hkey).mono hk

/-- The parts of a node of the source. -/
theorem source (h : n.everywhere p = true) : DueParts D (Everywhere p) (8 * n.nesting - 4) n := by
  cases n with
  | obj l =>
    intro entry hentry _
    have hlt : entry.2.nesting < (Json.obj l).nesting := Json.nesting_lt_of_mem hentry
    exact .source (by omega) (Json.everywhere_of_entry h hentry)
  | _ => exact nofun

/-- A field may be set to a value that is due. -/
theorem set (h : DueParts D (Everywhere p) k n) {v : Json} (hv : Due D (Everywhere p) k v) :
    DueParts D (Everywhere p) k (n.set key v) := by
  cases n with
  | obj l =>
    intro entry hentry hmeta
    rcases Entries.mem_set hentry with hentry | rfl
    · exact h entry hentry hmeta
    · exact hv
  | _ => exact h

/-- A field may be erased. -/
theorem erase (h : DueParts D (Everywhere p) k n) : DueParts D (Everywhere p) k (n.erase key) := by
  cases n with
  | obj l => exact fun entry hentry => h entry (List.mem_filter.1 hentry).1
  | _ => exact h

end DueParts

/-- A name is a node without rules. -/
theorem isNode_of_hasText {text : String} (h : n.hasText "type" text = true) : n.isNode = true := by
  rw [Erasure.isNode_eq, get?_of_hasText h]
  rfl

/-- A node of a kind without rules has no rule. -/
theorem ruleless_of_hasText {kind : String} (h : n.hasText "type" kind = true)
    (hkind : Ruleless kind) : n.isNode = true ∧ Ruleless n.kind := by
  rw [Json.hasText] at h
  split at h
  next s hget =>
    obtain rfl : s = kind := eq_of_beq h
    refine ⟨?_, ?_⟩
    · rw [isNode_congr (n := .obj [("type", .str s)]) (by rw [hget]; rfl)]
      rfl
    · rwa [Json.kind, Json.textAt, hget]
  next => cases h

section
variable (hD : D → ∀ l : Entries, p (.obj l) = true → (l.map (·.1)).Nodup)

include hD in
/-- A node of the source that gets another field. -/
theorem due_set {s v : Json} {kind : String} (hs : s.everywhere p = true)
    (htype : s.hasText "type" kind = true) (hkind : Memberless kind)
    (hkey : key ∉ ["type", "types"])
    (hk : 8 * s.nesting - 4 ≤ k) (hv : Due D (Everywhere p) k v) :
    Due D (Everywhere p) (k + 1) (s.set key v) := by
  obtain ⟨hnode, hruleless⟩ := ruleless_of_hasText htype hkind.1
  have hfenced := isFenced_of_kind (get?_of_hasText htype) hkind.2
  refine (Written.set ⟨hnode, hruleless, fun d => ?_, hfenced, (DueParts.source hs).mono hk⟩ hkey
    fun _ => hv).due
  cases s with
  | obj l => exact hD d l (Json.everywhere_self hs)
  | _ => exact List.nodup_nil

/-- The types that variables and parameters of test files get. -/
theorem anyAnnotation_due : Due D (Everywhere p) 5 anyAnnotation :=
  Due.annotated (Laid.word .any).due

/-- The annotation a variable's value gives is due within nine. -/
theorem variableAnnotation?_due {init type : Json} (h : variableAnnotation? init = some type) :
    Due D (Everywhere p) 9 type := by
  rw [variableAnnotation?] at h
  split at h
  · exact Option.some.inj h ▸ anyAnnotation_due.mono (by decide)
  split at h
  · refine Option.some.inj h ▸ Due.annotated (Laid.due (k := 8) (.of_parts ?_ rfl rfl rfl))
    simp only [TsType.parts, List.flatMap_cons, TsMember.types, List.flatMap_nil, List.append_nil,
      List.forall_mem_cons]
    exact ⟨.word .string, .word .any, List.forall_mem_nil _⟩
  split at h
  · refine Option.some.inj h ▸ Due.annotated (Laid.due (k := 8) (.reference (by decide) ?_))
    rintro _ ⟨⟩
    exact List.forall_mem_singleton.2 (.word .any)
  · cases h

include hD in
/-- Parameters that are given `any` are due. -/
theorem params_due {params : List Json}
    (h : ∀ param ∈ params, param.everywhere p = true ∧ 8 * param.nesting + 4 ≤ k) (hk : 5 < k) :
    Due D (Everywhere p) k (.arr (params.map fun param =>
      if isUnannotated param then param.set "typeAnnotation" anyAnnotation else param)) := by
  refine .arr (List.forall_mem_map.2 fun param hparam => ?_)
  obtain ⟨hsource, hnesting⟩ := h param hparam
  split
  next hid =>
    obtain ⟨k, rfl⟩ : ∃ j, k = j + 1 := ⟨k - 1, by omega⟩
    rw [isUnannotated, Bool.and_eq_true] at hid
    exact due_set hD hsource hid.1 (by decide) (by decide) (by omega)
      (anyAnnotation_due.mono (by omega))
  next => exact .source hnesting hsource

include hD in
/-- **What is walked below a node that keeps its place.** -/
theorem keptAs_due (hn : n.everywhere p = true) (hk : 8 * n.nesting + 4 ≤ k + 1) :
    DueParts D (Everywhere p) k (keptAs o site n rule) := by
  have hparts : DueParts D (Everywhere p) k n := (DueParts.source hn).mono (by omega)
  have hitems {key : String} {items : List Json} (hget : n.get? key = some (.arr items)) :
      ∀ item ∈ items, item.everywhere p = true ∧ 8 * item.nesting + 4 ≤ k - 1 := by
    intro item hitem
    have hwithin := Json.Within.of_item hget hitem
    have hlt := hwithin.nesting_lt
    exact ⟨hwithin.everywhere hn, by omega⟩
  cases rule with
  | importDeclaration =>
    rw [keptAs, importedAs]
    split
    · exact hparts.set (.str _)
    split
    · exact hparts
    split
    next specifiers hget =>
      refine hparts.set (.arr (List.forall_mem_map.2 fun s hs => ?_))
      obtain ⟨hsource, hnesting⟩ := hitems hget s hs
      rw [plainSpecifier]
      split
      next htype =>
        rw [Bool.and_eq_true] at htype
        exact (due_set hD hsource htype.1 (by decide) (by decide) (Nat.le_refl _) .null).mono
          (by omega)
      next => exact .source (by omega) hsource
    next => exact hparts
  | exportNamed => exact hparts.erase
  | declarator =>
    rw [keptAs, declaredAs]
    split
    · split
      next id hid =>
        split
        next hun =>
          split
          next type htype =>
            have hwithin := Json.Within.of_get? hid
            have hlt := hwithin.nesting_lt
            rw [isUnannotated, Bool.and_eq_true] at hun
            obtain ⟨k, rfl⟩ : ∃ j, k = j + 1 := ⟨k - 1, by omega⟩
            refine hparts.set (due_set hD (hwithin.everywhere hn) hun.1 (by decide) (by decide)
              (by omega) ((variableAnnotation?_due htype).mono ?_))
            have hpos : 0 < id.nesting := Flow.nesting_pos_of_hasText hun.1
            omega
          next => exact hparts
        next => exact hparts
      next => exact hparts
    · exact hparts
  | functionDeclaration =>
    rw [keptAs, annotateWithAny]
    split
    · split
      next params hget =>
        cases params with
        | nil => exact hparts.set (.arr (List.forall_mem_nil _))
        | cons param rest =>
          refine hparts.set (params_due hD (fun q hq => ?_) ?_)
          · exact (hitems hget q hq).imp_right fun h => Nat.le_trans h (Nat.sub_le k 1)
          · have hlt := (Json.Within.of_item hget List.mem_cons_self).nesting_lt
            omega
      next => exact hparts
    · exact hparts
  | classProperty =>
    rw [keptAs, propertyAs]
    split
    · exact hparts
    split
    · exact (hparts.set .null).set (.bool true)
    · exact hparts.set .null
  | _ => exact hparts

end

end Retype.Migration
