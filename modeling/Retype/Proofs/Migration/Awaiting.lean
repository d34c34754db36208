import Retype.Proofs.Migration.Carrying
import Retype.Proofs.Migration.Inferred
import Retype.Proofs.Migration.Taking
/-!
# The parameters that are asked about

The types of the parameters of some functions are asked for: of the methods of
a class, of the methods in a call of `createReactClass`, and, outside of test
files, of function declarations (`paramsIn`). The walk meets all of them, in the
order in which they stand in the tree (`rewriteNoting_params`), and each is as
open once the tree has been rewritten as it was before (`rewriteTree_params`).
-/

namespace Retype

open Syntax (Place Meeting)

namespace Migration

/-- The kinds of the functions whose parameters may be asked about. -/
def askingKinds : List String := ["FunctionDeclaration", "ClassMethod", "ObjectMethod"]

/-- Whether the parameters of a node are asked about, given whether the node
stands inside a call of `createReactClass`. -/
def asksTypes (o : FileOptions) (inside : Bool) (n : Json) : Bool :=
  n.kind == "ClassMethod" || (n.kind == "ObjectMethod" && inside) ||
    (n.kind == "FunctionDeclaration" && !o.isTestFile)

/-- The parameters of a node, if they are asked about. -/
def ownParams (o : FileOptions) (inside : Bool) (n : Json) : List Json :=
  if asksTypes o inside n then n.itemsAt "params" else []

/-- The parameters in a tree that are asked about, in the order of a walk. -/
def paramsIn (o : FileOptions) (tree : Json) : List Json := collectIn (ownParams o) false tree

/-- Whether functions stand in statements and expressions only, at a node, as at every
node that Babel parses. -/
def functionsInPlace : Json → Bool := inPlace askingKinds

end Migration

/-- The parameters that a meeting accounts for. -/
def Syntax.Meeting.params (o : Migration.FileOptions) (m : Meeting) : List Json :=
  Migration.ownParams o (Migration.insideCreateReactClass m.place m.node) m.node

namespace Migration

variable {o : FileOptions} {inside : Bool} {n n' m c : Json} {site : Site} {mark : Bool}
  {param param' : Json}

/-! ## Who is asked -/

/-- A node of another kind asks for no types. -/
theorem asksTypes_of_kind (h : n.kind ∉ askingKinds) : asksTypes o inside n = false := by
  simp only [askingKinds, List.mem_cons, List.not_mem_nil, or_false, not_or] at h
  simp [asksTypes, h]

/-- The walk and the second stage ask about the same parameters. -/
theorem awaitsTypes_eq : awaitsTypes o inside n = asksTypes o inside n := by
  by_cases hkind : n.kind ∈ askingKinds
  · simp only [askingKinds, List.mem_cons, List.not_mem_nil, or_false] at hkind
    rw [awaitsTypes, asksTypes]
    rcases hkind with hkind | hkind | hkind <;> rw [hkind] <;> simp [enterRule?] <;> rfl
  · have hrules : ∀ entry ∈ enterRules,
        entry.2 ∈ [.functionDeclaration, .classMethod, .objectMethod] → entry.1 ∈ askingKinds := by
      decide
    rw [asksTypes_of_kind hkind, awaitsTypes]
    have hrule {rule : EnterRule} (h : enterRule? n.kind = some rule) :
        rule ∉ [.functionDeclaration, .classMethod, .objectMethod] :=
      fun hmem => hkind (hrules _ (mem_of_enterRule h) hmem)
    split
    next h => exact absurd (hrule h) (by decide)
    next h => exact absurd (hrule h) (by decide)
    next h => exact absurd (hrule h) (by decide)
    next => rfl

/-- Whether a node asks depends on its plain kind. -/
theorem asksTypes_congr (h : n'.plainKind = n.plainKind) :
    asksTypes o inside n' = asksTypes o inside n := by
  have hkind (kind : String) (hproper : isProper kind = true) :
      (n'.kind == kind) = (n.kind == kind) := by
    rw [Bool.eq_iff_iff, beq_iff_eq, beq_iff_eq, ← plainKind_eq_iff hproper,
      ← plainKind_eq_iff hproper, h]
  rw [asksTypes, asksTypes, hkind _ rfl, hkind _ rfl, hkind _ rfl]

/-- A node whose plain kind does not ask asks for none. -/
theorem not_asked_of_plainKind (h : n.plainKind ∉ askingKinds) : asksTypes o inside n = false := by
  refine asksTypes_of_kind fun hkind => h ?_
  have hproper : ∀ kind ∈ askingKinds, isProper kind = true := by decide
  rwa [(plainKind_eq_iff (hproper _ hkind)).2 rfl]

/-- A call is not asked itself. -/
theorem asksTypes_insideOf : asksTypes o (insideOf inside n) n = asksTypes o inside n := by
  by_cases hkind : n.kind ∈ askingKinds
  · rw [insideOf_of_kind]
    intro hcall
    rw [hcall] at hkind
    exact absurd hkind (by decide)
  · rw [asksTypes_of_kind hkind, asksTypes_of_kind hkind]

/-- Such a node has no parameters of its own to ask about. -/
theorem ownParams_of_not_asked (h : asksTypes o inside n = false) : ownParams o inside n = [] := by
  rw [ownParams, h]
  rfl

/-- A marker changes no parameters. -/
theorem ownParams_markerFree (o : FileOptions) : MarkerFree (ownParams o) askingKinds where
  ofKinds := ⟨fun h => ownParams_of_not_asked (asksTypes_of_kind h), by decide, by decide⟩
  erase inside n := by
    have hkind : (n.erase "optional").kind = n.kind := kind_congr (Json.get?_erase_ne (by decide))
    rw [ownParams, ownParams, asksTypes, asksTypes, hkind, Json.itemsAt, Json.itemsAt,
      Json.get?_erase_ne (by decide)]
  helper _ := rfl
  patterns := by decide
  program := by decide

/-! ## What becomes of a parameter -/

/-- A parameter that is called as another one, stands where that stands, and is
a name without an annotation if that is. -/
structure SameParam (param param' : Json) : Prop where
  unannotated : isUnannotated param' = isUnannotated param
  loc (h : isUnannotated param = true) : param'.get? "loc" = param.get? "loc"
  name (h : isUnannotated param = true) (text : String) :
    param'.hasText "name" text = param.hasText "name" text

/-- A parameter is the same as itself. -/
theorem SameParam.refl (param : Json) : SameParam param param := ⟨rfl, fun _ => rfl, fun _ _ => rfl⟩

/-- Two that are the same as a third are the same. -/
theorem SameParam.trans {param'' : Json} (h : SameParam param param')
    (h' : SameParam param' param'') : SameParam param param'' :=
  ⟨h'.unannotated.trans h.unannotated,
    fun hun => (h'.loc (h.unannotated.trans hun)).trans (h.loc hun),
    fun hun text => (h'.name (h.unannotated.trans hun) text).trans (h.name hun text)⟩

/-- A reordered parameter is the same parameter. -/
theorem Reordered.same (h : Reordered param param') : SameParam param param' :=
  ⟨h.isUnannotated_eq, fun _ => h.get? "loc" (by decide),
    fun _ => Json.hasText_congr (h.get? "name" (by decide))⟩

/-- So is one that was walked. -/
theorem ItemWalked.same {R : Site → Json → Json → Bool → Prop} {marked : Prop}
    (h : ItemWalked R site marked param param') : SameParam param param' := by
  have alike (halike : Alike param param') : SameParam param param' :=
    ⟨isUnannotated_congr (halike.hasText_eq (by decide) _) (halike.holds_eq (by decide)),
      fun _ => halike.metadata "loc" (by decide), fun _ => halike.hasText_eq (by decide)⟩
  by_cases hname : param'.hasText "type" "Identifier" = true
  · exact alike (h.alike_of_hasText (by decide) (by decide) hname)
  by_cases hname' : param.hasText "type" "Identifier" = true
  · exact alike (h.alike_of_name hname')
  · -- neither is a name
    have hun : isUnannotated param = false := by simp [isUnannotated, hname']
    refine ⟨by simp [isUnannotated, hname, hname'], fun h => ?_, fun h => ?_⟩ <;>
      rw [hun] at h <;> cases h

/-- Reordering keeps the parameters, one by one. -/
theorem reorderParams_same (params : List Json) :
    Result.Yields (reorderParams params) (List.Forall₂ SameParam params) :=
  reorderParams_related fun param _ trailing r hr =>
    (reorderParam_reordered param trailing r hr).same

/-- A node whose parameters are asked about stays as it is on the way down. -/
theorem Enters.eq_of_asked {D : Prop} {p : Json → Bool} (h : Enters D p o site n m mark)
    (hasks : asksTypes o inside n = true) : m = n := by
  have hrules : ∀ entry ∈ enterRules, entry.1 ∈ askingKinds →
      entry.2 ∈ [.functionDeclaration, .classMethod, .objectMethod] := by decide
  have hkind : n.kind ∈ askingKinds := by
    by_contra hkind
    rw [asksTypes_of_kind hkind] at hasks
    cases hasks
  cases h with
  | free => rfl
  | @kept rule rules keeps source accepts =>
    have hrule := hrules _ (mem_of_enterRule rules) hkind
    simp only [List.mem_cons, List.not_mem_nil, or_false] at hrule
    rcases hrule with rfl | rfl | rfl
    · have hdeclares : ∀ entry ∈ enterRules, entry.2 = .functionDeclaration →
          entry.1 = "FunctionDeclaration" := by decide
      have hdeclared : n.kind = "FunctionDeclaration" := hdeclares _ (mem_of_enterRule rules) rfl
      have htest : o.isTestFile = false := by simpa [asksTypes, hdeclared] using hasks
      rw [keptAs, htest]
      rfl
    · rfl
    · rfl
  | @replaced rule _ _ _ rules gives =>
    have hkeeps : ∀ rule ∈ [EnterRule.functionDeclaration, .classMethod, .objectMethod],
        rule.keepsPlace = true := by decide
    rw [hkeeps rule (hrules _ (mem_of_enterRule rules) hkind)] at gives
    cases gives

/-- What becomes of the parameters of a node. -/
theorem Passed.ownParams_same {D : Prop} {p : Json → Bool} {R : Site → Json → Json → Bool → Prop}
    (hn : n.isNode = true) (hpassed : Passed D p o R site n n' mark) (inside : Bool) :
    List.Forall₂ SameParam (ownParams o (insideOf inside n) n)
      (ownParams o (insideOf inside n') n') := by
  have hcame := hpassed.came hn
  obtain ⟨m, c, henters, hchildren, hleaves⟩ := hpassed.passes
  rw [ownParams, ownParams, asksTypes_insideOf, asksTypes_insideOf]
  cases hasks : asksTypes o inside n with
  | true =>
    obtain rfl := henters.eq_of_asked hasks
    have hleft : c.plainKind = m.plainKind := hchildren.plainKind_eq
    have hkind : n'.plainKind = m.plainKind :=
      (plainKind_congr (hleaves.get?_eq (by decide))).trans hleft
    have hfunction : m.plainKind ∈ functionKinds := by
      have hall : ∀ kind ∈ askingKinds, kind ∈ functionKinds := by decide
      by_contra hnot
      rw [not_asked_of_plainKind fun hmem => hnot (hall _ hmem)] at hasks
      cases hasks
    rw [asksTypes_congr hkind, hasks, if_pos rfl, if_pos rfl]
    have hwalked :=
      hchildren.itemsAt_rel (show "params" ∉ "optional" :: Json.metadataKeys by decide)
    exact Entries.forall₂_trans (fun _ _ _ hitem hreordered => hitem.same.trans hreordered) hwalked
      (hleaves.params_rel .refl reorderParams_same (hleft ▸ hfunction))
  | false =>
    have hasks' : asksTypes o inside n' = false := by
      rcases hcame.kind with hsame | hwritten
      · rw [asksTypes_congr hsame, hasks]
      · have hall : ∀ kind ∈ writtenKinds, kind ∉ askingKinds := by decide
        exact not_asked_of_plainKind (hall _ hwritten)
    rw [hasks']
    exact .nil

/-- **Each parameter that is asked about is as open once its tree has been
rewritten as it was before.** -/
theorem rewriteTree_params {tree rewritten : Json} {progress : Progress}
    (hroot : tree.kind ∈ rootKinds) (hsource : tree.everywhere functionsInPlace = true)
    (h : rewriteTree o tree = (.ok rewritten, progress)) :
    List.Forall₂ SameParam (paramsIn o tree) (paramsIn o rewritten) :=
  rewriteTree_carries (ownParams_markerFree o) (by decide) .refl
    (fun _ _ _ _ hn hpassed inside => hpassed.ownParams_same hn inside) hroot hsource h

/-! ## What the walk meets -/

/-- **Entering a node asks about its own open parameters and leaves those below to the
walk.** -/
theorem enter_params {k : Nat} {place : Place} (hn : n.isNode = true)
    (hdue : Due True (Everywhere functionsInPlace) (k + 1) n)
    (hplain : AllBelow (PlainMarker (ownParams o)) n) :
    ((rewriter o).enter place n).Yields fun visit =>
      Takes (ownParams o) (Meeting.params o) functionsInPlace k place n visit.node ∧
        OnlyMarkers visit.parentFields := by
  refine (enter_collects (ownParams_markerFree o).ofKinds (by decide) hn hdue hplain).mono
    fun visit hvisit => ?_
  obtain ⟨mark, hover⟩ := hvisit
  have hkeys := hover.enters.keys_nodup (inPlace_nodup trivial) trivial
  refine ⟨⟨hover.enters.isNode hn, hover.enters.looks hn, ?_, hover.replacing.plain, hkeys,
    hover.parts⟩, hover.fields ▸ .markers mark⟩
  rw [collectIn_eq, hover.replacing.collected, Meeting.params, insideCreateReactClass_eq]
  rfl

/-- **The walk meets every parameter that is asked about**, in order. -/
theorem rewriteNoting_params {tree rewritten : Json} {met : List Meeting} {progress : Progress}
    (hroot : tree.kind ∈ rootKinds) (hsource : tree.everywhere functionsInPlace = true)
    (h : rewriteNoting o tree = (.ok (rewritten, met), progress)) :
    paramsIn o tree = met.flatMap (Meeting.params o) :=
  rewriteNoting_takes (inPlace_nodup trivial)
    (fun _ _ _ hn hdue hplain => enter_params hn hdue hplain)
    hroot hsource (plainMarkers_of_source (ownParams_markerFree o).ofKinds hsource) h

end Migration

end Retype
