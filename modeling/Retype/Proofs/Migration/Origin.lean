import Retype.Proofs.Migration.Positions
import Retype.Proofs.Migration.Reach
import Retype.Proofs.Migration.Runtime
/-!
# What is left of Flow

Every node of a rewritten tree is free of what only Flow has
(`origin_gone`). In the first stage this is so because a walk enters what it
writes as it enters the source, and no rule writes a node that has a rule to
be replaced. The second stage adds types that no walk has entered. They were
written throughout, apart from the keys of their properties, so these must be
plain.
-/

namespace Retype.Migration

open Syntax (Place)
open TypeScript (node identifier)

/-! ## Nodes that are free of Flow -/

/-- The kinds of nodes that are replaced or refused. -/
def originKinds : List String :=
  ["TypeAnnotation", "TypeParameterDeclaration", "TypeParameterInstantiation", "TypeAlias",
    "OpaqueType", "InterfaceDeclaration", "ClassImplements", "TypeCastExpression"]
  ++ flowOnlyKinds

/-- A node has nothing that only Flow has: neither a kind, nor the variance of
a property, nor the sort of an export. -/
structure OriginFree (n : Json) : Prop where
  kind (kind : String) (h : kind ∈ originKinds) : n.hasText "type" kind = false
  variance (h : n.kindIn ["ClassProperty", "ClassPrivateProperty"] = true) :
    Location.objectAt? n "variance" = none
  exportKind (h : n.hasText "type" "ExportNamedDeclaration" = true) : n.get? "exportKind" = none

variable {n n' v : Json} {site : Site}

theorem OriginFree.congr (h : OriginFree n)
    (hget : ∀ key ∈ ["type", "variance", "exportKind"], n'.get? key = n.get? key) :
    OriginFree n' := by
  have htype := hget "type" (by decide)
  have hvariance := hget "variance" (by decide)
  have hexport := hget "exportKind" (by decide)
  refine ⟨fun kind hkind => ?_, fun hkind => ?_, fun hkind => ?_⟩
  · rw [Json.hasText_congr htype]
    exact h.kind kind hkind
  · rw [Location.objectAt?, hvariance]
    refine h.variance ?_
    simpa only [Json.kindIn, Json.hasText_congr htype] using hkind
  · rw [hexport]
    exact h.exportKind ((Json.hasText_congr htype _).symm.trans hkind)

/-- The kinds of which a node may not be, or not with all fields, have rules. -/
theorem enterRule?_ne_none {kind : String}
    (h : kind ∈ originKinds ++
      ["ClassProperty", "ClassPrivateProperty", "ExportNamedDeclaration"]) :
    enterRule? kind ≠ none := by
  revert kind
  decide

/-- A node without a rule on the way down is free of Flow. -/
theorem OriginFree.of_enterRule (h : enterRule? n.kind = none) : OriginFree n := by
  have hne {kind : String} (hkind : n.hasText "type" kind = true) : enterRule? kind = none := by
    rwa [kind_of_kind (get?_of_hasText hkind)] at h
  refine ⟨fun kind hkind => ?_, fun hkind => ?_, fun hkind => ?_⟩
  · cases htext : n.hasText "type" kind with
    | false => rfl
    | true => exact absurd (hne htext) (enterRule?_ne_none (List.mem_append_left _ hkind))
  · obtain ⟨kind, hmem, htext⟩ := List.any_eq_true.1 hkind
    refine absurd (hne htext) (enterRule?_ne_none (List.mem_append_right _ ?_))
    exact List.mem_append_left ["ExportNamedDeclaration"] hmem
  · exact absurd (hne hkind) (enterRule?_ne_none (by decide))

theorem stable_originFree : Stable False fun _ n => OriginFree n where
  ruleless _ kind _ := .of_enterRule kind.1
  keys _ := False.elim
  erase h :=
    h.congr fun key hkey => Json.get?_erase_ne (by rintro rfl; exact absurd hkey (by decide))
  pattern h _ _ :=
    h.congr fun key hkey => Json.get?_set_ne (by rintro rfl; exact absurd hkey (by decide)) _
  agrees h _ := h

/-! ## The first stage -/

variable {o : FileOptions} {rule : EnterRule}

/-- Kinds whose nodes keep their place are no kinds of Flow. -/
theorem keepsPlace_of_originKind {kind : String} (h : kind ∈ originKinds)
    (hrule : enterRule? kind = some rule) : rule.keepsPlace = false := by
  have hall : ∀ kind ∈ originKinds, (enterRule? kind).any (·.keepsPlace) = false := by decide
  simpa [hrule] using hall kind h

theorem OriginFree.of_kept {R : Site → Json → Json → Bool → Prop} {c : Json}
    (hrule : enterRule? n.kind = some rule) (hkeeps : rule.keepsPlace = true)
    (hchildren : ChildrenWalked R site (keptAs o site n rule) c) (hleaves : Leaves o c n') :
    OriginFree n' := by
  have htype := hleaves.get?_eq (show "type" ∉ ["body", "params", "left"] by decide)
  -- the rule that the node had is the one of what it has become
  have hrule' : enterRule? n'.kind = some rule := by
    rw [enterRule?_kind, plainKind_congr htype, hchildren.plainKind_eq, ← enterRule?_kind,
      keptAs_kind, hrule]
  have hkind {kind : String} (h : n'.hasText "type" kind = true) : enterRule? kind = some rule := by
    rwa [kind_of_kind (get?_of_hasText h)] at hrule'
  refine ⟨fun kind hmem => ?_, fun h => ?_, fun h => ?_⟩
  · cases htext : n'.hasText "type" kind with
    | false => rfl
    | true =>
      rw [keepsPlace_of_originKind hmem (hkind htext)] at hkeeps
      cases hkeeps
  · obtain ⟨kind, hmem, htext⟩ := List.any_eq_true.1 h
    obtain rfl : .classProperty = rule := by
      have hrule := hkind htext
      simp only [List.mem_cons, List.not_mem_nil, or_false] at hmem
      rcases hmem with rfl | rfl <;> exact Option.some.inj hrule
    rw [Location.objectAt?, hleaves.get?_eq (by decide)]
    exact hchildren.objectAt?_eq_none (by decide) (propertyAs_variance n)
  · obtain rfl : .exportNamed = rule := Option.some.inj (hkind h)
    rw [hleaves.get?_eq (by decide)]
    exact hchildren.get?_eq_none (by decide) Json.get?_erase_self

/-- **What has become of a node is free of Flow.** -/
theorem OriginFree.of_passed {p : Json → Bool} {R : Site → Json → Json → Bool → Prop} {mark : Bool}
    (h : Passed False p o R site n n' mark) : OriginFree n' := by
  obtain ⟨m, c, henters, hchildren, hleaves⟩ := h.passes
  have hfree (hm : enterRule? m.kind = none) : OriginFree n' := by
    refine .of_enterRule ?_
    rw [enterRule?_kind, plainKind_congr (hleaves.get?_eq (by decide)), hchildren.plainKind_eq,
      ← enterRule?_kind, hm]
  cases henters with
  | free ruleless => exact hfree ruleless
  | kept rules keeps => exact .of_kept rules keeps hchildren hleaves
  | replaced _ _ _ replaced => exact hfree (replaced.written.inherit n).kind.1

theorem helperImport_originFree (o : FileOptions) : OriginFree (helperImport o) := by
  have htype : (helperImport o).get? "type" = some (.str "ImportDeclaration") := get?_type_node _ _
  refine ⟨fun kind hkind => ?_, fun hkind => ?_, fun hkind => ?_⟩
  · rw [hasText_of_kind htype, beq_eq_false_iff_ne]
    rintro rfl
    exact absurd hkind (by decide)
  · rw [kindIn_of_kind htype] at hkind
    exact absurd hkind (by decide)
  · rw [hasText_of_kind htype] at hkind
    exact absurd hkind (by decide)

theorem rewriteTree_originFree {tree rewritten : Json} {progress : Progress}
    (hroot : tree.kind ∈ rootKinds) (h : rewriteTree o tree = (.ok rewritten, progress)) :
    Throughout (fun _ n => OriginFree n) .root rewritten := by
  have hsource : tree.everywhere (fun _ => true) = true :=
    Json.everywhere_of_forall (fun _ => rfl) tree
  obtain ⟨mark, hmark⟩ := rewriteTree_passes (D := False) (p := fun _ => true) nofun
    (fun site n n' mark hn hpassed => Passed.throughout stable_originFree
      (fun _ => helperImport_originFree o) hn hpassed (.of_passed hpassed)) hroot hsource h
  exact hmark

/-! ## The second stage -/

/-- Every node that is reached from one is free of Flow. -/
abbrev FreeBelow (n : Json) : Prop := AllBelow OriginFree n

/-- Every node that is reached from an annotation is free of Flow. -/
abbrev FreeAnnotation (a : Option Json) : Prop := AllGiven OriginFree a

theorem Throughout.freeBelow (h : Throughout (fun _ n => OriginFree n) site n) : FreeBelow n :=
  h.allBelow

theorem OriginFree.of_rel {l l' : Entries} (h : OriginFree (.obj l))
    (hrel : l.Rel (fun _ => Json.SameSort) l') : OriginFree (.obj l') := by
  refine ⟨fun kind hkind => ?_, fun hkind => ?_, fun hkind => ?_⟩
  · rw [hasText_of_rel hrel]
    exact h.kind kind hkind
  · simp only [Json.kindIn, hasText_of_rel hrel] at hkind
    have hvariance := objectAt?_eq_none_iff.1 (h.variance hkind)
    have hentry := hrel.get? "variance"
    refine objectAt?_eq_none_iff.2 fun v hget => ?_
    rw [show Entries.get? l' "variance" = some v from hget] at hentry
    generalize hw : Entries.get? l "variance" = w at hentry
    cases hentry with
    | some hsort => exact hsort.isObject_eq.trans (hvariance _ hw)
  · rw [hasText_of_rel hrel] at hkind
    have hentry := hrel.get? "exportKind"
    rw [show Entries.get? l "exportKind" = none from h.exportKind hkind] at hentry
    change Entries.get? l' "exportKind" = none
    generalize Entries.get? l' "exportKind" = w at hentry
    cases hentry
    rfl

theorem unseen_originFree : Unseen OriginFree where
  rel h hrel := h.of_rel (hrel.mono fun _ _ _ h => h.sort)
  set {n v key} h hkey := by
    refine h.congr fun key' hmem => Json.get?_set_ne ?_ v
    have hall : ∀ key ∈ ["params", "typeAnnotation"], key ∉ ["type", "variance", "exportKind"] := by
      decide
    rintro rfl
    exact hall _ hkey hmem

theorem annotates_staysFree : Annotates FreeAnnotation (Stays OriginFree) :=
  annotates_stays unseen_originFree

/-! ## Inferred types -/

/-- The key of a property is plain: a name, or a literal, that holds no node. -/
def isPlainKey (key : Json) : Bool :=
  key.kindIn ["Identifier", "StringLiteral", "NumericLiteral"] &&
    (entriesOf key).all fun entry =>
      Json.metadataKeys.contains entry.1 || entry.2.nodes.isEmpty

/-- A property of an object type has a plain key. -/
def keyIsPlain (n : Json) : Bool :=
  !n.hasText "type" "ObjectTypeProperty" || (n.get? "key").all isPlainKey

theorem isPlainKey_stripPositions {key : Json} (h : isPlainKey key = true) :
    isPlainKey key.stripPositions = true := by
  rw [isPlainKey, Bool.and_eq_true] at h ⊢
  refine ⟨by simpa only [Json.kindIn, hasText_stripPositions] using h.1, ?_⟩
  rw [List.all_eq_true] at h ⊢
  intro entry hentry
  cases key with
  | obj l =>
    obtain ⟨w, hmem, heq⟩ := mem_stripEntries hentry
    have hentry := h.2 _ hmem
    rw [Bool.or_eq_true] at hentry ⊢
    refine hentry.imp_right fun hempty => ?_
    rw [heq, nodes_stripPositions, List.isEmpty_map]
    exact hempty
  | _ => cases hentry

theorem keyIsPlain_stripPositions {v : Json} (h : keyIsPlain v = true) :
    keyIsPlain v.stripPositions = true := by
  rw [keyIsPlain, Bool.or_eq_true] at h ⊢
  rw [hasText_stripPositions, get?_stripPositions (by decide)]
  refine h.imp_right fun hkey => ?_
  cases hget : v.get? "key" with
  | none => rfl
  | some key =>
    rw [hget] at hkey
    exact isPlainKey_stripPositions hkey

theorem keyRule_keyIsPlain : Flow.KeyRule (fun key => isPlainKey key = true) keyIsPlain := by
  intro n key h hproperty hkey
  have hself := Json.everywhere_self h
  rw [keyIsPlain, hproperty, hkey] at hself
  exact hself

/-- A plain key reaches nothing of Flow. -/
theorem throughout_plainKey {key : Json} (h : isPlainKey key = true) (site : Site) :
    ThroughoutValue (fun _ n => OriginFree n) site key := by
  rw [isPlainKey, Bool.and_eq_true, List.all_eq_true] at h
  obtain ⟨kind, hmem, htext⟩ := List.any_eq_true.1 h.1
  have hall : ∀ kind ∈ ["Identifier", "StringLiteral", "NumericLiteral"], Ruleless kind := by
    decide
  obtain ⟨hn, hruleless⟩ := ruleless_of_hasText htext (hall kind hmem)
  refine (Throughout.of_entries hn (.of_enterRule hruleless.1) fun entry hentry hmeta => ?_).value
  have hnodes := h.2 entry hentry
  rw [Bool.or_eq_true, List.contains_iff_mem, List.isEmpty_iff] at hnodes
  rw [ThroughoutValue, hnodes.resolve_left hmeta]
  exact List.forall_mem_nil _

/-- An annotation, if there is one, is that of a type that was laid out. -/
def GivenLaid (K : Json → Prop) (a : Option Json) : Prop :=
  ∀ annotation, a = some annotation → ∃ k u, Laid K k u ∧
    annotation = TypeScript.annotationNode (TypeScript.encode u)

theorem Laid.given {K : Json → Prop} {k : Nat} {u : TsType} (h : Laid K k u) :
    GivenLaid K (some (TypeScript.annotationNode (TypeScript.encode u))) := by
  rintro _ ⟨⟩
  exact ⟨k, u, h, rfl⟩

/-- **What is inferred for a parameter was laid out**, if the keys in the
inferred type pass a test. -/
theorem annotationInferred_laid {K : Json → Prop} {q : Json → Bool} (hK : Flow.KeyRule K q)
    (hq : ∀ w, q w = true → q w.stripPositions = true) {location : Location}
    {inferred : Option Json} (h : ∀ type, inferred = some type → type.everywhere q = true) :
    (annotationInferred o location inferred).Yields (GivenLaid K) := by
  have hgiven (t : TsType) (ht : ∃ k, Laid K k t) : (annotationOf t).Yields (GivenLaid K) := by
    obtain ⟨k, ht⟩ := ht
    have halias : inferredAny.Yields (Laid K 4) := anyAlias_laid (k := 0) .inferred nofun
    rw [annotationOf]
    split
    · exact .bind (halias.mono fun u hu => .pure hu.given)
    · exact .bind (.pure (.pure ht.given))
  refine annotationInferred_yields fun type htype => ?_
  refine .ite (fun _ => .pure (hgiven _ ⟨4, .word .any⟩)) fun _ => ?_
  have hkeys := everywhere_stripPositions hq (h type htype)
  exact .bind (.ofResult ((Flow.decodeType_spans _ hK _ hkeys).mono
    fun t ht => (migrate_laid o.types ht).mono fun u hu => hgiven u ⟨_, hu⟩))

/-- What is inferred for a parameter reaches nothing of Flow. -/
theorem annotationInferred_free {location : Location} {inferred : Option Json}
    (h : ∀ type, inferred = some type → type.everywhere keyIsPlain = true) :
    (annotationInferred o location inferred).Yields FreeAnnotation := by
  refine ( annotationInferred_laid keyRule_keyIsPlain (fun _ => keyIsPlain_stripPositions) h).mono
    fun a ha annotation hsome => ?_
  obtain ⟨k, u, hu, rfl⟩ := ha annotation hsome
  have hdue : Due False (fun key => isPlainKey key = true) (k + 1) _ := Due.annotated hu.due
  have hfree : ThroughoutValue (fun _ n => OriginFree n) .root _ :=
    hdue.throughout stable_originFree fun site v hv => throughout_plainKey hv site
  exact fun child hchild => (hfree child hchild).freeBelow

/-! ## Both stages -/

/-- An annotation is one that was inferred. The keys in the inferred type, if
there is one, are plain. -/
def Inferred (o : FileOptions) (a : Option Json) : Prop :=
  ∃ location inferred, (annotationInferred o location inferred).result = .ok a ∧
    ∀ type, inferred = some type → type.everywhere keyIsPlain = true

/-- **Nothing of Flow survives.** Let the root of a tree be a file or a program.
If it is rewritten, then whatever is inferred for the parameters that wait, no
node that is reached in the outcome is of a kind of Flow, no property of a
class has a variance, and no export says what sort it is of. -/
theorem origin_gone {tree rewritten n : Json} {progress : Progress}
    {annotations : List (Option Json)} (hroot : tree.kind ∈ rootKinds)
    (h : rewriteTree o tree = (.ok rewritten, progress))
    (hannotations : ∀ a ∈ annotations, Inferred o a)
    (hn : Reaches (annotateWaiting o annotations rewritten) n) : OriginFree n := by
  have hfirst := rewriteTree_originFree hroot h
  have hfree : ∀ a ∈ annotations, FreeAnnotation a := by
    intro a ha
    obtain ⟨location, inferred, hresult, hplain⟩ := hannotations a ha
    exact annotationInferred_free hplain a hresult
  have hstays := annotateWaiting_related o annotates_staysFree hfree rewritten
  have hvalue := hstays.free (hfirst.freeBelow.value hfirst.isNode)
  exact hvalue.node (hstays.isNode.trans hfirst.isNode) n hn

/-- `{ a: string }`, as a type that was inferred. -/
def inferredObject : Json :=
  node "ObjectTypeAnnotation" [
    ("properties", .arr [node "ObjectTypeProperty" [("key", identifier "a" []),
      ("value", node "StringTypeAnnotation" []), ("kind", .str "init"),
      ("static", .bool false), ("optional", .bool false), ("method", .bool false),
      ("proto", .bool false), ("variance", .null)]]),
    ("indexers", .arr []), ("callProperties", .arr []), ("internalSlots", .arr []),
    ("exact", .bool false), ("inexact", .bool false)]

/-- An alias, a cast and an inferred type leave nothing of Flow. -/
theorem origin_gone_castingFile : ∃ rewritten p annotation,
    rewriteTree inferring castingFile = (.ok rewritten, p) ∧
      Inferred inferring (some annotation) ∧
      ∀ n, Reaches (annotateWaiting inferring [some annotation] rewritten) n → OriginFree n := by
  let inferred := (annotationInferred inferring default (some inferredObject)).result
  have hok : (rewriteTree inferring castingFile).1.toOption.isSome = true := by decide +kernel
  have hsome : inferred.toOption.join.isSome = true := by decide +kernel
  match hrun : rewriteTree inferring castingFile, hresult : inferred with
  | (.error _, _), _ =>
    rw [hrun] at hok
    cases hok
  | (.ok _, _), .error _ | (.ok _, _), .ok none =>
    cases hsome
  | (.ok rewritten, p), .ok (some annotation) =>
    have hannotation : Inferred inferring (some annotation) :=
      ⟨default, some inferredObject, hresult, fun _ h => Option.some.inj h ▸ by decide⟩
    refine ⟨rewritten, p, annotation, rfl, hannotation, fun n hn => ?_⟩
    refine origin_gone (by decide) hrun (fun a ha => ?_) hn
    rw [List.mem_singleton.1 ha]
    exact hannotation

end Retype.Migration
