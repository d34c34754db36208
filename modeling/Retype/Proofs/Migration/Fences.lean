import Retype.Proofs.Migration.Origin
import Retype.Proofs.Migration.Reordering
/-!
# Functions among the members of a type

The arrow of a function type takes in whatever follows it, so a function among
the members of a union or an intersection stands in parentheses. The rewriting
of types and the walk see to that in all places but two (`functions_fenced`):
a type that may be null becomes a union with `null` and `undefined`, and the
type of a parameter one with `undefined`. In these a function stays bare
(`areBareTypes`), and in no other union.
-/

namespace Retype.Migration

open TypeScript (node identifier encode annotationNode)

/-- All types that are reached are fenced. -/
abbrev FencedBelow (n : Json) : Prop := AllBelow (fun n => isFenced n = true) n

/-- All types that are reached from a value are fenced. -/
abbrev FencedInside (v : Json) : Prop := AllInside (fun n => isFenced n = true) v

variable {D : Prop} {p : Json → Bool} {o : FileOptions} {site : Site} {n n' m c v : Json}
  {key : String}

/-! ## What a fence depends on -/

/-- Two nodes that a fence does not tell apart. -/
def SameMember (t t' : Json) : Prop :=
  ∀ kind ∈ ["TSFunctionType", "TSNullKeyword", "TSUndefinedKeyword"],
    t'.hasText "type" kind = t.hasText "type" kind

/-- A test that two lists pass alike is passed by all of one when by all of the other. -/
theorem all_of_forall₂ {q : Json → Bool} {items items' : List Json}
    (h : List.Forall₂ (fun t t' => q t' = q t) items items') : items'.all q = items.all q := by
  induction h with
  | nil => rfl
  | cons hsame _ ih => rw [List.all_cons, List.all_cons, hsame, ih]

/-- Which members may stay bare is not told by what a fence does not see. -/
theorem areBareTypes_congr {items items' : List Json} (h : List.Forall₂ SameMember items items') :
    areBareTypes items' = areBareTypes items := by
  rcases h with _ | ⟨hfirst, _ | ⟨hsecond, _ | ⟨hthird, _ | _⟩⟩⟩
  case cons.cons.nil =>
    simp only [areBareTypes, isFunctionType, hfirst _ (by decide : "TSFunctionType" ∈ _),
      hsecond _ (by decide : "TSUndefinedKeyword" ∈ _)]
  case cons.cons.cons.nil =>
    simp only [areBareTypes, isFunctionType, hfirst _ (by decide : "TSFunctionType" ∈ _),
      hsecond _ (by decide : "TSNullKeyword" ∈ _), hthird _ (by decide : "TSUndefinedKeyword" ∈ _)]
  all_goals rfl

/-- Two unions with members that a fence does not tell apart are fenced alike. -/
theorem isFenced_of_members (hkind : SameKind n n')
    (hmembers : List.Forall₂ SameMember (n.itemsAt "types") (n'.itemsAt "types")) :
    isFenced n' = isFenced n := by
  have hfunction : (n'.itemsAt "types").all (!isFunctionType ·) =
      (n.itemsAt "types").all (!isFunctionType ·) :=
    all_of_forall₂ (hmembers.imp fun t t' h => congrArg (!·) (h _ (by decide)))
  rw [isFenced, isFenced, hfunction, areBareTypes_congr hmembers, hkind "TSUnionType"]
  simp only [Json.kindIn, memberKinds, List.any_cons, List.any_nil, hkind "TSUnionType",
    hkind "TSIntersectionType"]

/-- Another field set leaves a fence. -/
theorem isFenced_set (h : isFenced n = true) (hkey : key ∉ ["type", "types"]) :
    isFenced (n.set key v) = true := by
  have hget {key' : String} (hmem : key' ∈ ["type", "types"]) :
      (n.set key v).get? key' = n.get? key' :=
    Json.get?_set_ne (fun h : key' = key => hkey (h ▸ hmem)) v
  exact (isFenced_congr (hget (by decide)) (hget (by decide))).trans h

/-- Another field erased leaves it. -/
theorem isFenced_erase (h : isFenced n = true) (hkey : key ∉ ["type", "types"]) :
    isFenced (n.erase key) = true := by
  have hget {key' : String} (hmem : key' ∈ ["type", "types"]) :
      (n.erase key).get? key' = n.get? key' :=
    Json.get?_erase_ne fun h : key' = key => hkey (h ▸ hmem)
  exact (isFenced_congr (hget (by decide)) (hget (by decide))).trans h

/-- A fenced value set keeps the node fenced below. -/
theorem fencedBelow_set (h : FencedBelow n) (hkey : key ∉ ["type", "types"])
    (hv : FencedInside v) : FencedBelow (n.set key v) := h.set (isFenced_set h.self hkey) hv

/-- A field erased does too. -/
theorem fencedBelow_erase (h : FencedBelow n) (hkey : key ∉ ["type", "types"]) :
    FencedBelow (n.erase key) := h.erase (isFenced_erase h.self hkey)

/-! ## Types -/

/-- What was written is fenced, if the parts of the source in it are. -/
theorem Due.fencedInside {K : Json → Prop} {k : Nat} (hK : ∀ v, K v → FencedInside v)
    (h : Due D K k v) : FencedInside v := by
  induction h with
  | source _ source => exact hK _ source
  | leaf single scalar => exact .of_not_isNode single scalar
  | arr _ ih => exact allInside_arr_iff.2 fun item hitem hn => (ih item hitem).node hn
  | @fresh k l _ _ fenced _ ih =>
    refine .of_object rfl fun _ => .intro fenced fun key v hkey hget => ?_
    exact ih (key, v) (Entries.mem_of_get? hget) hkey

/-- A source that is fenced everywhere is so inside. -/
theorem fencedInside_of_source (h : Everywhere isFenced v) : FencedInside v :=
  allInside_of_everywhere h

/-- **What a type becomes is fenced at every depth.** -/
theorem Laid.fencedBelow {k : Nat} {u : TsType} (h : Laid (Everywhere isFenced) k u) :
    FencedBelow (encode u) := by
  have hdue : Due False (Everywhere isFenced) k (encode u) := h.due
  have hnode : (encode u).isNode = true := by
    rw [Erasure.isNode_eq]
    cases u with
    | _ => rw [encode, get?_type_inheritOption]; rfl
  exact (hdue.fencedInside fun _ => fencedInside_of_source).node hnode

/-- A type that is read from a fenced node is fenced where it is written. -/
theorem migrateNode_fenced (c : TypeContext) (h : n.everywhere isFenced = true) :
    (migrateNode c n).Yields fun u => FencedBelow (encode u) :=
  (migrateNode_laid c (everywhere_keyPasses h)).mono fun _ hu => hu.fencedBelow

/-! ## Optional parameters -/

/-- `undefined` is fenced. -/
theorem undefinedType_fenced : FencedBelow undefinedType := by
  have hdue : Due False (fun _ => False) 1 undefinedType :=
    Due.node (k := 0) (List.forall_mem_nil _) (by decide) (by simp)
  exact (hdue.fencedInside nofun).node rfl

/-- Where a function stands bare, `undefined` is there. -/
theorem any_undefined_of_areBare {types : List Json} (h : areBareTypes types = true) :
    types.any (·.hasText "type" TsKeyword.undefined.kindName) = true := by
  unfold areBareTypes at h
  split at h
  next first last =>
    exact List.any_eq_true.2 ⟨last, by simp, (Bool.and_eq_true_iff.1 h).2⟩
  next first second last =>
    exact List.any_eq_true.2 ⟨last, by simp, (Bool.and_eq_true_iff.1 h).2⟩
  next => cases h

/-- A function by itself stays bare before `undefined`; a union with a bare function has
this member already. -/
theorem admitUndefined_fenced {type : Json} (h : FencedInside type) :
    Result.Yields (admitUndefined type) FencedInside := by
  have hundefined : isFunctionType undefinedType = false ∧
      undefinedType.hasText "type" "TSUndefinedKeyword" = true := by decide
  rw [admitUndefined]
  refine .ite (fun hunion => .bind (.mono (listField_yields type _) fun types htypes => ?_))
    fun _ => .pure (.of_object rfl fun _ => .of_entries ?_ ?_)
  · obtain ⟨hn, -⟩ := ruleless_of_hasText hunion (by decide)
    have htype := h.node hn
    refine .ite (fun _ => .pure h) fun hmissing => .pure (.of_object ?_ fun _ => .set htype ?_ ?_)
    · exact (Json.isObject_set _).trans (isObject_of_isNode hn)
    · -- one more member that is no function, where no function stands bare
      have hkind : type.kindIn memberKinds = true := by
        rw [kindIn_of_kind (get?_of_hasText hunion)]
        decide
      have hitems : (type.set "types" (.arr (types ++ [undefinedType]))).itemsAt "types" =
          types ++ [undefinedType] := by
        rw [Json.itemsAt, Json.get?_set_self htypes]
        rfl
      have hself := htype.self
      have hbefore : type.itemsAt "types" = types := by rw [Json.itemsAt, htypes]; rfl
      simp only [isFenced, hbefore, hkind, hunion, Bool.not_true, Bool.false_or,
        Bool.true_and, Bool.or_eq_true] at hself
      have hself := hself.resolve_right fun hbare => hmissing (any_undefined_of_areBare hbare)
      simp [isFenced, hitems, hself, hundefined.1]
    · refine allInside_arr_iff.2 fun item hitem hitem' => ?_
      rcases List.mem_append.1 hitem with hitem | hitem
      · exact allInside_arr_iff.1 (htype.get? (by decide) htypes) item hitem hitem'
      · rw [List.mem_singleton.1 hitem]
        exact undefinedType_fenced
  · have hitems : (node "TSUnionType" [("types", .arr [type, undefinedType])]).itemsAt "types" =
        [type, undefinedType] := rfl
    rw [isFenced, hitems]
    cases hfunction : isFunctionType type <;>
      simp [areBareTypes, hfunction, hundefined, hasText_of_kind (get?_type_node ..)]
  · refine List.forall_mem_cons.2 ⟨fun _ => .of_not_isNode rfl rfl, ?_⟩
    refine List.forall_mem_singleton.2 fun _ => allInside_arr_iff.2 ?_
    refine List.forall_mem_cons.2 ⟨fun hn => h.node hn, ?_⟩
    exact List.forall_mem_singleton.2 fun _ => undefinedType_fenced

/-- A parameter that is widened stays fenced. -/
theorem widenWithUndefined_fenced {param : Json} (h : FencedBelow param) :
    Result.Yields (widenWithUndefined param) FencedBelow := by
  rw [widenWithUndefined]
  split
  next typed htyped =>
    refine .ite (fun hkind => ?_) fun _ => .pure h
    obtain ⟨hn, -⟩ := ruleless_of_hasText hkind (by decide)
    have htyped := (h.get? (by decide) htyped).node hn
    refine .bind ((field_yields typed _).mono fun inner hinner => ?_)
    refine .bind ((admitUndefined_fenced (htyped.get? (by decide) hinner)).mono
      fun inner' hinner' => .pure (fencedBelow_set h (by decide) ?_))
    refine AllInside.of_object ((Json.isObject_set _).trans (isObject_of_isNode hn)) fun _ => ?_
    exact fencedBelow_set htyped (by decide) hinner'
  next => exact .pure h

/-- So does one that loses its marker. -/
theorem requireParam_fenced {param : Json} (h : param.isNode = true → FencedBelow param) :
    Result.Yields (requireParam param) fun param' => param'.isNode = true → FencedBelow param' := by
  rw [requireParam]
  refine .ite (fun hname => ?_) fun _ => .pure h
  obtain ⟨hn, -⟩ := ruleless_of_hasText hname (by decide)
  exact (widenWithUndefined_fenced (fencedBelow_erase (h hn) (by decide))).mono fun _ h _ => h

/-- So does one that is reordered. -/
theorem reorderParam_fenced {param : Json} (h : param.isNode = true → FencedBelow param)
    (trailing : Bool) : Result.Yields (reorderParam param trailing) fun r =>
      r.1.isNode = true → FencedBelow r.1 := by
  rw [reorderParam]
  refine .ite (fun _ => .pure h) fun _ => .ite (fun hpattern => ?_) fun _ => .ite (fun _ => ?_)
    fun _ => .pure h
  · split
    next l hleft =>
      have hparam := h (isNode_of_hasText hpattern)
      have herased (hn : ((Json.obj l).erase "optional").isNode = true) :
          FencedBelow ((Json.obj l).erase "optional") := by
        refine fencedBelow_erase ((hparam.get? (by decide) hleft).node ?_) (by decide)
        rwa [isNode_congr (Json.get?_erase_ne (by decide))] at hn
      have hset (left : Json) (hobject : left.isObject = true)
          (hleft : left.isNode = true → FencedBelow left) :
          (param.set "left" left).isNode = true → FencedBelow (param.set "left" left) :=
        fun _ => fencedBelow_set hparam (by decide) (.of_object hobject hleft)
      cases trailing with
      | true => exact .pure (hset _ rfl herased)
      | false =>
        refine .bind fun left h => .pure (hset left ?_ (requireParam_fenced herased left h))
        exact (requireParam_get?
          (show "type" ∉ ["optional", "typeAnnotation"] by decide) _ left h).1
    next => exact .error _
  · exact .ite (fun _ => .pure h) fun _ =>
      .bind ((requireParam_fenced h).mono fun _ h => .pure h)

/-- So do all parameters. -/
theorem reorderParams_fenced {params : List Json} (h : FencedInside (.arr params)) :
    Result.Yields (reorderParams params) fun params' => FencedInside (.arr params') := by
  refine (reorderParams_related (A := fun param param' =>
    (param.isNode = true → FencedBelow param) → param'.isNode = true → FencedBelow param')
    fun param _ trailing r hr hparam => reorderParam_fenced hparam trailing r hr).mono ?_
  intro params' hparams
  refine allInside_arr_iff.2 fun param' hparam' => ?_
  obtain ⟨param, hmem, hrel⟩ := Entries.exists_of_forall₂ hparams hparam'
  exact hrel (allInside_arr_iff.1 h param hmem)

/-! ## The first stage -/

/-- A node with a rule has no members. -/
theorem isFenced_of_rule (h : enterRule? n.kind ≠ none) : isFenced n = true := by
  cases hkind : n.kindIn memberKinds with
  | false => simp [isFenced, hkind]
  | true =>
    obtain ⟨kind, hmem, htext⟩ := List.any_eq_true.1 hkind
    have hall : ∀ kind ∈ memberKinds, enterRule? kind = none := by decide
    rw [kind_of_kind (get?_of_hasText htext)] at h
    exact absurd (hall kind hmem) h

/-- A node entered keeps what is below it fenced. -/
theorem Enters.fencedBelow {mark : Bool} (hn : n.isNode = true)
    (h : Enters False isFenced o site n m mark) (hbelow : FencedBelow n) : FencedBelow m := by
  have hm := h.isNode hn
  cases h with
  | free => exact hbelow
  | @kept rule rules keeps source accepts =>
    refine .of_entries (isFenced_of_rule ?_) fun entry hentry hmeta => ?_
    · rw [keptAs_kind, rules]
      exact Option.some_ne_none rule
    · have hdue : Due False (Everywhere isFenced) (8 * n.nesting + 4) entry.2 :=
        keptAs_due (fun h => h.elim) source (by omega) entry hentry hmeta
      exact hdue.fencedInside fun _ => fencedInside_of_source
  | replaced rules gives source replaced =>
    have hdue := (replaced.written.inherit n).due
    exact (hdue.fencedInside fun _ => fencedInside_of_source).node hm

/-- A member that is walked looks the same to a fence. -/
theorem ItemWalked.sameMember {R : Site → Json → Json → Bool → Prop} {marked : Prop} {t t' : Json}
    (h : ItemWalked R site marked t t') : SameMember t t' := by
  intro kind hmem
  have hall : ∀ kind ∈ ["TSFunctionType", "TSNullKeyword", "TSUndefinedKeyword"],
      Ruleless kind ∧ kind ∉ writtenKinds := by decide
  obtain ⟨hruleless, hwritten⟩ := hall kind hmem
  cases h with
  | leaf => rfl
  | node _ _ came _ =>
    -- the kind is neither given up nor written
    cases hafter : t'.hasText "type" kind with
    | true =>
      have halike := came.alike_of_hasText hruleless hwritten hafter
      rw [← halike.hasText_eq (by decide), hafter]
    | false =>
      cases hbefore : t.hasText "type" kind with
      | false => rfl
      | true =>
        have halike := came.alike (ruleless_of_hasText hbefore hruleless).2
        rw [← hbefore, ← halike.hasText_eq (by decide), hafter]

/-- What is known of a node and of what has become of it. -/
def StaysFenced (n n' : Json) : Prop := n'.isNode = true ∧ (FencedBelow n → FencedBelow n')

/-- The walk below a node keeps it fenced below. -/
theorem ChildrenWalked.fencedBelow (h : ChildrenWalked (fun _ n n' _ => StaysFenced n n') site m c)
    (hbelow : FencedBelow m) : FencedBelow c := by
  have hmembers := (h.itemsAt_rel (show "types" ∉ "optional" :: Json.metadataKeys by decide)).imp
    fun _ _ item => item.sameMember
  refine .intro ?_ fun key v hkey hget child hchild => ?_
  · exact (isFenced_of_members (fun _ => h.hasText_eq (by decide) _) hmembers).trans hbelow.self
  · obtain ⟨w, hw, before, hbefore, _, hwalked⟩ := h.of_nodes hkey hget hchild
    exact hwalked.2 (hbelow.get? hkey hw before hbefore)

/-- So does leaving it. -/
theorem Leaves.fencedBelow (h : Leaves o c n') (hbelow : FencedBelow c) : FencedBelow n' := by
  rcases h.eq_or_set with rfl | ⟨key, v, rfl, hpart⟩
  · exact hbelow
  cases hpart with
  | importing field =>
    refine fencedBelow_set hbelow (by decide) (allInside_arr_iff.2 ?_)
    refine List.forall_mem_cons.2 ⟨fun _ => .of_entries (isFenced_of_kind rfl (by decide)) ?_, ?_⟩
    · exact fun entry hentry _ =>
        Due.fencedInside (D := False) (fun _ h => h.elim) (helperImport_due o entry hentry)
    · exact allInside_arr_iff.1 (hbelow.get? (by decide) field)
  | function field reordered =>
    exact fencedBelow_set hbelow (by decide)
      (reorderParams_fenced (hbelow.get? (by decide) field) _ reordered)
  | @pattern left field =>
    have hleft := hbelow.get? (by decide) field
    have htype : (left.erase "optional").get? "type" = left.get? "type" :=
      Json.get?_erase_ne (by decide)
    refine fencedBelow_set hbelow (by decide) ?_
    cases hn : left.isNode with
    | true =>
      exact (fencedBelow_erase (hleft.node hn) (by decide)).value ((isNode_congr htype).trans hn)
    | false =>
      cases left with
      | obj l => exact .of_not_isNode ((isNode_congr htype).trans hn) rfl
      | _ => exact hleft

/-- **What becomes of a fenced node is fenced**, if what becomes of its children
is. -/
theorem Passed.staysFenced {mark : Bool} (hn : n.isNode = true)
    (h : Passed False isFenced o (fun _ n n' _ => StaysFenced n n') site n n' mark) :
    StaysFenced n n' := by
  refine ⟨(h.came hn).isNode, fun hbelow => ?_⟩
  obtain ⟨m, c, henters, hchildren, hleaves⟩ := h.passes
  exact hleaves.fencedBelow (hchildren.fencedBelow (henters.fencedBelow hn hbelow))

/-- **A rewritten tree is fenced when its source is.** -/
theorem rewriteTree_fenced {tree rewritten : Json} {progress : Progress}
    (hroot : tree.kind ∈ rootKinds) (hsource : tree.everywhere isFenced = true)
    (h : rewriteTree o tree = (.ok rewritten, progress)) :
    rewritten.isNode = true ∧ FencedBelow rewritten := by
  obtain ⟨mark, hnode, hkept⟩ := rewriteTree_passes (R := fun _ n n' _ => StaysFenced n n')
    (fun h => h.elim) (fun _ _ _ _ hn hpassed => hpassed.staysFenced hn) hroot hsource h
  exact ⟨hnode, hkept ((allInside_of_everywhere hsource).node (isNode_of_root hroot))⟩

/-! ## The second stage -/

/-- A fence does not see where it stands. -/
theorem unseen_isFenced : Unseen fun n => isFenced n = true where
  rel {l l'} h hrel := by
    have hkind : SameKind (.obj l) (.obj l') := fun kind =>
      hasText_of_rel (hrel.mono fun _ _ _ h => h.sort) _ _
    have hitems : List.Forall₂ SameMember ((Json.obj l).itemsAt "types")
        ((Json.obj l').itemsAt "types") := by
      have hentry := hrel.get? "types"
      simp only [Json.itemsAt, Json.get?]
      generalize Entries.get? l "types" = a, Entries.get? l' "types" = b at hentry
      cases hentry with
      | none => exact .nil
      | some hstays => exact hstays.items.imp fun _ _ h kind _ => h kind
    exact (isFenced_of_members hkind hitems).trans h
  set {n v key} h hkey := by
    have hall : ∀ key ∈ ["params", "typeAnnotation"], key ∉ ["type", "types"] := by decide
    exact isFenced_set h (hall key hkey)

/-- Positions taken away leave a fence. -/
theorem isFenced_stripPositions (h : isFenced n = true) : isFenced n.stripPositions = true := by
  have hmembers : List.Forall₂ SameMember (n.itemsAt "types")
      (n.stripPositions.itemsAt "types") := by
    rw [itemsAt_stripPositions (by decide), List.forall₂_map_right_iff]
    exact List.forall₂_same.2 fun t _ kind _ => hasText_stripPositions t kind
  exact (isFenced_of_members (hasText_stripPositions n) hmembers).trans h

/-- An annotation is one that was inferred. The inferred type, if there is one,
is fenced. -/
def InferredFenced (o : FileOptions) (a : Option Json) : Prop :=
  ∃ location inferred, (annotationInferred o location inferred).result = .ok a ∧
    ∀ type, inferred = some type → type.everywhere isFenced = true

/-- An inferred annotation is fenced everywhere. -/
theorem InferredFenced.given {a : Option Json} (h : InferredFenced o a) :
    AllGiven (fun n => isFenced n = true) a := by
  obtain ⟨location, inferred, hresult, htype⟩ := h
  have hkeys : Flow.KeyRule (Everywhere isFenced) isFenced :=
    fun _ _ h _ hkey => Json.everywhere_of_get? h hkey
  intro annotation hsome
  obtain ⟨k, u, hu, rfl⟩ :=
    annotationInferred_laid hkeys (fun _ => isFenced_stripPositions) htype a
      hresult annotation hsome
  have hdue : Due False (Everywhere isFenced) (k + 1) _ := Due.annotated hu.due
  exact hdue.fencedInside fun _ => fencedInside_of_source

/-! ## Both stages -/

/-- **Functions are members in parentheses only, but before `undefined`, or before
`null` and `undefined`.** No intersection has a bare function as a member, and a union
has one only where its members are just these, in this order: a type that may be null,
or the type of a parameter that got `undefined`. This holds of whatever a Flow type is
rewritten to, and of whatever a tree is rewritten to and is inferred for its parameters,
if it holds of the unions and intersections that were given. -/
theorem functions_fenced (o : FileOptions) :
    (∀ (n : Json) (u : TsType), n.everywhere isFenced = true →
      (migrateNode o.types n).result = .ok u → ∀ m, Reaches (encode u) m → isFenced m = true) ∧
    ∀ (tree rewritten : Json) (progress : Progress) (annotations : List (Option Json)),
      tree.kind ∈ rootKinds → tree.everywhere isFenced = true →
      rewriteTree o tree = (.ok rewritten, progress) → (∀ a ∈ annotations, InferredFenced o a) →
      ∀ m, Reaches (annotateWaiting o annotations rewritten) m → isFenced m = true := by
  refine ⟨fun n u hn hu => migrateNode_fenced o.types hn u hu, ?_⟩
  intro tree rewritten progress annotations hroot hsource h hannotations
  obtain ⟨hnode, hfirst⟩ := rewriteTree_fenced hroot hsource h
  have hstays := annotateWaiting_related o (annotates_stays unseen_isFenced)
    (fun a ha => (hannotations a ha).given) rewritten
  exact (hstays.free (hfirst.value hnode)).node (hstays.isNode.trans hnode)

/-- `?() => void` -/
def absentFunction : Json :=
  node "NullableTypeAnnotation" [("typeAnnotation", node "FunctionTypeAnnotation" [
    ("params", .arr []), ("rest", .null), ("this", .null),
    ("returnType", node "VoidTypeAnnotation" []), ("typeParameters", .null)])]

/-- `function f(x: ?() => void, y) {}` -/
def absentFunctionFile : Json :=
  node "Program" [("body", .arr [
    node "FunctionDeclaration" [("id", identifier "f" []),
      ("params", .arr [
        identifier "x" [("typeAnnotation",
          node "TypeAnnotation" [("typeAnnotation", absentFunction)])],
        identifier "y" []]),
      ("body", node "BlockStatement" [("body", .arr [])])]])]

/-- A type by itself, and the same one before a parameter whose type is inferred. -/
theorem functions_fenced_absent : ∃ u rewritten p annotation,
    (migrateNode inferring.types absentFunction).result = .ok u ∧
      rewriteTree inferring absentFunctionFile = (.ok rewritten, p) ∧
      InferredFenced inferring (some annotation) ∧
      (∀ m, Reaches (encode u) m → isFenced m = true) ∧
      ∀ m, Reaches (annotateWaiting inferring [some annotation] rewritten) m →
        isFenced m = true := by
  let migrated := (migrateNode inferring.types absentFunction).result
  let inferred := (annotationInferred inferring default (some inferredObject)).result
  have hmigrated : migrated.toOption.isSome = true := by decide +kernel
  have hok : (rewriteTree inferring absentFunctionFile).1.toOption.isSome = true := by
    decide +kernel
  have hsome : inferred.toOption.join.isSome = true := by decide +kernel
  match hu : migrated, hrun : rewriteTree inferring absentFunctionFile, hresult : inferred with
  | .error _, _, _ => cases hmigrated
  | .ok _, (.error _, _), _ =>
    rw [hrun] at hok
    cases hok
  | .ok _, (.ok _, _), .error _ | .ok _, (.ok _, _), .ok none => cases hsome
  | .ok u, (.ok rewritten, p), .ok (some annotation) =>
    have hinferred : InferredFenced inferring (some annotation) :=
      ⟨default, some inferredObject, hresult, fun _ h => Option.some.inj h ▸ by decide⟩
    refine ⟨u, rewritten, p, annotation, hu, rfl, hinferred, ?_, ?_⟩
    · exact (functions_fenced inferring).1 absentFunction u (by decide) hu
    · refine (functions_fenced inferring).2 absentFunctionFile rewritten p [some annotation]
        (by decide) (by decide) hrun fun a ha => ?_
      rw [List.mem_singleton.1 ha]
      exact hinferred

/-- A type that may be null becomes a union in which a function stands bare. -/
theorem function_bare : ∃ u, (migrateNode inferring.types absentFunction).result = .ok u ∧
    (encode u).hasText "type" "TSUnionType" = true ∧
    ((encode u).itemsAt "types").any isFunctionType = true := by
  let migrated := (migrateNode inferring.types absentFunction).result
  have hunion : (migrated.toOption.any fun u => (encode u).hasText "type" "TSUnionType" &&
      ((encode u).itemsAt "types").any isFunctionType) = true := by decide +kernel
  match hu : migrated with
  | .error _ => cases hunion
  | .ok u => exact ⟨u, hu, Bool.and_eq_true_iff.1 hunion⟩

end Retype.Migration
