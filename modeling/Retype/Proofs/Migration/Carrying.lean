import Retype.Proofs.Migration.Collecting
import Retype.Proofs.Migration.Reordering
/-!
# What becomes of what is collected

A walk makes one thing of each that is collected in a tree (`Carried`): what is
collected below a node goes over to what takes its place, the children are
walked one by one, and on the way up the node loses markers and gains types, in
which nothing is collected. So it is enough to say what becomes of what a node
gives itself (`rewriteTree_carries`).
-/

namespace Retype.Migration

open Syntax (Place)
open TypeScript (node)

variable {α : Type} {own : Bool → Json → List α} {K : α → α → Prop} {kinds : List String}
  {o : FileOptions} {site : Site} {n n' m c v v' : Json} {key : String}

/-- What is collected in one value is what has become of what is collected in
another, wherever the values stand. No marker of it holds anything. -/
structure Carried (own : Bool → Json → List α) (K : α → α → Prop) (v v' : Json) : Prop where
  collected (inside : Bool) : List.Forall₂ K (collectAt own inside v) (collectAt own inside v')
  plain : AllInside (PlainMarker own) v'

/-- What a walk makes of a node, at any site. -/
def Carries (own : Bool → Json → List α) (K : α → α → Prop) (_ : Site) (v v' : Json) (_ : Bool) :
    Prop :=
  AllInside (PlainMarker own) v → Carried own K v v'

/-! ## The children -/

theorem Carried.bare (h : Carried own K v v') (hv : Bare own v) : Bare own v' := by
  intro inside
  have hcollected := h.collected inside
  rw [hv inside] at hcollected
  exact List.forall₂_nil_left_iff.1 hcollected

theorem ItemWalked.isNode_eq {R : Site → Json → Json → Bool → Prop} {marked : Prop}
    (h : ItemWalked R site marked v v') : v'.isNode = v.isNode := by
  cases h with
  | leaf => rfl
  | node hn _ came => exact came.isNode.trans hn.symm

section
variable (hK : ∀ a, K a a)
include hK

theorem Carried.refl (hplain : AllInside (PlainMarker own) v) : Carried own K v v :=
  ⟨fun _ => List.forall₂_same.2 fun a _ => hK a, hplain⟩

theorem ItemWalked.carried {marked : Prop} (h : ItemWalked (Carries own K) site marked v v')
    (hplain : AllInside (PlainMarker own) v) : Carried own K v v' := by
  cases h with
  | leaf => exact .refl hK hplain
  | node _ walked _ _ => exact walked hplain

theorem ValueWalked.carried {marked : Prop} (h : ValueWalked (Carries own K) site marked v v')
    (hplain : AllInside (PlainMarker own) v) : Carried own K v v' := by
  cases h with
  | single _ item => exact item.carried hK hplain
  | @arr items items' hitems =>
    refine ⟨fun inside => ?_, allInside_arr_iff.2 fun item' hitem' hn => ?_⟩
    · induction hitems with
      | nil => exact .nil
      | @cons item item' rest rest' hitem _ ih =>
        have hbelow := allInside_arr_iff.1 hplain
        rw [List.forall_mem_cons] at hbelow
        have hrest := ih (allInside_arr_iff.2 hbelow.2)
        simp only [collectAt, Json.nodes, List.filter_cons, hitem.isNode_eq] at hrest ⊢
        split
        next hn =>
          have hcarried := (hitem.carried hK ((hbelow.1 hn).value hn)).collected inside
          rw [collectAt_of_isNode hn, collectAt_of_isNode (hitem.isNode_eq.trans hn)] at hcarried
          exact List.rel_append hcarried hrest
        next => exact hrest
    · obtain ⟨item, hitem, hwalked⟩ := Entries.exists_of_forall₂ hitems hitem'
      have hn' := hwalked.isNode_eq ▸ hn
      exact (hwalked.carried hK
        ((allInside_arr_iff.1 hplain item hitem hn').value hn')).plain.node hn

/-- What has become of an entry. -/
theorem EntryWalked.carried {marked : Prop} (h : EntryWalked (Carries own K) site marked key v v')
    (hplain : key ∉ Json.metadataKeys → AllInside (PlainMarker own) v) :
    key ∉ Json.metadataKeys → Carried own K v v' := by
  intro hmeta
  cases h with
  | skipped => exact .refl hK (hplain hmeta)
  | walked _ value => exact value.carried hK (hplain hmeta)

/-- **What is collected below a node becomes what is collected below it once
its children have been walked.** -/
theorem ChildrenWalked.carried (h : ChildrenWalked (Carries own K) site m c)
    (hkeys : ((entriesOf m).map (·.1)).Nodup) (hplain : AllBelow (PlainMarker own) m) :
    (∀ inside, List.Forall₂ K (collectBelow own inside m) (collectBelow own inside c)) ∧
      AllBelow (PlainMarker own) c := by
  have hcall := h.isCreateReactClassCall_eq
  cases h with
  | @intro l l' marked entries name =>
    have hcarried : l.Rel (fun key v v' => key ∉ Json.metadataKeys → Carried own K v v') l' :=
      entries.mono_of_mem fun key v v' hmem hentry =>
        hentry.carried hK fun hmeta => hplain.get? hmeta (Entries.get?_of_mem hkeys hmem)
    -- a marker that a child has given takes the place of one that holds nothing
    have hmarker (w : Json) (hw : ("optional", w) ∈ l') : Bare own w := by
      obtain ⟨⟨_, v⟩, hv, rfl, hvw⟩ := Entries.exists_of_forall₂ hcarried hw
      exact (hvw (show "optional" ∉ Json.metadataKeys by decide)).bare (hplain.self v hv)
    have hset : ∀ entry ∈ Entries.setAll l' (markers marked),
        entry ∈ l' ∨ entry = ("optional", .bool true) := by
      cases marked with
      | true => exact fun entry hentry => Entries.mem_set hentry
      | false => exact fun entry hentry => .inl hentry
    have hcollected (inside : Bool) : collectAmong own inside (Entries.setAll l' (markers marked)) =
        collectAmong own inside l' := by
      cases marked with
      | true =>
        refine collectAmong_set ?_
        have hnull : Bare own .null := (Blank.of_not_isNode rfl rfl).bare
        have hold : Bare own ((Entries.get? l' "optional").getD .null) := by
          cases hget : Entries.get? l' "optional" with
          | none => exact hnull
          | some w => exact hmarker w (Entries.mem_of_get? hget)
        exact (Bare.under fun _ => (Blank.of_not_isNode rfl rfl).bare).trans
          (Bare.under fun _ => hold).symm
      | false => rfl
    refine ⟨fun inside => ?_, .of_entries (fun w hw => ?_) fun entry hentry hmeta => ?_⟩
    · rw [collectBelow, collectBelow, insideOf, insideOf, hcall, entriesOf, entriesOf, hcollected]
      refine List.rel_flatMap hcarried fun entry entry' hentry => ?_
      obtain ⟨key, v⟩ := entry
      obtain ⟨_, v'⟩ := entry'
      obtain ⟨rfl, hentry⟩ := hentry
      simp only [collectUnder]
      split
      next => exact .nil
      next hmeta => exact (hentry (by simpa using hmeta)).collected _
    · rcases hset _ hw with hold | hnew
      · exact hmarker w hold
      · obtain rfl := congrArg Prod.snd hnew
        exact (Blank.of_not_isNode rfl rfl).bare
    · rcases hset _ hentry with hold | rfl
      · obtain ⟨⟨_, v⟩, hv, hkey, hvw⟩ := Entries.exists_of_forall₂ hcarried hold
        exact (hvw (hkey ▸ hmeta)).plain
      · exact .of_not_isNode rfl rfl

end

/-! ## On the way up -/

/-- What is given by the nodes of some kinds does not depend on their markers,
and the import of the helpers has none of these nodes. -/
structure MarkerFree (own : Bool → Json → List α) (kinds : List String) : Prop where
  ofKinds : OfKinds own kinds
  erase (inside : Bool) (n : Json) : own inside (n.erase "optional") = own inside n
  helper (o : FileOptions) : without kinds (helperImport o) = true
  patterns : "AssignmentPattern" ∉ kinds
  program : "Program" ∉ kinds

variable (hown : MarkerFree own kinds)
include hown

/-- A value that loses its marker. -/
theorem unmarked_undisturbed (hplain : AllInside (PlainMarker own) v) :
    Undisturbed own v (v.erase "optional") := by
  have htype : (v.erase "optional").get? "type" = v.get? "type" := Json.get?_erase_ne (by decide)
  cases hn : v.isNode with
  | true =>
    have hbelow : UndisturbedBelow own v (v.erase "optional") :=
      .erase fun entry hentry hkey => (hplain.node hn).self entry.2 (hkey ▸ hentry)
    have hn' : (v.erase "optional").isNode = true := (isNode_congr htype).trans hn
    refine ⟨fun inside => ?_, fun _ => (hbelow.plain (hplain.node hn)).value hn'⟩
    rw [collectAt_of_isNode hn, collectAt_of_isNode hn', collectIn_eq, collectIn_eq, hown.erase,
      collectBelow, collectBelow, insideOf_congr htype (Json.get?_erase_ne (by decide)),
      hbelow.collected]
  | false =>
    cases v with
    | obj l =>
      have hn' : ((Json.obj l).erase "optional").isNode = false := (isNode_congr htype).trans hn
      exact .of_blank (Blank.of_not_isNode hn rfl).bare (.of_not_isNode hn' rfl)
    | _ => exact .refl _

theorem admitUndefined_undisturbed {type : Json} (hobject : type.isObject = true) :
    Result.Yields (admitUndefined type) (Undisturbed own type) := by
  have hundefined : Blank own undefinedType := .of_due hown.ofKinds (D := True) (k := 1)
    (.node (List.forall_mem_nil _) (by decide) (by simp))
  rw [admitUndefined]
  refine .ite (fun hunion => .bind (.mono (listField_yields type _) fun types htypes => ?_))
    fun _ => .pure ?_
  · refine .ite (fun _ => .pure (.refl type)) fun _ => .pure ?_
    refine (set_undisturbed hown.ofKinds hunion (hown.ofKinds.ruleless (by decide))
      (by decide) (by decide) ?_).2
    rw [htypes]
    refine ⟨fun inside => ?_, fun hplain => allInside_arr_iff.2
      (List.forall_mem_append.2 ⟨allInside_arr_iff.1 hplain, List.forall_mem_singleton.2
        hundefined.plain.node⟩)⟩
    have hnone := hundefined.bare inside
    rw [collectAt_of_isNode rfl] at hnone
    simp only [Option.getD_some, collectAt, Json.nodes, List.filter_append, List.flatMap_append]
    rw [show List.filter (·.isNode) [undefinedType] = [undefinedType] from rfl,
      List.flatMap_singleton, hnone, List.append_nil]
  · obtain ⟨l, rfl⟩ := exists_obj_of_isObject hobject
    have hruleless : Ruleless "TSUnionType" := by decide
    have hunion : Surrounds own (node "TSUnionType" [("types", .arr [.obj l, undefinedType])])
        (.arr [.obj l, undefinedType]) := by
      refine surrounds_of_entries "types" rfl (by simp) rfl (by decide) ?_
      simp only [List.forall_mem_cons]
      exact ⟨fun _ => .of_not_isNode rfl rfl, fun hkey => absurd rfl hkey, List.forall_mem_nil _⟩
    have hlist (inside : Bool) : collectAt own inside (.arr [.obj l, undefinedType]) =
        collectAt own inside (.obj l) := by
      have hnone := hundefined.bare inside
      rw [collectAt_of_isNode rfl] at hnone
      cases hn : (Json.obj l).isNode with
      | true => simp [collectAt, Json.nodes, hn, hnone, show undefinedType.isNode = true from rfl]
      | false => simp [collectAt, Json.nodes, hn, hnone, show undefinedType.isNode = true from rfl]
    refine ⟨fun inside => ?_, fun hplain => ?_⟩
    · rw [collectAt_of_isNode rfl, collectIn_eq, hown.ofKinds.own_eq, hunion.collected, hlist,
        List.nil_append]
      exact hown.ofKinds.ruleless hruleless
    · refine (hunion.plain (allInside_arr_iff.2 ?_)).value rfl
      exact List.forall_mem_cons.2 ⟨hplain.node, List.forall_mem_singleton.2 hundefined.plain.node⟩

/-- A parameter whose annotation also admits `undefined`. -/
theorem widenWithUndefined_undisturbed {param : Json}
    (hname : param.hasText "type" "Identifier" = true) :
    Result.Yields (widenWithUndefined param) (Undisturbed own param) := by
  have hset {n v w : Json} {kind : String} (h : n.hasText "type" kind = true)
      (hkind : Ruleless kind) (hget : n.get? "typeAnnotation" = some w)
      (hv : Undisturbed own w v) : Undisturbed own n (n.set "typeAnnotation" v) := by
    refine (set_undisturbed hown.ofKinds h (hown.ofKinds.ruleless hkind)
      (by decide) (by decide) ?_).2
    rwa [hget]
  rw [widenWithUndefined]
  split
  next typed htyped =>
    refine .ite (fun hkind => .bind fun type htype => .bind ?_) fun _ => .pure (.refl param)
    refine (admitUndefined_undisturbed hown (isObject_of_field htype)).mono fun type' htype' =>
      .pure (hset hname (by decide) htyped ?_)
    exact hset hkind (by decide) (field_yields typed "typeAnnotation" type htype) htype'
  next => exact .pure (.refl param)

theorem requireParam_undisturbed {param : Json} (hplain : AllInside (PlainMarker own) param) :
    Result.Yields (requireParam param) (Undisturbed own param) := by
  rw [requireParam]
  refine .ite (fun hname => ?_) fun _ => .pure (.refl param)
  have hname' : (param.erase "optional").hasText "type" "Identifier" = true :=
    (Json.hasText_congr (Json.get?_erase_ne (by decide)) _).trans hname
  exact (widenWithUndefined_undisturbed hown hname').mono fun _ h =>
    (unmarked_undisturbed hown hplain).trans h

/-- A default value whose left side is another one. -/
theorem set_left_undisturbed {w : Json} (hpattern : n.hasText "type" "AssignmentPattern" = true)
    (hget : n.get? "left" = some w) (hv : Undisturbed own w v) :
    Undisturbed own n (n.set "left" v) := by
  refine (set_undisturbed hown.ofKinds hpattern hown.patterns (by decide) (by decide) ?_).2
  rwa [hget]

theorem reorderParam_undisturbed {param : Json} (hplain : AllInside (PlainMarker own) param)
    (trailing : Bool) :
    Result.Yields (reorderParam param trailing) fun r => Undisturbed own param r.1 := by
  rw [reorderParam]
  refine .ite (fun _ => .pure (.refl param)) fun _ => .ite (fun hpattern => ?_) fun _ =>
    .ite (fun _ => .ite (fun _ => .pure (.refl param)) fun _ => ?_) fun _ => .pure (.refl param)
  · split
    next l hleft =>
      have hbelow : AllInside (PlainMarker own) (.obj l) :=
        (hplain.node (isNode_of_hasText hpattern)).get? (by decide) hleft
      have hunmarked := unmarked_undisturbed hown hbelow
      cases trailing with
      | true => exact .pure (set_left_undisturbed hown hpattern hleft hunmarked)
      | false =>
        refine .bind ((requireParam_undisturbed hown (hunmarked.plain hbelow)).mono
          fun left h => .pure ?_)
        exact set_left_undisturbed hown hpattern hleft (hunmarked.trans h)
    next => exact .error _
  · exact .bind ((requireParam_undisturbed hown hplain).mono fun _ h => .pure h)

/-- **What is collected below a node stays on the way up.** -/
theorem Leaves.undisturbed (h : Leaves o c n') (hplain : AllBelow (PlainMarker own) c) :
    UndisturbedBelow own c n' := by
  have hset {key : String} {v w : Json} (hget : c.get? key = some w) (hkey : key ≠ "optional")
      (hmeta : key ∉ Json.metadataKeys) (hv : Undisturbed own w v) :
      UndisturbedBelow own c (c.set key v) := by
    refine .set hkey hmeta ?_
    rwa [hget]
  rcases h.eq_or_set with rfl | ⟨key, v, rfl, hpart⟩
  · exact .refl n'
  · cases hpart with
    | @importing body hbody =>
      have hhelper : Blank own (helperImport o) := .of_without hown.ofKinds (hown.helper o)
      refine hset hbody (by decide) (by decide) ⟨fun inside => ?_, fun hbelow =>
        allInside_arr_iff.2
          (List.forall_mem_cons.2 ⟨hhelper.plain.node, allInside_arr_iff.1 hbelow⟩)⟩
      have hnone := hhelper.bare inside
      rw [collectAt_of_isNode rfl] at hnone
      simp only [collectAt, Json.nodes, List.filter_cons,
        show (helperImport o).isNode = true from rfl,
        if_true, List.flatMap_cons, hnone, List.nil_append]
    | @function params params' hparams hreordered =>
      have hbelow := hplain.get? (by decide) hparams
      refine hset hparams (by decide) (by decide) (.arr ?_)
      refine reorderParams_related (A := fun param param' =>
        param'.isNode = param.isNode ∧ Undisturbed own param param')
        (fun param hmem trailing => ?_) params' hreordered
      cases hn : param.isNode with
      | true =>
        have hparam := (allInside_arr_iff.1 hbelow param hmem hn).value hn
        refine fun r hr => ⟨?_, reorderParam_undisturbed hown hparam trailing r hr⟩
        have htype := (reorderParam_reordered param trailing r hr).get? "type" (by decide)
        exact (isNode_congr htype).trans hn
      | false =>
        have hkind (kind : String) : param.hasText "type" kind = false :=
          Bool.eq_false_iff.2 fun h => Bool.false_ne_true (hn.symm.trans (isNode_of_hasText h))
        rw [reorderParam, hkind, hkind, hkind]
        exact .pure ⟨hn, .refl param⟩
    | @pattern left hleft =>
      exact hset hleft (by decide) (by decide)
        (unmarked_undisturbed hown (hplain.get? (by decide) hleft))

/-! ## A node -/

/-- **What is collected in a node becomes what is collected in what it
becomes**, given that this holds of what the nodes give themselves. -/
theorem Replacing.carried (hn : n.isNode = true) (h : Replacing own n m)
    (hkeys : ((entriesOf m).map (·.1)).Nodup) (hK : ∀ a, K a a)
    (hchildren : ChildrenWalked (Carries own K) site m c) (hleaves : Leaves o c n')
    (hn' : n'.isNode = true) (hself : ∀ inside,
      List.Forall₂ K (own (insideOf inside n) n) (own (insideOf inside n') n')) :
    Carried own K n n' := by
  obtain ⟨hcollected, hplain⟩ := hchildren.carried hK hkeys h.plain
  have hleft := hleaves.undisturbed hown hplain
  refine ⟨fun inside => ?_, (hleft.plain hplain).value hn'⟩
  have hbelow : collectBelow own inside n' = collectBelow own inside c := by
    rw [collectBelow, collectBelow, hleft.collected, insideOf, insideOf,
      hleaves.isCreateReactClassCall_eq]
  rw [collectAt_of_isNode hn, collectAt_of_isNode hn', collectIn_eq, collectIn_eq, hbelow,
    ← h.collected]
  exact List.rel_append (hself inside) (hcollected inside)

/-- **What is collected in a tree becomes what is collected in what it is
rewritten to**, given what becomes of what each node gives itself. -/
theorem rewriteTree_carries {tree rewritten : Json} {progress : Progress}
    (hcasts : "TypeCastExpression" ∉ kinds) (hK : ∀ a, K a a)
    (hself : ∀ site n n' mark, n.isNode = true →
      Passed True (inPlace kinds) o (Carries own K) site n n' mark → ∀ inside,
        List.Forall₂ K (own (insideOf inside n) n) (own (insideOf inside n') n'))
    (hroot : tree.kind ∈ rootKinds) (hsource : tree.everywhere (inPlace kinds) = true)
    (h : rewriteTree o tree = (.ok rewritten, progress)) :
    List.Forall₂ K (collectIn own false tree) (collectIn own false rewritten) := by
  have hkeys (l : Entries) (hl : inPlace kinds (.obj l) = true) : (l.map (·.1)).Nodup :=
    nodup_of_inPlace hl
  have hpassed := rewriteTree_passes_over (D := True) (R := fun _ n n' mark =>
      n'.isNode = true ∧ Carries own K .root n n' mark)
    (E := fun n m => AllBelow (PlainMarker own) n → Replacing own n m) (fun _ => hkeys)
    (fun k place n hn hdue p visit p' hvisit hplain => by
      obtain ⟨mark, hover⟩ := enter_collects hown.ofKinds hcasts hn hdue hplain p visit p' hvisit
      exact hover.replacing)
    (fun site n m c n' mark hn henters hreplacing hchildren hleaves => by
      have hchildren' : ChildrenWalked (Carries own K) site m c :=
        hchildren.imp fun _ _ _ _ h => h.2
      have hpassed : Passed True (inPlace kinds) o (Carries own K) site n n' mark :=
        ⟨m, c, henters, hchildren', hleaves⟩
      have hn' := (hpassed.came hn).isNode
      refine ⟨hn', fun hplain => ?_⟩
      exact (hreplacing (hplain.node hn)).carried hown hn (henters.keys_nodup hkeys trivial) hK
        hchildren' hleaves hn' (hself _ _ _ _ hn hpassed))
    hroot hsource h
  obtain ⟨mark, hn', hcarried⟩ := hpassed
  have hcollected := (hcarried (plainMarkers_of_source hown.ofKinds hsource)).collected false
  rwa [collectAt_of_isNode (isNode_of_root hroot), collectAt_of_isNode hn'] at hcollected

end Retype.Migration
