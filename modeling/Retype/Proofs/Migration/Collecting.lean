import Retype.Proofs.Migration.Accounting
/-!
# What is collected in a tree

Nodes of some kinds give something, each given whether it stands inside a call
of `createReactClass`; what the nodes of a tree give is collected in the order
of a walk (`collectIn`). As long as these nodes stand in expressions and
statements only (`inPlace`), a rule on the way down leaves below the node it
puts in the place of another one what was collected below that
(`enter_collects`): a node that keeps its place keeps what is below it, a type
has nothing to collect, and a cast becomes a node around its expression.
-/

namespace Retype.Migration

open Syntax (Place)

/-! ## Collecting -/

section
variable {α : Type} (own : Bool → Json → List α)

/-- Whether the parts of a node stand inside a call of `createReactClass`. -/
def insideOf (inside : Bool) (n : Json) : Bool := isCreateReactClassCall n || inside

/-- What is collected in a node: what it gives itself, and what is collected in
the nodes below. -/
def collectIn (inside : Bool) (n : Json) : List α :=
  own (insideOf inside n) n ++
    n.childNodes.attach.flatMap fun child => collectIn (insideOf inside n) child.1
termination_by sizeOf n
decreasing_by exact Json.sizeOf_lt_of_mem_childNodes child.2

/-- What is collected in the nodes in a value. -/
def collectAt (inside : Bool) (v : Json) : List α := v.nodes.flatMap (collectIn own inside)

/-- What is collected in the nodes in an entry. -/
def collectUnder (inside : Bool) (key : String) (v : Json) : List α :=
  if Json.metadataKeys.contains key then [] else collectAt own inside v

/-- What is collected in some entries. -/
def collectAmong (inside : Bool) (l : Entries) : List α :=
  l.flatMap fun entry => collectUnder own inside entry.1 entry.2

/-- What is collected in a node, apart from what it gives itself. -/
def collectBelow (inside : Bool) (n : Json) : List α :=
  collectAmong own (insideOf inside n) (entriesOf n)

/-- Nothing is collected in a value, wherever it stands. -/
def Bare (v : Json) : Prop := ∀ inside, collectAt own inside v = []

/-- The marker of a node holds nothing that is collected. -/
def PlainMarker (n : Json) : Prop := ∀ v, ("optional", v) ∈ entriesOf n → Bare own v

/-- Nothing is collected in a value, and no marker in it holds anything. -/
structure Blank (v : Json) : Prop where
  bare : Bare own v
  plain : AllInside (PlainMarker own) v

/-- Nodes of some kinds give something. They have rules, and do not belong to
types. -/
structure OfKinds (kinds : List String) : Prop where
  own_eq {inside : Bool} {n : Json} (h : n.kind ∉ kinds) : own inside n = []
  ruled : ∀ kind ∈ kinds, enterRule? kind ≠ none
  untyped : ∀ kind ∈ flowTypeKinds, kind ∉ kinds

end

/-- There is no node of some kinds in a value. -/
def without (kinds : List String) (v : Json) : Bool := v.everywhere fun n => !kinds.contains n.kind

/-- Whether nodes of some kinds stand in expressions and statements only, at a
node, and no key of it is there twice. -/
def inPlace (kinds : List String) (n : Json) : Bool :=
  ((entriesOf n).map (·.1)).Nodup &&
    (entriesOf n).all fun entry => !holdsNoExpression n entry.1 || without kinds entry.2

section
variable {α : Type} {own : Bool → Json → List α} {kinds : List String} {inside : Bool}
  {n n' v v' : Json} {key : String} {l : Entries}

/-- What is collected in a node is its own, and then what is collected below it. -/
theorem collectIn_eq (inside : Bool) (n : Json) :
    collectIn own inside n = own (insideOf inside n) n ++ collectBelow own inside n := by
  rw [collectIn, List.flatMap_subtype (fun _ _ => rfl), List.unattach_attach, collectBelow,
    Json.childNodes, List.flatMap_assoc]
  refine congrArg _ (List.flatMap_congr fun entry _ => ?_)
  rw [collectUnder]
  split <;> rfl

/-- From a node is collected what is in it. -/
theorem collectAt_of_isNode (h : v.isNode = true) :
    collectAt own inside v = collectIn own inside v := by
  rw [collectAt, nodes_of_isNode h, List.flatMap_singleton]

/-- Nothing is collected from a value that holds no node. -/
theorem collectAt_of_not_isNode (h : v.isNode = false) (hitems : v.items = []) :
    collectAt own inside v = [] := by
  rw [collectAt, nodes_of_not_isNode h hitems]
  rfl

theorem collectAmong_cons (key : String) (v : Json) (l : Entries) :
    collectAmong own inside ((key, v) :: l) =
      collectUnder own inside key v ++ collectAmong own inside l := rfl

/-- Whether a node stands in a call of `createReactClass` depends on its type and callee. -/
theorem insideOf_congr (htype : n'.get? "type" = n.get? "type")
    (hcallee : n'.get? "callee" = n.get? "callee") : insideOf inside n' = insideOf inside n := by
  simp only [insideOf, isCreateReactClassCall, Json.hasText, htype, hcallee]

/-- A node that is not a call. -/
theorem insideOf_of_kind (h : n.kind ≠ "CallExpression") : insideOf inside n = inside := by
  have hcall : isCreateReactClassCall n = false := by
    rw [isCreateReactClassCall, Bool.and_eq_false_iff]
    refine .inl (Bool.eq_false_iff.2 fun hcall => h ?_)
    exact kind_of_kind (get?_of_hasText hcall)
  rw [insideOf, hcall, Bool.false_or]

/-! ## Values in which nothing is collected -/

/-- A value is bare if nothing is collected in its nodes. -/
theorem Bare.of_nodes (h : ∀ child ∈ v.nodes, ∀ inside, collectIn own inside child = []) :
    Bare own v := fun inside =>
  List.flatMap_eq_nil_iff.2 fun child hchild => h child hchild inside

/-- Under a key of metadata, or with a bare value, nothing is collected. -/
theorem Bare.under (h : key ∉ Json.metadataKeys → Bare own v) :
    collectUnder own inside key v = [] := by
  by_cases hmeta : key ∈ Json.metadataKeys
  · exact if_pos (List.contains_iff_mem.2 hmeta)
  · exact (if_neg (by simpa using hmeta)).trans (h hmeta inside)

/-- Among bare entries nothing is collected. -/
theorem Bare.among (h : ∀ entry ∈ l, entry.1 ∉ Json.metadataKeys → Bare own entry.2) :
    collectAmong own inside l = [] :=
  List.flatMap_eq_nil_iff.2 fun entry hentry => under (h entry hentry)

/-- A value that holds no node is blank. -/
theorem Blank.of_not_isNode (h : v.isNode = false) (hitems : v.items = []) : Blank own v :=
  ⟨fun _ => collectAt_of_not_isNode h hitems, .of_not_isNode h hitems⟩

/-- A value that is as good as none. -/
theorem Blank.of_not_isTrue (h : v.isTrue = false) : Blank own v := by
  refine of_not_isNode ?_ ?_
  · cases hn : v.isNode with
    | false => rfl
    | true =>
      obtain ⟨-, -, htrue⟩ := Json.isTrue_of_isNode hn
      rw [htrue] at h
      cases h
  · cases v with
    | arr items => exact List.isEmpty_iff.1 ((Bool.not_eq_false' _).mp h)
    | _ => rfl

/-- In a node with nothing of its own and bare entries nothing is collected. -/
theorem collectIn_eq_nil (hself : ∀ inside, own inside n = [])
    (h : ∀ entry ∈ entriesOf n, entry.1 ∉ Json.metadataKeys → Bare own entry.2) :
    collectIn own inside n = [] := by
  rw [collectIn_eq, hself, collectBelow, Bare.among h]
  rfl

/-- Where no expression may stand, there are no nodes of the kinds. -/
theorem without_of_inPlace (h : inPlace kinds n = true) {entry : String × Json}
    (hentry : entry ∈ entriesOf n) (hkey : holdsNoExpression n entry.1 = true) :
    without kinds entry.2 = true := by
  rw [inPlace, Bool.and_eq_true, List.all_eq_true] at h
  simpa [hkey] using h.2 entry hentry

/-- No key is there twice. -/
theorem nodup_of_inPlace (h : inPlace kinds n = true) : ((entriesOf n).map (·.1)).Nodup := by
  rw [inPlace, Bool.and_eq_true, decide_eq_true_iff] at h
  exact h.1

variable (hown : OfKinds own kinds)
include hown

/-- The kinds that are collected have rules, so no other kind is one of them. -/
theorem OfKinds.ruleless {kind : String} (h : Ruleless kind) : kind ∉ kinds :=
  fun hmem => hown.ruled _ hmem h.1

/-- Nothing is collected in a node where no node is of the kinds. -/
theorem collectIn_of_without {n : Json} (h : without kinds n = true) (inside : Bool) :
    collectIn own inside n = [] := by
  have hself : n.kind ∉ kinds := by simpa using Json.everywhere_self h
  refine collectIn_eq_nil (fun _ => hown.own_eq hself) fun entry hentry hmeta =>
    .of_nodes fun child hchild inside => ?_
  have hlt :=
    Json.sizeOf_lt_of_mem_childNodes (Json.mem_childNodes.2 ⟨entry, hentry, hmeta, hchild⟩)
  obtain ⟨l, rfl⟩ : ∃ l, n = .obj l := by
    cases n with
    | obj l => exact ⟨l, rfl⟩
    | _ => cases hentry
  exact collectIn_of_without
    (everywhere_of_mem_nodes (Json.everywhere_of_entry h hentry) hchild) inside
termination_by sizeOf n

/-- Without nodes of the kinds a value is bare. -/
theorem Bare.of_without (h : without kinds v = true) : Bare own v :=
  .of_nodes fun _ hchild => collectIn_of_without hown (everywhere_of_mem_nodes h hchild)

/-- Without nodes of the kinds all markers are plain. -/
theorem plainMarkers_of_without (h : without kinds n = true) : AllBelow (PlainMarker own) n := by
  intro m hm
  induction hm with
  | refl m =>
    intro v hentry
    cases m with
    | obj l => exact .of_without hown (Json.everywhere_of_entry h hentry)
    | _ => cases hentry
  | step _ field mem _ ih =>
    exact ih (everywhere_of_mem_nodes (Json.everywhere_of_get? h field) mem)

/-- Without nodes of the kinds a value is blank. -/
theorem Blank.of_without (h : without kinds v = true) : Blank own v :=
  ⟨.of_without hown h, fun _ hchild =>
    plainMarkers_of_without hown (everywhere_of_mem_nodes h hchild)⟩

/-- What is laid out without a node of the kinds holds nothing. -/
theorem Blank.of_due {D : Prop} {k : Nat}
    (h : Due D (Everywhere fun n => !kinds.contains n.kind) k v) : Blank own v := by
  induction h with
  | source _ source => exact .of_without hown source
  | leaf single scalar => exact .of_not_isNode single scalar
  | arr _ ih =>
    refine ⟨.of_nodes fun child hchild inside => ?_, allInside_arr_iff.2 fun item hitem hn =>
      (ih item hitem).plain.node hn⟩
    obtain ⟨hmem, hn⟩ := mem_nodes_arr.1 hchild
    rw [← collectAt_of_isNode hn]
    exact (ih child hmem).bare inside
  | @fresh k l kind keys fenced _ ih =>
    cases hn : (Json.obj l).isNode with
    | false => exact .of_not_isNode hn rfl
    | true =>
      have hparts : ∀ entry ∈ entriesOf (.obj l), entry.1 ∉ Json.metadataKeys →
          Blank own entry.2 := ih
      refine ⟨fun inside => ?_, (AllBelow.of_entries (fun v hentry => ?_) fun entry hentry hmeta =>
        (hparts entry hentry hmeta).plain).value hn⟩
      · rw [collectAt_of_isNode hn]
        exact collectIn_eq_nil (fun _ => hown.own_eq (hown.ruleless kind))
          fun entry hentry hmeta => (hparts entry hentry hmeta).bare
      · have hmeta : "optional" ∉ Json.metadataKeys := by decide
        exact (hparts ("optional", v) hentry hmeta).bare

/-- No marker of the source holds anything. -/
theorem plainMarkers_of_source (h : v.everywhere (inPlace kinds) = true) :
    AllInside (PlainMarker own) v := by
  intro child hchild m hm w hentry
  have hplace := allInside_of_everywhere h child hchild m hm
  refine .of_without hown (without_of_inPlace hplace hentry ?_)
  rw [holdsNoExpression]
  rfl

end

/-! ## What stays -/

section
variable {α : Type} (own : Bool → Json → List α)

/-- The same is collected in one value as in another, and its markers hold as
little. -/
structure Undisturbed (v v' : Json) : Prop where
  collected (inside : Bool) : collectAt own inside v' = collectAt own inside v
  plain : AllInside (PlainMarker own) v → AllInside (PlainMarker own) v'

/-- The same is collected in the entries of one node as in those of another. -/
structure UndisturbedBelow (n n' : Json) : Prop where
  collected (inside : Bool) :
    collectAmong own inside (entriesOf n') = collectAmong own inside (entriesOf n)
  plain : AllBelow (PlainMarker own) n → AllBelow (PlainMarker own) n'

end

section
variable {α : Type} {own : Bool → Json → List α} {kinds : List String} {inside : Bool}
  {n n' v v' : Json} {key : String} {l : Entries}

/-- A key that gets another value in which the same is collected. -/
theorem collectAmong_set
    (hv : collectUnder own inside key v = collectUnder own inside key ((l.get? key).getD .null)) :
    collectAmong own inside (l.set key v) = collectAmong own inside l := by
  induction l with
  | nil =>
    have hnull : Bare own .null := (Blank.of_not_isNode rfl rfl).bare
    rw [Entries.set, collectAmong_cons, hv]
    exact congrArg (· ++ _) (Bare.under fun _ => hnull)
  | cons entry rest ih =>
    obtain ⟨k, w⟩ := entry
    by_cases hk : k = key
    · simp only [Entries.get?, hk, if_true, Option.getD_some] at hv
      rw [Entries.set, if_pos hk, collectAmong_cons, collectAmong_cons, hk, hv]
    · simp only [Entries.get?, hk, if_false] at hv
      rw [Entries.set, if_neg hk, collectAmong_cons, collectAmong_cons, ih hv]

/-- Where one entry alone holds something. -/
theorem collectAmong_eq (hkeys : (l.map (·.1)).Nodup) (hget : l.get? key = some v)
    (h : ∀ entry ∈ l, entry.1 ≠ key → Bare own entry.2) :
    collectAmong own inside l = collectUnder own inside key v := by
  induction l with
  | nil => cases hget
  | cons entry rest ih =>
    obtain ⟨k, w⟩ := entry
    rw [List.map_cons, List.nodup_cons] at hkeys
    rw [List.forall_mem_cons] at h
    by_cases hk : k = key
    · obtain rfl : w = v := by simpa [Entries.get?, hk] using hget
      subst hk
      have hrest : collectAmong own inside rest = [] := Bare.among fun entry hentry _ =>
        h.2 entry hentry fun hsame => hkeys.1 (List.mem_map.2 ⟨entry, hentry, hsame⟩)
      rw [collectAmong_cons, hrest, List.append_nil]
    · have hfirst : collectUnder own inside k w = [] := Bare.under fun _ => h.1 hk
      rw [collectAmong_cons, hfirst, List.nil_append]
      exact ih hkeys.2 (by simpa [Entries.get?, hk] using hget) h.2

/-- Positions and comments that are inherited hold nothing. -/
theorem collectAmong_inherit (origin n : Json) :
    collectAmong own inside (entriesOf (Json.inherit origin n)) =
      collectAmong own inside (entriesOf n) := by
  refine Json.inherit_induction (P := fun m =>
    collectAmong own inside (entriesOf m) = collectAmong own inside (entriesOf n)) rfl ?_
  intro m k v hk _ hm
  rw [← hm]
  cases m with
  | obj l =>
    have hmeta : Json.metadataKeys.contains k = true :=
      List.contains_iff_mem.2 (mem_metadataKeys hk)
    exact collectAmong_set (by rw [collectUnder, collectUnder, if_pos hmeta, if_pos hmeta])
  | _ => rfl

namespace Undisturbed

/-- What stays is undisturbed. -/
theorem refl (v : Json) : Undisturbed own v v := ⟨fun _ => rfl, id⟩

/-- Neither value holds anything. -/
theorem of_blank (h : Bare own v) (h' : Blank own v') : Undisturbed own v v' :=
  ⟨fun inside => (h'.bare inside).trans (h inside).symm, fun _ => h'.plain⟩

/-- Nodes that give nothing themselves. -/
theorem of_below (h : UndisturbedBelow own n n') (hn : n.isNode = true)
    (hself : ∀ inside, own inside n = []) (hself' : ∀ inside, own inside n' = [])
    (htype : n'.get? "type" = n.get? "type") (hcallee : n'.get? "callee" = n.get? "callee") :
    Undisturbed own n n' := by
  have hn' : n'.isNode = true := (isNode_congr htype).trans hn
  refine ⟨fun inside => ?_, fun hplain => (h.plain (hplain.node hn)).value hn'⟩
  rw [collectAt_of_isNode hn, collectAt_of_isNode hn', collectIn_eq, collectIn_eq, hself, hself',
    collectBelow, collectBelow, insideOf_congr htype hcallee, h.collected]

/-- What is undisturbed twice is undisturbed. -/
theorem trans {v'' : Json} (h : Undisturbed own v v') (h' : Undisturbed own v' v'') :
    Undisturbed own v v'' :=
  ⟨fun inside => (h'.collected inside).trans (h.collected inside), h'.plain ∘ h.plain⟩

/-- The items of a list, each by itself. -/
theorem arr {items items' : List Json}
    (h : List.Forall₂ (fun item item' => item'.isNode = item.isNode ∧ Undisturbed own item item')
      items items') : Undisturbed own (.arr items) (.arr items') := by
  refine ⟨fun inside => ?_, fun hplain => allInside_arr_iff.2 fun item' hitem' hn => ?_⟩
  · induction h with
    | nil => rfl
    | @cons item item' rest rest' hitem _ ih =>
      obtain ⟨hnode, hsame⟩ := hitem
      have hcollected := hsame.collected inside
      simp only [collectAt, Json.nodes, List.filter_cons, hnode] at ih hcollected ⊢
      split
      next hn =>
        have hitem := hsame.collected inside
        rw [collectAt_of_isNode hn, collectAt_of_isNode (hnode.trans hn)] at hitem
        rw [List.flatMap_cons, List.flatMap_cons, hitem, ih]
      next => exact ih
  · obtain ⟨item, hitem, hnode, hsame⟩ := Entries.exists_of_forall₂ h hitem'
    have hbelow := allInside_arr_iff.1 hplain item hitem (hnode ▸ hn)
    exact (hsame.plain (hbelow.value (hnode ▸ hn))).node hn

/-- A list is undisturbed if each of its items is. -/
theorem map {items : List Json} {f : Json → Json}
    (h : ∀ item, (f item).isNode = item.isNode ∧ Undisturbed own item (f item)) :
    Undisturbed own (.arr items) (.arr (items.map f)) :=
  .arr (List.forall₂_map_right_iff.2 (List.forall₂_same.2 fun item _ => h item))

end Undisturbed

/-- A marker is plain whatever is set under other keys. -/
theorem PlainMarker.set (h : PlainMarker own n) (hkey : key ≠ "optional") :
    PlainMarker own (n.set key v) := by
  intro w hentry
  cases n with
  | obj l =>
    rcases Entries.mem_set hentry with hold | hnew
    · exact h w hold
    · exact absurd (congrArg Prod.fst hnew).symm hkey
  | _ => cases hentry

/-- A marker is plain whatever is erased. -/
theorem PlainMarker.erase (h : PlainMarker own n) (key : String) :
    PlainMarker own (n.erase key) := by
  intro w hentry
  cases n with
  | obj l => exact h w (List.mem_filter.1 hentry).1
  | _ => cases hentry

namespace UndisturbedBelow

/-- A node that stays is undisturbed. -/
theorem refl (n : Json) : UndisturbedBelow own n n := ⟨fun _ => rfl, id⟩

/-- A node that is undisturbed twice is undisturbed. -/
theorem trans {n'' : Json} (h : UndisturbedBelow own n n') (h' : UndisturbedBelow own n' n'') :
    UndisturbedBelow own n n'' :=
  ⟨fun inside => (h'.collected inside).trans (h.collected inside), h'.plain ∘ h.plain⟩

/-- A key that gets another value. -/
theorem set (hkey : key ≠ "optional") (hmeta : key ∉ Json.metadataKeys)
    (hv : Undisturbed own ((n.get? key).getD .null) v) : UndisturbedBelow own n (n.set key v) := by
  constructor
  · intro inside
    cases n with
    | obj l =>
      refine collectAmong_set ?_
      rw [collectUnder, collectUnder]
      exact if_congr Iff.rfl rfl (hv.collected inside)
    | _ => rfl
  · intro hplain
    refine hplain.set (hplain.self.set hkey) (hv.plain ?_)
    cases hget : n.get? key with
    | none => exact .of_not_isNode rfl rfl
    | some w => exact hplain.get? hmeta hget

/-- A list of which each item is kept by itself. -/
theorem set_map {items : List Json} {f : Json → Json} (hget : n.get? key = some (.arr items))
    (hkey : key ≠ "optional") (hmeta : key ∉ Json.metadataKeys)
    (hf : ∀ item, (f item).isNode = item.isNode ∧ Undisturbed own item (f item)) :
    UndisturbedBelow own n (n.set key (.arr (items.map f))) := by
  refine .set hkey hmeta ?_
  rw [hget]
  exact .map hf

/-- A key that loses its value. -/
theorem erase (h : ∀ entry ∈ entriesOf n, entry.1 = key → Bare own entry.2) :
    UndisturbedBelow own n (n.erase key) := by
  constructor
  · intro inside
    cases n with
    | obj l =>
      have hl : ∀ entry ∈ l, entry.1 = key → Bare own entry.2 := h
      clear h
      show collectAmong own inside (Entries.erase l key) = collectAmong own inside l
      induction l with
      | nil => rfl
      | cons entry rest ih =>
        obtain ⟨k, w⟩ := entry
        rw [List.forall_mem_cons] at hl
        rw [Entries.erase_cons, collectAmong_cons]
        split
        next hk => rw [ih hl.2, Bare.under fun _ => hl.1 hk, List.nil_append]
        next => rw [collectAmong_cons, ih hl.2]
    | _ => rfl
  · exact fun hplain => hplain.erase (hplain.self.erase key)

end UndisturbedBelow

/-! ## Nodes that keep their place -/

variable {o : FileOptions} {site : Site} {rule : EnterRule}

/-- What a marker holds. -/
theorem bare_marker (hown : OfKinds own kinds) (h : inPlace kinds n = true)
    (hkey : key ∈ markerKeys) {entry : String × Json} (hentry : entry ∈ entriesOf n)
    (hsame : entry.1 = key) : Bare own entry.2 := by
  refine .of_without hown (without_of_inPlace h hentry ?_)
  rw [holdsNoExpression, hsame, List.contains_iff_mem.2 hkey]
  rfl

variable (hown : OfKinds own kinds)
include hown

/-- What stands under a marker is bare. -/
theorem bare_getD_marker (h : inPlace kinds n = true) (hkey : key ∈ markerKeys) :
    Bare own ((n.get? key).getD .null) := by
  cases hget : n.get? key with
  | none => exact (Blank.of_not_isNode rfl rfl).bare
  | some w =>
    obtain ⟨l, rfl⟩ := Json.exists_obj_of_get? hget
    exact bare_marker hown h hkey (Entries.mem_of_get? hget) rfl

/-- A node of another kind that gets another part. -/
theorem set_undisturbed {kind : String} (h : n.hasText "type" kind = true)
    (hkind : kind ∉ kinds) (hkey : key ∉ ["type", "callee", "optional"])
    (hmeta : key ∉ Json.metadataKeys) (hv : Undisturbed own ((n.get? key).getD .null) v) :
    (n.set key v).isNode = n.isNode ∧ Undisturbed own n (n.set key v) := by
  simp only [List.mem_cons, List.not_mem_nil, or_false, not_or] at hkey
  obtain ⟨htype, hcallee, hmarker⟩ := hkey
  have htype' : (n.set key v).get? "type" = n.get? "type" := Json.get?_set_ne (Ne.symm htype) v
  have hn : n.kind ∉ kinds := kind_of_kind (get?_of_hasText h) ▸ hkind
  refine ⟨isNode_congr htype', .of_below (.set hmarker hmeta hv) (isNode_of_hasText h)
    (fun _ => hown.own_eq hn) (fun _ => hown.own_eq ?_) htype'
    (Json.get?_set_ne (Ne.symm hcallee) v)⟩
  rwa [kind_congr htype']

/-- A name that gets an annotation. -/
theorem annotated_undisturbed {type : Json} (h : isUnannotated n = true) (htype : Blank own type) :
    (n.set "typeAnnotation" type).isNode = n.isNode ∧
      Undisturbed own n (n.set "typeAnnotation" type) := by
  rw [isUnannotated, Bool.and_eq_true, Bool.not_eq_true', Json.holds] at h
  obtain ⟨hname, hfree⟩ := h
  refine set_undisturbed hown hname (hown.ruleless (by decide)) (by decide)
    (by decide) (.of_blank ?_ htype)
  cases hget : n.get? "typeAnnotation" with
  | none => exact (Blank.of_not_isNode rfl rfl).bare
  | some w =>
    rw [hget] at hfree
    exact (Blank.of_not_isTrue hfree).bare

theorem plainSpecifier_undisturbed (s : Json) :
    (plainSpecifier s).isNode = s.isNode ∧ Undisturbed own s (plainSpecifier s) := by
  rw [plainSpecifier]
  split
  next h =>
    rw [Bool.and_eq_true] at h
    refine set_undisturbed hown h.1 (hown.ruleless (by decide)) (by decide) (by decide)
      (.of_blank ?_ (.of_not_isNode rfl rfl))
    rw [get?_of_hasText h.2]
    exact (Blank.of_not_isNode rfl rfl).bare
  next => exact ⟨rfl, .refl s⟩

/-- An import of values binds as before. -/
theorem importedAs_undisturbed (n : Json) : UndisturbedBelow own n (importedAs n) := by
  rw [importedAs]
  split
  next hkind =>
    refine .set (by decide) (by decide) (.of_blank ?_ (.of_not_isNode rfl rfl))
    rw [get?_of_hasText hkind]
    exact (Blank.of_not_isNode rfl rfl).bare
  split
  · exact .refl n
  split
  next hget => exact .set_map hget (by decide) (by decide) (plainSpecifier_undisturbed hown)
  next => exact .refl n

/-- A variable that gets an annotation is undisturbed. -/
theorem declaredAs_undisturbed (n : Json) : UndisturbedBelow own n (declaredAs o site n) := by
  rw [declaredAs]
  split
  · split
    next id hget =>
      split
      next hun =>
        split
        next type htype =>
          refine .set (by decide) (by decide) ?_
          rw [hget]
          exact (annotated_undisturbed hown hun
            (.of_due hown (D := True) (variableAnnotation?_due htype))).2
        next => exact .refl n
      next => exact .refl n
    next => exact .refl n
  · exact .refl n

theorem annotateWithAny_undisturbed (n : Json) : UndisturbedBelow own n (annotateWithAny n) := by
  have hany : Blank own anyAnnotation := .of_due hown (D := True) anyAnnotation_due
  rw [annotateWithAny]
  split
  next hget =>
    refine .set_map hget (by decide) (by decide) fun param => ?_
    split
    next hun => exact annotated_undisturbed hown hun hany
    next => exact ⟨rfl, .refl param⟩
  next => exact .refl n

/-- A property of a class is undisturbed without its mark. -/
theorem propertyAs_undisturbed (h : inPlace kinds n = true) :
    UndisturbedBelow own n (propertyAs n) := by
  have hblank {v : Json} (hv : v.isNode = false) (hitems : v.items = []) : Blank own v :=
    .of_not_isNode hv hitems
  have hvariance : UndisturbedBelow own n (n.set "variance" .null) :=
    .set (by decide) (by decide) (.of_blank (bare_getD_marker hown h (by decide)) (hblank rfl rfl))
  rw [propertyAs]
  split
  · exact .refl n
  split
  · refine hvariance.trans (.set (by decide) (by decide) (.of_blank ?_ (hblank rfl rfl)))
    rw [Json.get?_set_ne (by decide)]
    exact bare_getD_marker hown h (by decide)
  · exact hvariance

/-- **A node that keeps its place keeps what is collected below it.** -/
theorem keptAs_undisturbed (h : inPlace kinds n = true) :
    UndisturbedBelow own n (keptAs o site n rule) := by
  cases rule with
  | importDeclaration => exact importedAs_undisturbed hown n
  | exportNamed => exact .erase fun entry hentry => bare_marker hown h (by decide) hentry
  | declarator => exact declaredAs_undisturbed hown n
  | functionDeclaration =>
    rw [keptAs]
    split
    · exact annotateWithAny_undisturbed hown n
    · exact .refl n
  | classProperty => exact propertyAs_undisturbed hown h
  | _ => exact .refl n

omit hown

/-! ## Nodes around an expression -/

/-- What is collected below a node is what is collected in one value in it. -/
structure Surrounds (own : Bool → Json → List α) (new v : Json) : Prop where
  collected (inside : Bool) : collectBelow own inside new = collectAt own inside v
  plain : AllInside (PlainMarker own) v → AllBelow (PlainMarker own) new

/-- What surrounds an expression does so at any position. -/
theorem Surrounds.inherit {new : Json} (h : Surrounds own new v) (origin : Json) :
    Surrounds own (Json.inherit origin new) v := by
  refine ⟨fun inside => ?_, fun hplain => .intro ?_ ?_⟩
  · rw [← h.collected, collectBelow, collectBelow, collectAmong_inherit,
      insideOf_congr (Json.get?_inherit_ne (by decide)) (Json.get?_inherit_ne (by decide))]
  · intro w hentry
    rcases Json.mem_entriesOf_inherit hentry with hold | ⟨hkey, -⟩
    · exact (h.plain hplain).self w hold
    · exact absurd hkey (show "optional" ∉ Json.inheritedKeys by decide)
  · intro key w hmeta hget
    rw [Json.get?_inherit_ne fun hmem => hmeta (mem_metadataKeys hmem)] at hget
    exact (h.plain hplain).get? hmeta hget

/-- A node of which one entry alone holds something. -/
theorem surrounds_of_entries (key : String) (hcall : isCreateReactClassCall (.obj l) = false)
    (hkeys : (l.map (·.1)).Nodup) (hget : l.get? key = some v)
    (hkey : key ∉ "optional" :: Json.metadataKeys)
    (h : ∀ entry ∈ l, entry.1 ≠ key → Blank own entry.2) : Surrounds own (.obj l) v := by
  obtain ⟨hmarker, hmeta⟩ := not_or.1 (List.mem_cons.not.1 hkey)
  refine ⟨fun inside => ?_, fun hplain => ?_⟩
  · rw [collectBelow, insideOf, hcall, Bool.false_or]
    exact (collectAmong_eq hkeys hget fun entry hentry hne => (h entry hentry hne).bare).trans
      (if_neg (by simpa using hmeta))
  · refine .of_entries (fun w hw => (h _ hw (Ne.symm hmarker)).bare) ?_
    intro entry hentry _
    by_cases hsame : entry.1 = key
    · obtain rfl : v = entry.2 := by
        rw [← hsame] at hget
        exact Option.some.inj (hget.symm.trans (Entries.get?_of_mem hkeys hentry))
      exact hplain
    · exact (h entry hentry hsame).plain

/-- An `as` surrounds its expression. -/
theorem asExpression_surrounds {e target : Json} (h : Blank own target) :
    Surrounds own (asExpression e target) e := by
  refine surrounds_of_entries "expression" rfl (by simp) rfl (by decide) ?_
  simp only [List.forall_mem_cons]
  exact ⟨fun _ => .of_not_isNode rfl rfl, fun hkey => absurd rfl hkey, fun _ => h,
    fun _ => .of_not_isNode rfl rfl, List.forall_mem_nil _⟩

/-- A list of one object holds what the object holds. -/
theorem Surrounds.of_singleton {new : Json} (h : Surrounds own new (.arr [.obj l])) :
    Surrounds own new (.obj l) := by
  have hnodes : (Json.arr [.obj l]).nodes = (Json.obj l).nodes := by
    rw [Json.nodes, Json.nodes, List.filter_singleton]
    · cases (Json.obj l).isNode <;> rfl
    · rintro _ ⟨⟩
  refine ⟨fun inside => (h.collected inside).trans ?_, fun hplain => h.plain ?_⟩
  · rw [collectAt, collectAt, hnodes]
  · rwa [AllInside, hnodes]

include hown

/-- A call of the helper surrounds its expression. -/
theorem safeCastCall_surrounds {binding : String} {e target : Json} {k : Nat}
    (he : e.isObject = true)
    (h : Due True (Everywhere fun n => !kinds.contains n.kind) k target) :
    Surrounds own (safeCastCall binding e target) e := by
  obtain ⟨l, rfl⟩ := exists_obj_of_isObject he
  have hcallee : Due True (Everywhere fun n => !kinds.contains n.kind) 3
      (TypeScript.node "MemberExpression"
        [("object", TypeScript.identifier binding []),
          ("property", TypeScript.identifier "cast" []),
          ("computed", .bool false)]) := by
    refine .node ?_ (by decide) (by simp)
    simp only [List.forall_mem_cons]
    exact ⟨.name binding none, .name "cast" none, .bool _, List.forall_mem_nil _⟩
  have htypes : Due True (Everywhere fun n => !kinds.contains n.kind) (k + 1)
      (TypeScript.node "TSTypeParameterInstantiation" [("params", .arr [target])]) :=
    .node (List.forall_mem_singleton.2 (.arr (List.forall_mem_singleton.2 h))) (by decide) (by simp)
  refine .of_singleton (surrounds_of_entries "arguments" rfl (by simp) rfl (by decide) ?_)
  simp only [List.forall_mem_cons]
  exact ⟨fun _ => .of_not_isNode rfl rfl, fun _ => .of_due hown hcallee,
    fun hkey => absurd rfl hkey, fun _ => .of_due hown htypes, List.forall_mem_nil _⟩

/-! ## Casts -/

omit hown in
/-- A cast that is nested is the expression of the outer one. -/
theorem castExpression_of_nestedCast? {inner : Json} (h : nestedCast? n = some inner) :
    castExpression n = .ok inner := by
  rw [nestedCast?] at h
  cases he : castExpression n with
  | error e =>
    rw [he] at h
    cases h
  | ok e =>
    rw [he] at h
    dsimp only at h
    split at h <;> cases h
    rfl

omit hown in
/-- The type of a cast is laid out without a node of the kinds. -/
theorem Target.without_due {c : TypeContext} {e type target : Json} (h : Target c e type target)
    (htype : without kinds type = true) :
    ∃ k, Due True (Everywhere fun n => !kinds.contains n.kind) k target := by
  cases h with
  | becomes rewritten =>
    exact ⟨_, (migrateNode_laid c (everywhere_keyPasses htype) _ rewritten).due⟩
  | const =>
    exact ⟨2, .node (List.forall_mem_singleton.2 (.name "const" none)) (by decide) (by simp)⟩

omit hown in
/-- Nothing of the kinds stands in a cast, but in its expression. -/
theorem without_of_cast (hplace : inPlace kinds n = true) (hcast : isCast n = true)
    {entry : String × Json} (hentry : entry ∈ entriesOf n) (hkey : entry.1 ≠ "expression") :
    without kinds entry.2 = true := by
  refine without_of_inPlace hplace hentry ?_
  rw [holdsNoExpression, hcast, bne_iff_ne.2 hkey]
  exact Bool.or_true _

omit hown in
/-- Nor does it in the type of the cast. -/
theorem without_castType {type : Json} (hplace : inPlace kinds n = true) (hcast : isCast n = true)
    (htype : castType n = .ok type) : without kinds type = true := by
  have hyields : Result.Yields (castType n) fun type => without kinds type = true := by
    refine .bind ((field_yields n "typeAnnotation").mono fun typed htyped => ?_)
    obtain ⟨l, rfl⟩ := Json.exists_obj_of_get? htyped
    have hfree : without kinds typed = true :=
      without_of_cast hplace hcast (Entries.mem_of_get? htyped) (by simp)
    exact (field_yields typed "typeAnnotation").mono fun _ hget =>
      Json.everywhere_of_get? hfree hget
  exact hyields type htype

omit hown in
/-- A cast is no call of `createReactClass`. -/
theorem insideOf_of_isCast (hcast : isCast n = true) : insideOf inside n = inside :=
  insideOf_of_kind (eq_of_beq hcast ▸ by decide)

/-- What is collected below a cast is what is collected in its expression. -/
theorem collectBelow_of_cast {e : Json} (hplace : inPlace kinds n = true) (hcast : isCast n = true)
    (he : castExpression n = .ok e) : collectBelow own inside n = collectAt own inside e := by
  have hget := field_yields n "expression" e he
  rw [collectBelow, insideOf_of_isCast hcast]
  obtain ⟨l, rfl⟩ := Json.exists_obj_of_get? hget
  exact collectAmong_eq (nodup_of_inPlace hplace) hget fun entry hentry hkey =>
    .of_without hown (without_of_cast hplace hcast hentry hkey)

/-- **What a cast becomes surrounds its expression**, or that of the cast
inside it. -/
theorem Recast.surrounds {new : Json} (h : Recast o n new) (hcast : isCast n = true)
    (hplace : n.everywhere (inPlace kinds) = true) :
    ∃ e, Surrounds own new e ∧ e.everywhere (inPlace kinds) = true ∧ ∀ inside,
      collectBelow own inside n =
        (nestedCast? n).toList.flatMap (own inside) ++ collectAt own inside e := by
  have hself := Json.everywhere_self hplace
  have single {e type : Json} (hparts : CastParts n e type) (hsingle : nestedCast? n = none) :
      e.everywhere (inPlace kinds) = true ∧ ∀ inside, collectBelow own inside n =
        (nestedCast? n).toList.flatMap (own inside) ++ collectAt own inside e := by
    refine ⟨Json.everywhere_of_get? hplace (field_yields n "expression" e hparts.expression),
      fun inside => ?_⟩
    rw [collectBelow_of_cast hown hself hcast hparts.expression, hsingle]
    rfl
  have nested {inner e type type' : Json} (hparts : CastParts n inner type)
      (hnested : nestedCast? n = some inner) (hinside : CastParts inner e type') :
      e.everywhere (inPlace kinds) = true ∧ (∀ inside, collectBelow own inside n =
        (nestedCast? n).toList.flatMap (own inside) ++ collectAt own inside e) ∧
        without kinds type' = true := by
    have hinner := Json.everywhere_of_get? hplace
      (field_yields n "expression" inner hparts.expression)
    have hinnerSelf := Json.everywhere_self hinner
    have hinnerCast : isCast inner = true := by
      have hkind := kind_of_kind (get?_of_hasText
        (unsound_of_nestedCast? hparts.expression hnested).1)
      rw [isCast, hkind]
      rfl
    refine ⟨Json.everywhere_of_get? hinner (field_yields inner "expression" e hinside.expression),
      fun inside => ?_, without_castType hinnerSelf hinnerCast hinside.type⟩
    rw [collectBelow_of_cast hown hself hcast hparts.expression, hnested,
      collectAt_of_isNode (isNode_of_isCast hinnerCast), collectIn_eq,
      insideOf_of_isCast hinnerCast,
      collectBelow_of_cast hown hinnerSelf hinnerCast hinside.expression]
    simp
  cases h with
  | @asserted e type target hparts hsingle _ hbecomes =>
    obtain ⟨k, htarget⟩ := hbecomes.without_due (without_castType hself hcast hparts.type)
    exact ⟨e, asExpression_surrounds (.of_due hown htarget), single hparts hsingle⟩
  | @unwrapped inner e type type' target hparts hnested hinside _ hbecomes =>
    obtain ⟨k, htarget⟩ := hbecomes.without_due (without_castType hself hcast hparts.type)
    obtain ⟨hsource, hcollected, -⟩ := nested hparts hnested hinside
    exact ⟨e, asExpression_surrounds (.of_due hown htarget), hsource, hcollected⟩
  | @doubled inner e type type' target target' hparts hnested hinside _ hbecomes hbecomes' =>
    obtain ⟨k, htarget⟩ := hbecomes.without_due (without_castType hself hcast hparts.type)
    obtain ⟨hsource, hcollected, hfree⟩ := nested hparts hnested hinside
    obtain ⟨k', htarget'⟩ := hbecomes'.without_due hfree
    have hinner : Surrounds own (asExpression e target') e :=
      asExpression_surrounds (.of_due hown htarget')
    have houter : Surrounds own (asExpression (asExpression e target') target)
        (asExpression e target') := asExpression_surrounds (.of_due hown htarget)
    refine ⟨e, ⟨fun inside => ?_, fun hplain => houter.plain ((hinner.plain hplain).value rfl)⟩,
      hsource, hcollected⟩
    rw [houter.collected, collectAt_of_isNode rfl, collectIn_eq, hown.own_eq, hinner.collected,
      List.nil_append]
    have hruleless : Ruleless "TSAsExpression" := by decide
    exact hown.ruleless hruleless
  | @called e type target hparts hsingle hbecomes =>
    obtain ⟨k, htarget⟩ := hbecomes.without_due (without_castType hself hcast hparts.type)
    have hobject := isObject_of_field hparts.expression
    exact ⟨e, safeCastCall_surrounds hown hobject htarget, single hparts hsingle⟩

/-! ## On the way down -/

/-- What is put in the place of a node holds what was collected below it. -/
structure Replacing (own : Bool → Json → List α) (n m : Json) : Prop where
  collected (inside : Bool) : collectBelow own inside m = collectBelow own inside n
  plain : AllBelow (PlainMarker own) m

omit hown in
theorem inPlace_nodup : True → ∀ l : Entries, inPlace kinds (.obj l) = true → (l.map (·.1)).Nodup :=
  fun _ _ => nodup_of_inPlace

/-- A node that belongs to a type has no node of the kinds in it. -/
theorem without_of_flowType (hplace : n.everywhere (inPlace kinds) = true) (hn : n.isNode = true)
    (hkind : n.kind ∈ flowTypeKinds) : without kinds n = true := by
  obtain ⟨l, rfl⟩ := exists_obj_of_isObject (isObject_of_isNode hn)
  refine Json.everywhere_obj_iff.2 ⟨?_, fun entry hentry => ?_⟩
  · simpa using hown.untyped _ hkind
  · refine without_of_inPlace (Json.everywhere_self hplace) hentry ?_
    rw [holdsNoExpression, List.contains_iff_mem.2 hkind, Bool.or_true, Bool.true_or]

/-- A node without a node of the kinds in it, and what takes its place. -/
theorem Replacing.of_without (h : without kinds n = true) {D : Prop} {k : Nat}
    (hparts : DueParts D (Everywhere fun n => !kinds.contains n.kind) k v) : Replacing own n v := by
  have hblank : ∀ entry ∈ entriesOf v, entry.1 ∉ Json.metadataKeys → Blank own entry.2 :=
    fun entry hentry hmeta => .of_due hown (hparts entry hentry hmeta)
  refine ⟨fun inside => ?_, .of_entries (fun w hentry => ?_) fun entry hentry hmeta =>
    (hblank entry hentry hmeta).plain⟩
  · have hnil := collectIn_of_without hown h inside
    rw [collectIn_eq, List.append_eq_nil_iff] at hnil
    rw [hnil.2]
    exact Bare.among fun entry hentry hmeta => (hblank entry hentry hmeta).bare
  · have hmeta : "optional" ∉ Json.metadataKeys := by decide
    exact (hblank ("optional", w) hentry hmeta).bare

/-- What replaces a node that is no cast holds what the node held. -/
theorem Enters.replacing {m : Json} {mark : Bool}
    (h : Enters True (inPlace kinds) o site n m mark) (hn : n.isNode = true)
    (hcast : isCast n = false) (hplain : AllBelow (PlainMarker own) n)
    (hfree : without kinds n = true → Replacing own n m) : Replacing own n m := by
  cases h with
  | free => exact ⟨fun _ => rfl, hplain⟩
  | @kept rule _ _ source _ =>
    have hkept : UndisturbedBelow own n (keptAs o site n rule) :=
      keptAs_undisturbed hown (Json.everywhere_self source)
    refine ⟨fun inside => ?_, hkept.plain hplain⟩
    rw [collectBelow, collectBelow, hkept.collected,
      insideOf_congr (keptAs_get? (by decide)) (keptAs_get? (by decide))]
  | @replaced rule new mark k rules gives source replaced =>
    -- all other nodes that lose their place belong to types
    have hkinds : ∀ entry ∈ enterRules, entry.2.keepsPlace = false →
        entry.2 = .typeCast ∨ entry.2 = .flowOnly ∨ entry.1 ∈ flowTypeKinds := by decide
    refine hfree ?_
    rcases hkinds _ (mem_of_enterRule rules) gives with htype | hflow | hkind
    · rw [(isCast_iff_typeCast rules).2 htype] at hcast
      cases hcast
    · obtain rfl : rule = .flowOnly := hflow
      have hparts : ∀ part ∈ partKinds, part.1 ≠ .flowOnly := by decide
      cases replaced.replaces with
      | part hpart => exact absurd rfl (hparts _ hpart)
    · exact without_of_flowType hown source hn hkind

variable {place : Place} {k : Nat}

/-- A node without a node of the kinds in it. -/
theorem enter_without (hn : n.isNode = true)
    (hdue : Due True (Everywhere (inPlace kinds)) (k + 1) n)
    (hplain : AllBelow (PlainMarker own) n) : ((rewriter o).enter place n).Yields fun visit =>
      without kinds n = true → Replacing own n visit.node := by
  cases hfree : without kinds n with
  | false => exact .trivial _ fun _ htrue => absurd htrue Bool.false_ne_true
  | true =>
    obtain ⟨-, -, hsource⟩ := hdue.visited inPlace_nodup hn
    rcases hsource with hruleless | ⟨-, hnesting⟩
    · rw [rewriter]
      dsimp only
      rw [hruleless.1]
      exact .pure fun _ => ⟨fun _ => rfl, hplain⟩
    · have hdue' : Due False (Everywhere fun n => !kinds.contains n.kind) (k + 1) n :=
        .source hnesting hfree
      refine (enter_visited (fun h => h.elim) hn hdue').mono fun visit hvisit _ => ?_
      obtain ⟨mark, -, -, hparts⟩ := hvisit
      exact .of_without hown hfree hparts

/-- What is known of a node that was entered. -/
structure EntersOver (own : Bool → Json → List α) (kinds : List String) (o : FileOptions) (k : Nat)
    (site : Site) (n : Json) (visit : Syntax.Visit) (mark : Bool) : Prop where
  enters : Enters True (inPlace kinds) o site n visit.node mark
  fields : visit.parentFields = markers mark
  parts : DueParts True (Everywhere (inPlace kinds)) k visit.node
  replacing : Replacing own n visit.node

/-- **On the way down what is collected below a node stays**, unless casts give
something. -/
theorem enter_collects (hcasts : "TypeCastExpression" ∉ kinds) (hn : n.isNode = true)
    (hdue : Due True (Everywhere (inPlace kinds)) (k + 1) n)
    (hplain : AllBelow (PlainMarker own) n) : ((rewriter o).enter place n).Yields fun visit =>
      ∃ mark, EntersOver own kinds o k (siteAt place n) n visit mark := by
  cases hcast : isCast n with
  | true =>
    refine ((enter_visited inPlace_nodup hn hdue).and (enter_recast hcast)).mono
      fun visit hvisit => ?_
    obtain ⟨⟨mark, henters, hfields, hparts⟩, new, hnode, hrecast⟩ := hvisit
    have hsource := henters.source (by rw [enterRule?_of_isCast hcast]; exact Option.some_ne_none _)
    obtain ⟨e, hsurrounds, he, hcollected⟩ := hrecast.surrounds hown hcast hsource
    have hinherits := hsurrounds.inherit n
    rw [← hnode] at hinherits
    refine ⟨mark, henters, hfields, hparts, fun inside => ?_,
      hinherits.plain (plainMarkers_of_source hown he)⟩
    -- the cast inside, if there is one, gives nothing either
    have hnested : (nestedCast? n).toList.flatMap (own inside) = [] := by
      refine List.flatMap_eq_nil_iff.2 fun inner hinner => hown.own_eq ?_
      have hnested : nestedCast? n = some inner := Option.mem_toList.1 hinner
      have hexpr : castExpression n = .ok inner := castExpression_of_nestedCast? hnested
      rw [kind_of_kind (get?_of_hasText (unsound_of_nestedCast? hexpr hnested).1)]
      exact hcasts
    rw [hinherits.collected, hcollected, hnested, List.nil_append]
  | false =>
    refine ((enter_visited inPlace_nodup hn hdue).and (enter_without hown hn hdue hplain)).mono
      fun visit hvisit => ?_
    obtain ⟨⟨mark, henters, hfields, hparts⟩, hfree⟩ := hvisit
    exact ⟨mark, henters, hfields, hparts, henters.replacing hown hn hcast hplain hfree⟩

end

end Retype.Migration
