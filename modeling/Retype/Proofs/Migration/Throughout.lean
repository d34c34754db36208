import Retype.Proofs.Migration.Passage
/-!
# What holds of every node below a node

The nodes below a node are those under its keys, or in the lists under its
keys. A condition on nodes and their sites holds `Throughout` a node if it
holds of the node and of every node below. Where it holds of what has become
of each node, it holds throughout what has become of the tree; what is written
on the way up, to optional parameters and into the program, adds nodes without
rules only.
-/

namespace Retype

/-- The nodes that a walk finds in a value. -/
def Json.nodes : Json → List Json
  | arr items => items.filter isNode
  | v => if v.isNode then [v] else []

namespace Migration

/-- A condition holds of a node at a site and of all nodes below. -/
inductive Throughout (own : Site → Json → Prop) : Site → Json → Prop
  | intro {site : Site} {n : Json} (isNode : n.isNode = true) (self : own site n)
      (below : ∀ key v, key ∉ Json.metadataKeys → n.get? key = some v →
        ∀ child ∈ v.nodes, Throughout own (site.below n) child) : Throughout own site n

/-- A condition holds throughout the nodes in a value. -/
def ThroughoutValue (own : Site → Json → Prop) (site : Site) (v : Json) : Prop :=
  ∀ child ∈ v.nodes, Throughout own site child

/-- A condition holds throughout an item of a list, if that is a node. -/
def ThroughoutItem (own : Site → Json → Prop) (site : Site) (v : Json) : Prop :=
  v.isNode = true → Throughout own site v

/-- Sites that are the same for declarators and methods. -/
structure Site.Agrees (s s' : Site) : Prop where
  inside : s'.inside = s.inside
  loop : s'.parent.any loopKinds.contains = s.parent.any loopKinds.contains
  declares (o : FileOptions) : s'.declaresTestVariable o = s.declaresTestVariable o

/-- Sites that agree do so below a node. -/
theorem Site.Agrees.below {s s' : Site} (h : s.Agrees s') (n : Json) :
    (s.below n).Agrees (s'.below n) where
  inside := by simp only [Site.below, h.inside]
  loop := rfl
  declares o := by
    rw [Site.declaresTestVariable, Site.declaresTestVariable, Site.below, Site.below]
    simp only [h.loop]

/-- Only a variable declaration declares a test variable. -/
theorem Site.declares_eq_false {s : Site} {o : FileOptions}
    (h : s.parent ≠ some "VariableDeclaration") : s.declaresTestVariable o = false := by
  simp [Site.declaresTestVariable, h]

/-- What is asked of a condition so that it stays where parameters lose their
markers, types are widened, and nodes without rules are written. -/
structure Stable (D : Prop) (own : Site → Json → Prop) : Prop where
  ruleless {site : Site} {n : Json} (isNode : n.isNode = true) (kind : Ruleless n.kind)
    (keys : D → ((entriesOf n).map (·.1)).Nodup) : own site n
  keys {site : Site} {n : Json} (h : own site n) : D → ((entriesOf n).map (·.1)).Nodup
  erase {site : Site} {n : Json} (h : own site n) : own site (n.erase "optional")
  pattern {site : Site} {n left : Json} (h : own site n)
    (kind : n.hasText "type" "AssignmentPattern" = true) (unmarked : left.get? "optional" = none) :
    own site (n.set "left" left)
  agrees {s s' : Site} {n : Json} (h : own s n) (agrees : s.Agrees s') : own s' n

section
variable {D : Prop} {own : Site → Json → Prop} {site : Site} {n v : Json} {key : String}

/-! ## Nodes in a value -/

/-- The only node at a node is itself. -/
theorem nodes_of_isNode (h : v.isNode = true) : v.nodes = [v] := by
  cases v with
  | arr items => cases h
  | _ => simp [Json.nodes, h]

/-- The nodes in a list are its items that are nodes. -/
theorem mem_nodes_arr {items : List Json} {child : Json} :
    child ∈ (Json.arr items).nodes ↔ child ∈ items ∧ child.isNode = true := List.mem_filter

/-- A condition holds throughout a list when it does throughout each item. -/
theorem throughoutValue_arr_iff {items : List Json} : ThroughoutValue own site (.arr items) ↔
    ∀ item ∈ items, ThroughoutItem own site item := by
  simp only [ThroughoutValue, ThroughoutItem, mem_nodes_arr, and_imp]

/-- A value that is neither a node nor a list holds no node. -/
theorem nodes_of_not_isNode (h : v.isNode = false) (hitems : v.items = []) : v.nodes = [] := by
  cases v with
  | arr items =>
    rw [show items = [] from hitems]
    rfl
  | _ => simp [Json.nodes, h]

/-- Every condition holds throughout such a value. -/
theorem ThroughoutValue.of_not_isNode (h : v.isNode = false) (hitems : v.items = []) :
    ThroughoutValue own site v := by
  rw [ThroughoutValue, nodes_of_not_isNode h hitems]
  exact List.forall_mem_nil _

/-- What holds throughout a node holds throughout it as a value. -/
theorem Throughout.value (h : Throughout own site n) : ThroughoutValue own site n := by
  intro child hchild
  cases h with
  | intro isNode self below =>
    rw [nodes_of_isNode isNode, List.mem_singleton] at hchild
    exact hchild ▸ .intro isNode self below

/-- And the other way round. -/
theorem ThroughoutValue.node (h : ThroughoutValue own site n) (hn : n.isNode = true) :
    Throughout own site n := h n (by rw [nodes_of_isNode hn]; exact List.mem_singleton_self n)

namespace Throughout

/-- What a condition holds throughout is a node. -/
theorem isNode (h : Throughout own site n) : n.isNode = true := by
  cases h
  assumption

/-- The condition holds of the node itself. -/
theorem self (h : Throughout own site n) : own site n := by
  cases h
  assumption

/-- It holds throughout each of its fields. -/
theorem get? (h : Throughout own site n) (hkey : key ∉ Json.metadataKeys)
    (hget : n.get? key = some v) : ThroughoutValue own (site.below n) v := by
  cases h with
  | intro _ _ below => exact below key v hkey hget

end Throughout

/-- It holds throughout when it does of the node and throughout each entry. -/
theorem Throughout.of_entries (hn : n.isNode = true) (hself : own site n)
    (h : ∀ entry ∈ entriesOf n, entry.1 ∉ Json.metadataKeys →
      ThroughoutValue own (site.below n) entry.2) : Throughout own site n := by
  obtain ⟨l, rfl⟩ := exists_obj_of_isObject (isObject_of_isNode hn)
  exact .intro hn hself fun key v hkey hget => h (key, v) (Entries.mem_of_get? hget) hkey

/-- What a site becomes below a node depends on the node's kind and its callee. -/
theorem below_congr {n n' : Json} (htype : n'.get? "type" = n.get? "type")
    (hcallee : n'.get? "callee" = n.get? "callee") : site.below n' = site.below n := by
  simp only [Site.below, plainKind_congr htype, isCreateReactClassCall,
    Json.hasText, htype, hcallee]

/-- A value that is no list, as an item. -/
theorem ThroughoutValue.of_item (hobject : v.isObject = true) (h : ThroughoutItem own site v) :
    ThroughoutValue own site v := by
  cases hn : v.isNode with
  | true => exact (h hn).value
  | false =>
    obtain ⟨l, rfl⟩ := exists_obj_of_isObject hobject
    exact .of_not_isNode hn rfl

/-- Widening a parameter's type leaves its other fields. -/
theorem widenWithUndefined_get? (hkey : key ≠ "typeAnnotation") (param : Json) :
    Result.Yields (widenWithUndefined param) fun param' =>
      param'.isObject = param.isObject ∧ param'.get? key = param.get? key := by
  rw [widenWithUndefined]
  split
  · refine .ite (fun _ => .bind (.trivial _ fun _ => .bind (.trivial _ fun _ => .pure ?_)))
      fun _ => .pure ⟨rfl, rfl⟩
    exact ⟨Json.isObject_set _, Json.get?_set_ne hkey _⟩
  · exact .pure ⟨rfl, rfl⟩

/-- A parameter that has to be given keeps all its fields but the marker and the
annotation. -/
theorem requireParam_get? (hkey : key ∉ ["optional", "typeAnnotation"]) (param : Json) :
    Result.Yields (requireParam param) fun param' =>
      param'.isObject = param.isObject ∧ param'.get? key = param.get? key := by
  simp only [List.mem_cons, List.not_mem_nil, or_false, not_or] at hkey
  rw [requireParam]
  refine .ite (fun _ => (widenWithUndefined_get? hkey.2 _).mono fun _ h => ?_)
    fun _ => .pure ⟨rfl, rfl⟩
  exact ⟨h.1.trans Json.isObject_erase, h.2.trans (Json.get?_erase_ne hkey.1)⟩

/-- A parameter without a marker does not get one. -/
theorem requireParam_unmarked {param : Json} (h : param.get? "optional" = none) :
    Result.Yields (requireParam param) fun param' => param'.get? "optional" = none := by
  have herased : (param.erase "optional").get? "optional" = none := by
    cases param with
    | obj l => exact Entries.get?_erase_self
    | _ => rfl
  rw [requireParam]
  exact .ite (fun _ => (widenWithUndefined_get? (by decide) _).mono fun _ h => h.2.trans herased)
    fun _ => .pure h

/-! ## Changes that keep a condition -/

/-- A node that gets another part. -/
theorem Throughout.set_part (h : Throughout own site n) (hself : own site (n.set key v))
    (hkey : key ∉ ["type", "callee"]) (hv : ThroughoutValue own (site.below n) v) :
    Throughout own site (n.set key v) := by
  have htype : "type" ≠ key := fun h => hkey (h ▸ by decide)
  have hcallee : "callee" ≠ key := fun h => hkey (h ▸ by decide)
  have hget {key' : String} (hne : key' ≠ key) : (n.set key v).get? key' = n.get? key' :=
    Json.get?_set_ne hne v
  refine .intro ((isNode_congr (hget htype)).trans h.isNode) hself ?_
  intro key' v' hmeta hv'
  rw [below_congr (hget htype) (hget hcallee)]
  by_cases hsame : key' = key
  · subst hsame
    exact Json.eq_of_get?_set_self hv' ▸ hv
  · exact h.get? hmeta ((hget hsame).symm.trans hv')

variable (hs : Stable D own)
include hs

/-- Sites that agree are not told apart. -/
theorem Throughout.agrees {s s' : Site} (h : Throughout own s n) (hagrees : s.Agrees s') :
    Throughout own s' n := by
  induction h generalizing s' with
  | intro isNode self _ ih =>
    refine .intro isNode (hs.agrees self hagrees) fun key v hkey hget child hchild => ?_
    exact ih key v hkey hget child hchild (hagrees.below _)

/-- A node that loses a marker. -/
theorem Throughout.erase (h : Throughout own site n) :
    Throughout own site (n.erase "optional") := by
  have hget {key : String} (hkey : key ≠ "optional") :
      (n.erase "optional").get? key = n.get? key := Json.get?_erase_ne hkey
  refine .intro ((isNode_congr (hget (by decide))).trans h.isNode) (hs.erase h.self) ?_
  intro key v hkey hv
  rw [below_congr (hget (by decide)) (hget (by decide))]
  refine h.get? hkey ?_
  rwa [← hget]
  rintro rfl
  obtain ⟨l, hl⟩ := exists_obj_of_isObject (isObject_of_isNode h.isNode)
  rw [hl] at hv
  simp [Json.erase, Json.get?, Entries.get?_erase_self] at hv

/-- A marker may be taken away. -/
theorem ThroughoutValue.erase (h : ThroughoutValue own site v) :
    ThroughoutValue own site (v.erase "optional") := by
  have htype : (v.erase "optional").get? "type" = v.get? "type" := Json.get?_erase_ne (by decide)
  cases hn : v.isNode with
  | true => exact ((h.node hn).erase hs).value
  | false =>
    cases v with
    | obj l => exact .of_not_isNode ((isNode_congr htype).trans hn) rfl
    | _ => exact h

/-- A node without rules that gets another part. -/
theorem Throughout.set (h : Throughout own site n) (hkind : Ruleless n.kind)
    (hkey : key ∉ ["type", "callee"]) (hv : ThroughoutValue own (site.below n) v) :
    Throughout own site (n.set key v) := by
  have htype : (n.set key v).get? "type" = n.get? "type" :=
    Json.get?_set_ne (fun h : "type" = key => hkey (h ▸ by decide)) v
  refine h.set_part (hs.ruleless ?_ (kind_congr htype ▸ hkind) fun d => ?_) hkey hv
  · exact (isNode_congr htype).trans h.isNode
  · have hkeys := hs.keys h.self d
    cases n with
    | obj l => exact Entries.nodup_set hkeys v
    | _ => exact hkeys

/-! ## Nodes that were written -/

/-- A condition holds of what was written if it holds of the parts of the
source in it. -/
theorem Due.throughout {K : Json → Prop} {k : Nat}
    (hK : ∀ site v, K v → ThroughoutValue own site v) (h : Due D K k v) :
    ThroughoutValue own site v := by
  induction h generalizing site with
  | source _ source => exact hK site _ source
  | leaf single scalar => exact .of_not_isNode single scalar
  | arr _ ih =>
    exact throughoutValue_arr_iff.2 fun item hitem hn => (ih item hitem).node hn
  | @fresh k l kind keys _ _ ih =>
    cases hn : (Json.obj l).isNode with
    | false => exact .of_not_isNode hn rfl
    | true =>
      refine (Throughout.intro hn (hs.ruleless hn kind keys) fun key v hkey hget => ?_).value
      exact ih (key, v) (Entries.mem_of_get? hget) hkey

/-- Every condition on rules holds throughout what was written. -/
theorem Written.throughout {k : Nat} (h : Written D (fun _ => False) k n) :
    Throughout own site n := (Due.throughout hs nofun h.due).node h.isNode

/-! ## Optional parameters -/

/-- So it does throughout `undefined`. -/
theorem undefinedType_throughout : Throughout own site undefinedType :=
  Written.throughout (k := 0) hs (.node nofun (by decide) (by simp))

omit hs in
/-- The union around a type inside an annotation makes no difference below. -/
theorem agrees_below_union (hparent : site.parent = some "TSTypeAnnotation") (types : Json) :
    site.Agrees (site.below (TypeScript.node "TSUnionType" [("types", types)])) := by
  have hunion : (site.below (TypeScript.node "TSUnionType" [("types", types)])).parent =
      some "TSUnionType" := rfl
  refine ⟨rfl, ?_, fun o => ?_⟩
  · rw [hparent, hunion]
    rfl
  · rw [Site.declares_eq_false (by rw [hunion]; decide),
      Site.declares_eq_false (by rw [hparent]; decide)]

/-- A type inside an annotation that also admits `undefined`. -/
theorem admitUndefined_throughout {type : Json} (hparent : site.parent = some "TSTypeAnnotation")
    (h : ThroughoutValue own site type) :
    Result.Yields (admitUndefined type) (ThroughoutValue own site) := by
  rw [admitUndefined]
  refine .ite (fun hunion => .bind (.mono (listField_yields type _) fun types htypes => ?_))
    fun _ => .pure ?_
  · obtain ⟨hn, hkind⟩ := ruleless_of_hasText hunion (by decide)
    refine .ite (fun _ => .pure h) fun _ => .pure (Throughout.value ?_)
    refine (h.node hn).set hs hkind (by decide)
      (throughoutValue_arr_iff.2 fun item hitem hitem' => ?_)
    rcases List.mem_append.1 hitem with hitem | hitem
    · exact throughoutValue_arr_iff.1 ((h.node hn).get? (by decide) htypes) item hitem hitem'
    · rw [List.mem_singleton.1 hitem]
      exact undefinedType_throughout hs
  · have hkind : Ruleless "TSUnionType" := by decide
    have hkeys : ["type", "types"].Nodup := by decide
    have hself : own site (TypeScript.node "TSUnionType" [("types", .arr [type, undefinedType])]) :=
      hs.ruleless rfl hkind fun _ => hkeys
    have hagrees := agrees_below_union hparent (.arr [type, undefinedType])
    refine (Throughout.of_entries rfl hself ?_).value
    refine List.forall_mem_cons.2 ⟨fun _ => .of_not_isNode rfl rfl, ?_⟩
    refine List.forall_mem_singleton.2 fun _ => throughoutValue_arr_iff.2 ?_
    refine List.forall_mem_cons.2 ⟨fun hn => (h.node hn).agrees hs hagrees, ?_⟩
    exact List.forall_mem_singleton.2 fun _ => undefinedType_throughout hs

/-- A widened parameter still meets the condition throughout. -/
theorem widenWithUndefined_throughout {param : Json} (h : Throughout own site param)
    (hkind : Ruleless param.kind) :
    Result.Yields (widenWithUndefined param) (Throughout own site) := by
  rw [widenWithUndefined]
  split
  next typed htyped =>
    refine .ite (fun hkind' => ?_) fun _ => .pure h
    obtain ⟨hn, hruleless⟩ := ruleless_of_hasText hkind' (by decide)
    have htyped := (h.get? (by decide) htyped).node hn
    refine .bind ((field_yields typed _).mono fun inner hinner => ?_)
    have hparent : ((site.below param).below typed).parent = some "TSTypeAnnotation" :=
      congrArg some (plainKind_of_type (get?_of_hasText hkind'))
    refine .bind ((admitUndefined_throughout hs hparent (htyped.get? (by decide) hinner)).mono
      fun inner' hinner' => .pure ?_)
    exact h.set hs hkind (by decide) (htyped.set hs hruleless (by decide) hinner').value
  next => exact .pure h

/-- A parameter that has to be given. -/
theorem requireParam_throughout {param : Json} (h : ThroughoutItem own site param) :
    Result.Yields (requireParam param) (ThroughoutItem own site) := by
  rw [requireParam]
  refine .ite (fun hname => ?_) fun _ => .pure h
  obtain ⟨hn, hkind⟩ := ruleless_of_hasText hname (by decide)
  have htype : (param.erase "optional").get? "type" = param.get? "type" :=
    Json.get?_erase_ne (by decide)
  exact (widenWithUndefined_throughout hs ((h hn).erase hs) (kind_congr htype ▸ hkind)).mono
    fun _ h _ => h

/-- So does a parameter that was reordered. -/
theorem reorderParam_throughout {param : Json} (h : ThroughoutItem own site param)
    (trailing : Bool) :
    Result.Yields (reorderParam param trailing) fun r => ThroughoutItem own site r.1 := by
  rw [reorderParam]
  refine .ite (fun _ => .pure h) fun _ => .ite (fun hpattern => ?_) fun _ => .ite (fun _ => ?_)
    fun _ => .pure h
  · split
    next l hleft =>
      have hparam := h (isNode_of_hasText hpattern)
      have hunmarked : ((Json.obj l).erase "optional").get? "optional" = none :=
        Entries.get?_erase_self
      have herased : ThroughoutItem own (site.below param) ((Json.obj l).erase "optional") :=
        ((hparam.get? (by decide) hleft).erase hs).node
      have hset (left : Json) (hobject : left.isObject = true)
          (hleft : ThroughoutItem own (site.below param) left)
          (hunmarked : left.get? "optional" = none) :
          ThroughoutItem own site (param.set "left" left) := fun _ =>
        hparam.set_part (hs.pattern hparam.self hpattern hunmarked) (by decide)
          (.of_item hobject hleft)
      cases trailing with
      | true => exact .pure (hset _ rfl herased hunmarked)
      | false =>
        refine .bind fun left h => .pure (hset left ?_ ?_ ?_)
        · exact (requireParam_get?
            (show "type" ∉ ["optional", "typeAnnotation"] by decide) _ left h).1
        · exact requireParam_throughout hs herased left h
        · exact requireParam_unmarked hunmarked left h
    next => exact .error _
  · exact .ite (fun _ => .pure h) fun _ =>
      .bind ((requireParam_throughout hs h).mono fun _ h => .pure h)

/-- So do all of them. -/
theorem reorderParams_throughout {params : List Json}
    (h : ∀ param ∈ params, ThroughoutItem own site param) :
    Result.Yields (reorderParams params) fun params' =>
      ∀ param ∈ params', ThroughoutItem own site param := by
  have hfrom : Result.Yields (reorderFrom params) fun r =>
      ∀ param ∈ r.1, ThroughoutItem own site param := by
    induction params with
    | nil => exact .pure nofun
    | cons param rest ih =>
      rw [List.forall_mem_cons] at h
      refine .bind ((ih h.2).mono fun r hrest => .bind ?_)
      refine (reorderParam_throughout hs h.1 r.2).mono fun r' hparam => .pure ?_
      exact List.forall_mem_cons.2 ⟨hparam, hrest⟩
  exact .bind (hfrom.mono fun r hr => .pure hr)

/-! ## The walk -/

omit hs in
/-- The import of the helpers was written. -/
theorem helperImport_due (o : FileOptions) :
    ∀ entry ∈ entriesOf (helperImport o), Due D (fun _ => False) 2 entry.2 := by
  have hname : Due D (fun _ => False) 2 (TypeScript.node "ImportDefaultSpecifier"
      [("local", TypeScript.identifier o.utilsBinding [])]) :=
    .node (List.forall_mem_singleton.2 (.name _ none)) (by decide) (by simp)
  have hsource : Due D (fun _ => False) 2
      (TypeScript.node "StringLiteral" [("value", .str o.utilsModule)]) :=
    .node (List.forall_mem_singleton.2 (.str _)) (by decide) (by simp)
  simp only [helperImport, TypeScript.node, entriesOf, List.forall_mem_cons]
  exact ⟨.str _, .str _, .arr (List.forall_mem_singleton.2 hname), hsource, List.forall_mem_nil _⟩

/-- So does the import that is added. -/
theorem helperImport_throughout (o : FileOptions) (hself : own site (helperImport o)) :
    Throughout own site (helperImport o) :=
  .of_entries rfl hself fun entry hentry _ =>
    Due.throughout hs (fun _ _ h => h.elim) (helperImport_due o entry hentry)

omit hs in
/-- A node in a value has become one in what the value has become. -/
theorem ValueWalked.of_nodes {R : Site → Json → Json → Bool → Prop} {marked : Prop} {v v' : Json}
    {child' : Json} (h : ValueWalked R site marked v v') (hchild : child' ∈ v'.nodes) :
    ∃ child ∈ v.nodes, ∃ mark, R site child child' mark := by
  cases h with
  | single hitems item =>
    cases item with
    | leaf hleaf =>
      rw [nodes_of_not_isNode hleaf hitems] at hchild
      cases hchild
    | node hn walked came _ =>
      rw [nodes_of_isNode came.isNode, List.mem_singleton] at hchild
      exact ⟨v, by simp [nodes_of_isNode hn], _, hchild ▸ walked⟩
  | arr items =>
    obtain ⟨hmem, hn⟩ := mem_nodes_arr.1 hchild
    obtain ⟨item, hitem, hrel⟩ := Entries.exists_of_forall₂ items hmem
    cases hrel with
    | leaf hleaf =>
      rw [hleaf] at hn
      cases hn
    | node hn' walked _ _ => exact ⟨item, mem_nodes_arr.2 ⟨hitem, hn'⟩, _, walked⟩

omit hs in
/-- A child of a node whose children have been walked is one that was walked. -/
theorem ChildrenWalked.of_nodes {R : Site → Json → Json → Bool → Prop} {m c child' : Json}
    (h : ChildrenWalked R site m c) (hkey : key ∉ Json.metadataKeys) (hget : c.get? key = some v)
    (hchild : child' ∈ v.nodes) : ∃ w, m.get? key = some w ∧
      ∃ child ∈ w.nodes, ∃ mark, R (site.below m) child child' mark := by
  have hentry {marked : Prop} {w : Json} (hskip : ¬(key = "optional" ∧ marked))
      (h : EntryWalked R (site.below m) marked key w v) :
      ∃ child ∈ w.nodes, ∃ mark, R (site.below m) child child' mark := by
    cases h with
    | skipped h => exact absurd (h.resolve_left hkey) hskip
    | walked _ value => exact value.of_nodes hchild
  by_cases hmarker : key = "optional"
  · subst hmarker
    rcases h.get?_optional with hgiven | hrel
    · rw [hgiven] at hget
      cases hget
      cases hchild
    · rw [hget] at hrel
      generalize m.get? "optional" = a at hrel
      cases hrel with
      | some hrel => exact ⟨_, rfl, hentry (fun h => h.2) hrel⟩
  · have hrel := h.get?_rel hmarker
    rw [hget] at hrel
    generalize m.get? key = a at hrel
    cases hrel with
    | some hrel => exact ⟨_, rfl, hentry (fun h => hmarker h.1) hrel⟩

omit hs in
/-- What becomes of a node where a condition holds throughout what has become
of its children. -/
theorem ChildrenWalked.throughout {m c : Json}
    (h : ChildrenWalked (fun site _ n' _ => Throughout own site n') site m c)
    (hkey : key ∉ Json.metadataKeys) (hget : c.get? key = some v) :
    ThroughoutValue own (site.below m) v := by
  intro child' hchild
  obtain ⟨_, _, _, _, _, hwalked⟩ := h.of_nodes hkey hget hchild
  exact hwalked

include hs in
/-- **A condition that holds of what has become of a node holds throughout it**,
if it holds throughout what has become of the children. -/
theorem Passed.throughout {p : Json → Bool} {o : FileOptions} {n' : Json} {mark : Bool}
    (hhelper : ∀ site, own site (helperImport o)) (hn : n.isNode = true)
    (h : Passed D p o (fun site _ n' _ => Throughout own site n') site n n' mark)
    (hself : own site n') : Throughout own site n' := by
  have hnode := (h.came hn).isNode
  obtain ⟨m, c, henters, hchildren, hleaves⟩ := h.passes
  have hparts {key : String} {v : Json} (hkey : key ∉ Json.metadataKeys)
      (hget : c.get? key = some v) : ThroughoutValue own (site.below n') v := by
    rw [below_of_leaves hchildren hleaves]
    exact hchildren.throughout hkey hget
  rcases hleaves.eq_or_set with rfl | ⟨key, v, hn', hpart⟩
  · exact .intro hnode hself fun key v hkey hget => hparts hkey hget
  -- what was changed on the way up is one part
  have hv : ThroughoutValue own (site.below n') v := by
    cases hpart with
    | importing field =>
      refine throughoutValue_arr_iff.2 (List.forall_mem_cons.2 ⟨fun _ => ?_, ?_⟩)
      · exact helperImport_throughout hs o (hhelper _)
      · exact throughoutValue_arr_iff.1 (hparts (by decide) field)
    | function field reordered =>
      have hparams := throughoutValue_arr_iff.1 (hparts (by decide) field)
      exact throughoutValue_arr_iff.2 (reorderParams_throughout hs hparams _ reordered)
    | pattern field => exact (hparts (by decide) field).erase hs
  refine .intro hnode hself fun key' v' hmeta hget => ?_
  by_cases hkey : key' = key
  · subst hkey
    rw [hn'] at hget
    exact Json.eq_of_get?_set_self hget ▸ hv
  · exact hparts hmeta (by rw [← hget, hn', Json.get?_set_ne hkey])

end

end Migration

end Retype
