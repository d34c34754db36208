import Retype.Proofs.Migration.Reach
/-!
# The casts in a tree

The nodes that are reached from a node, and the casts among them, in the order
of a walk (`Json.reached`, `castsIn`). A rule that leaves a node in its place
leaves the casts below it (`keptAs_unmoved`), as long as casts stand in
expressions only (`castsInPlace`): not in what belongs to a type, and not under
a key that holds a marker. What is laid out without a cast has none
(`castsAt_of_due`).
-/

namespace Retype

namespace Json

/-- The nodes right below a node: those under its keys, or in the lists under
them, apart from metadata. -/
def childNodes (n : Json) : List Json :=
  (Migration.entriesOf n).flatMap fun entry =>
    if metadataKeys.contains entry.1 then [] else entry.2.nodes

/-- A node that stands at a value is no larger than the value. -/
theorem sizeOf_le_of_mem_nodes {v child : Json} (h : child ∈ v.nodes) :
    sizeOf child ≤ sizeOf v := by
  cases v with
  | arr items =>
    have hlt := List.sizeOf_lt_of_mem (List.mem_filter.1 h).1
    simp only [arr.sizeOf_spec]
    omega
  | obj l =>
    rw [nodes] at h
    · split at h
      · rw [List.mem_singleton.1 h]
      · cases h
    · rintro _ ⟨⟩
  | _ => cases h

/-- The children of a node stand at its entries, metadata apart. -/
theorem mem_childNodes {n child : Json} : child ∈ n.childNodes ↔
    ∃ entry ∈ Migration.entriesOf n, entry.1 ∉ metadataKeys ∧ child ∈ entry.2.nodes := by
  rw [childNodes, List.mem_flatMap]
  refine exists_congr fun entry => and_congr_right fun _ => ?_
  by_cases hmeta : entry.1 ∈ metadataKeys <;> simp [hmeta]

/-- A child is smaller than its node. -/
theorem sizeOf_lt_of_mem_childNodes {n child : Json} (h : child ∈ n.childNodes) :
    sizeOf child < sizeOf n := by
  obtain ⟨entry, hentry, -, hchild⟩ := mem_childNodes.1 h
  have hle := sizeOf_le_of_mem_nodes hchild
  cases n with
  | obj l =>
    have hlt := List.sizeOf_lt_of_mem (show entry ∈ l from hentry)
    obtain ⟨key, v⟩ := entry
    simp only [obj.sizeOf_spec, Prod.mk.sizeOf_spec] at hlt hle ⊢
    omega
  | _ => cases hentry

/-- A node and those that are reached from it, each before those below it. -/
def reached (n : Json) : List Json := n :: n.childNodes.attach.flatMap fun child => child.1.reached
termination_by sizeOf n
decreasing_by exact sizeOf_lt_of_mem_childNodes child.2

/-- The walk reaches a node and then what it reaches from its children. -/
theorem reached_eq (n : Json) : n.reached = n :: n.childNodes.flatMap reached := by
  rw [reached, List.flatMap_subtype (fun _ _ => rfl), List.unattach_attach]

/-- What holds everywhere in a node holds of all that is reached from it. -/
theorem of_mem_reached {q : Json → Bool} {n m : Json} (h : n.everywhere q = true)
    (hm : m ∈ n.reached) : q m = true := by
  rw [reached_eq, List.mem_cons, List.mem_flatMap] at hm
  obtain rfl | ⟨child, hchild, hm⟩ := hm
  · exact everywhere_self h
  · have hlt := sizeOf_lt_of_mem_childNodes hchild
    obtain ⟨entry, hentry, -, hnode⟩ := mem_childNodes.1 hchild
    cases n with
    | obj l =>
      exact of_mem_reached
        (Migration.everywhere_of_mem_nodes (everywhere_of_entry h hentry) hnode) hm
    | _ => cases hentry
termination_by sizeOf n

end Json

namespace Migration

variable {n n' v v' : Json} {key : String} {l : Entries}

/-! ## Casts -/

/-- Whether a node is a cast. -/
def isCast (n : Json) : Bool := n.kind == "TypeCastExpression"

/-- The casts that are reached from a node. -/
def castsIn (n : Json) : List Json := n.reached.filter isCast

/-- The casts that are reached from the nodes in a value. -/
def castsAt (v : Json) : List Json := v.nodes.flatMap castsIn

/-- The casts that are reached from the nodes in an entry. -/
def castsUnder (key : String) (v : Json) : List Json :=
  if Json.metadataKeys.contains key then [] else castsAt v

/-- The casts in the entries of a node. -/
def castsAmong (l : Entries) : List Json := l.flatMap fun entry => castsUnder entry.1 entry.2

/-- The casts that are reached from a node, apart from itself. -/
def castsBelow (n : Json) : List Json := castsAmong (entriesOf n)

/-- The casts in a node are the node itself, if it is one, and those below. -/
theorem castsIn_eq (n : Json) : castsIn n = (if isCast n then [n] else []) ++ castsBelow n := by
  have hbelow : n.childNodes.flatMap castsIn = castsBelow n := by
    rw [Json.childNodes, List.flatMap_assoc]
    refine List.flatMap_congr fun entry _ => ?_
    rw [castsUnder]
    split
    · rfl
    · rfl
  rw [castsIn, Json.reached_eq, List.filter_cons, List.filter_flatMap, ← hbelow]
  split <;> rfl

/-- A node that is no cast has the casts below it. -/
theorem castsIn_of_not_cast (h : isCast n = false) : castsIn n = castsBelow n := by
  rw [castsIn_eq, h]
  rfl

/-- A node without casts is none and has none below. -/
theorem castsIn_eq_nil : castsIn n = [] ↔ isCast n = false ∧ castsBelow n = [] := by
  rw [castsIn_eq, List.append_eq_nil_iff]
  cases isCast n <;> simp

/-- The casts at a node are the casts in it. -/
theorem castsAt_of_isNode (h : v.isNode = true) : castsAt v = castsIn v := by
  rw [castsAt, nodes_of_isNode h, List.flatMap_singleton]

/-- A value that holds no node has no casts. -/
theorem castsAt_of_not_isNode (h : v.isNode = false) (hitems : v.items = []) : castsAt v = [] := by
  rw [castsAt, nodes_of_not_isNode h hitems]
  rfl

/-- A value that is as good as none. -/
theorem castsAt_of_not_isTrue (h : v.isTrue = false) : castsAt v = [] := by
  refine castsAt_of_not_isNode ?_ ?_
  · cases hn : v.isNode with
    | false => rfl
    | true =>
      obtain ⟨-, -, htrue⟩ := Json.isTrue_of_isNode hn
      rw [htrue] at h
      cases h
  · cases v with
    | arr items => exact List.isEmpty_iff.1 ((Bool.not_eq_false' _).mp h)
    | _ => rfl

/-- A value has no casts when no node in it has one. -/
theorem castsAt_eq_nil : castsAt v = [] ↔ ∀ child ∈ v.nodes, castsIn child = [] :=
  List.flatMap_eq_nil_iff

/-- An entry has no casts when it is metadata or its value has none. -/
theorem castsUnder_eq_nil : castsUnder key v = [] ↔ key ∉ Json.metadataKeys → castsAt v = [] := by
  by_cases hmeta : key ∈ Json.metadataKeys <;> simp [castsUnder, hmeta]

/-- The casts among entries are those of the first and of the rest. -/
theorem castsAmong_cons (key : String) (v : Json) (l : Entries) :
    castsAmong ((key, v) :: l) = castsUnder key v ++ castsAmong l := rfl

/-- Entries have no casts when no value outside the metadata has one. -/
theorem castsAmong_eq_nil : castsAmong l = [] ↔
    ∀ entry ∈ l, entry.1 ∉ Json.metadataKeys → castsAt entry.2 = [] := by
  simp only [castsAmong, List.flatMap_eq_nil_iff, castsUnder_eq_nil]

/-- A key that gets another value with the same casts. -/
theorem castsAmong_set (hv : castsUnder key v = castsUnder key ((l.get? key).getD .null)) :
    castsAmong (l.set key v) = castsAmong l := by
  induction l with
  | nil =>
    rw [Entries.set, castsAmong_cons, hv, castsUnder_eq_nil.2 fun _ => rfl]
    rfl
  | cons entry rest ih =>
    obtain ⟨k, w⟩ := entry
    by_cases hk : k = key
    · simp only [Entries.get?, hk, if_true, Option.getD_some] at hv
      rw [Entries.set, if_pos hk, castsAmong_cons, castsAmong_cons, hk, hv]
    · simp only [Entries.get?, hk, if_false] at hv
      rw [Entries.set, if_neg hk, castsAmong_cons, castsAmong_cons, ih hv]

/-- Where one entry alone has casts. -/
theorem castsAmong_eq (hkeys : (l.map (·.1)).Nodup) (hget : l.get? key = some v)
    (h : ∀ entry ∈ l, entry.1 ≠ key → castsAt entry.2 = []) : castsAmong l = castsUnder key v := by
  induction l with
  | nil => cases hget
  | cons entry rest ih =>
    obtain ⟨k, w⟩ := entry
    rw [List.map_cons, List.nodup_cons] at hkeys
    rw [List.forall_mem_cons] at h
    by_cases hk : k = key
    · obtain rfl : w = v := by simpa [Entries.get?, hk] using hget
      subst hk
      have hrest : castsAmong rest = [] := castsAmong_eq_nil.2 fun entry hentry _ =>
        h.2 entry hentry fun hsame => hkeys.1 (List.mem_map.2 ⟨entry, hentry, hsame⟩)
      rw [castsAmong_cons, hrest, List.append_nil]
    · have hfirst : castsUnder k w = [] := castsUnder_eq_nil.2 fun _ => h.1 hk
      rw [castsAmong_cons, hfirst, List.nil_append]
      exact ih hkeys.2 (by simpa [Entries.get?, hk] using hget) h.2

/-- Positions and comments that are inherited have no casts. -/
theorem castsBelow_inherit (origin n : Json) :
    castsBelow (Json.inherit origin n) = castsBelow n := by
  refine Json.inherit_induction (P := fun m => castsBelow m = castsBelow n) rfl ?_
  intro m k v hk _ hm
  rw [← hm]
  cases m with
  | obj l =>
    have hmeta : Json.metadataKeys.contains k = true :=
      List.contains_iff_mem.2 (mem_metadataKeys hk)
    exact castsAmong_set (by rw [castsUnder, castsUnder, if_pos hmeta, if_pos hmeta])
  | _ => rfl

/-! ## Values without a cast -/

/-- There is no cast in a value. -/
def castless (v : Json) : Bool := v.everywhere (!isCast ·)

/-- A node in which no cast stands has no casts. -/
theorem castsIn_of_castless (h : castless n = true) : castsIn n = [] :=
  List.filter_eq_nil_iff.2 fun _ hm => by simpa using Json.of_mem_reached h hm

/-- Nor does a value in which none stands. -/
theorem castsAt_of_castless (h : castless v = true) : castsAt v = [] :=
  castsAt_eq_nil.2 fun _ hchild => castsIn_of_castless (everywhere_of_mem_nodes h hchild)

/-- **What is laid out without a cast has none.** -/
theorem castsAt_of_due {D : Prop} {k : Nat} (h : Due D (Everywhere (!isCast ·)) k v) :
    castsAt v = [] := by
  induction h with
  | source _ source => exact castsAt_of_castless source
  | leaf single scalar => exact castsAt_of_not_isNode single scalar
  | arr _ ih =>
    refine castsAt_eq_nil.2 fun child hchild => ?_
    obtain ⟨hmem, hn⟩ := mem_nodes_arr.1 hchild
    rw [← castsAt_of_isNode hn]
    exact ih child hmem
  | @fresh k l kind keys fenced _ ih =>
    have hcast : isCast (.obj l) = false := by
      rw [isCast, beq_eq_false_iff_ne]
      intro hkind
      rw [hkind] at kind
      exact absurd kind (by decide)
    refine castsAt_eq_nil.2 fun child hchild => ?_
    obtain rfl : child = .obj l := by
      rw [Json.nodes] at hchild
      · split at hchild
        · exact List.mem_singleton.1 hchild
        · cases hchild
      · rintro _ ⟨⟩
    exact castsIn_eq_nil.2 ⟨hcast, castsAmong_eq_nil.2 ih⟩

/-- No cast stands below a node that was written from a type. -/
theorem castsBelow_of_dueParts {D : Prop} {k : Nat}
    (h : DueParts D (Everywhere (!isCast ·)) k n) : castsBelow n = [] :=
  castsAmong_eq_nil.2 fun entry hentry hmeta => castsAt_of_due (h entry hentry hmeta)

/-! ## Casts in their place -/

/-- Keys that hold a marker. -/
def markerKeys : List String := ["optional", "variance", "exportKind", "readonly"]

/-- Kinds of nodes that belong to types: they are rewritten whole. -/
def flowTypeKinds : List String :=
  ["TypeAnnotation", "TypeParameterDeclaration", "TypeParameterInstantiation", "ClassImplements",
    "TypeAlias", "OpaqueType", "InterfaceDeclaration"]

/-- Whether a key of a node holds something else than expressions: a marker, a
part of a type, or the type of a cast. -/
def holdsNoExpression (n : Json) (key : String) : Bool :=
  markerKeys.contains key || flowTypeKinds.contains n.kind || isCast n && key != "expression"

/-- Whether casts stand in expressions only, at a node, and no key of it is
there twice, as at every node that Babel parses. -/
def castsInPlace (n : Json) : Bool :=
  ((entriesOf n).map (·.1)).Nodup &&
    (entriesOf n).all fun entry => !holdsNoExpression n entry.1 || castless entry.2

/-- No cast stands under a key that holds no expression. -/
theorem castless_of_castsInPlace (h : castsInPlace n = true) {entry : String × Json}
    (hentry : entry ∈ entriesOf n) (hkey : holdsNoExpression n entry.1 = true) :
    castless entry.2 = true := by
  rw [castsInPlace, Bool.and_eq_true, List.all_eq_true] at h
  simpa [hkey] using h.2 entry hentry

/-- A node with its casts in place has each key once. -/
theorem nodup_of_castsInPlace (h : castsInPlace n = true) : ((entriesOf n).map (·.1)).Nodup := by
  rw [castsInPlace, Bool.and_eq_true, decide_eq_true_iff] at h
  exact h.1

/-! ## Markers -/

/-- The marker of a node holds no cast. -/
def Unmarked (n : Json) : Prop := ∀ v, n.get? "optional" = some v → castsAt v = []

/-- Where there is no cast, no marker holds one. -/
theorem unmarkedBelow_of_castsBelow (h : castsBelow n = []) : AllBelow Unmarked n := by
  have hentries {m v : Json} {key : String} (hm : castsBelow m = []) (hget : m.get? key = some v)
      (hmeta : key ∉ Json.metadataKeys) : castsAt v = [] := by
    obtain ⟨l, rfl⟩ := Json.exists_obj_of_get? hget
    exact castsAmong_eq_nil.1 hm (key, v) (Entries.mem_of_get? hget) hmeta
  intro m hm
  induction hm with
  | refl m => exact fun v hget => hentries h hget (by decide)
  | step walked field mem _ ih =>
    exact ih (castsIn_eq_nil.1 (castsAt_eq_nil.1 (hentries h field walked) _ mem)).2

/-- A value without casts marks nothing. -/
theorem unmarkedInside_of_castsAt (h : castsAt v = []) : AllInside Unmarked v :=
  fun _ hchild => unmarkedBelow_of_castsBelow (castsIn_eq_nil.1 (castsAt_eq_nil.1 h _ hchild)).2

/-- A source whose casts are in place is not marked beforehand. -/
theorem unmarkedInside_of_source (h : v.everywhere castsInPlace = true) : AllInside Unmarked v := by
  intro child hchild m hm w hget
  have hplace := allInside_of_everywhere h child hchild m hm
  obtain ⟨l, rfl⟩ := Json.exists_obj_of_get? hget
  refine castsAt_of_castless (castless_of_castsInPlace hplace (Entries.mem_of_get? hget) ?_)
  rw [holdsNoExpression]
  rfl

/-! ## What stays -/

/-- A value has the same casts as another one, and markers that are as clear. -/
structure Unmoved (v v' : Json) : Prop where
  casts : castsAt v' = castsAt v
  unmarked : AllInside Unmarked v → AllInside Unmarked v'

/-- A node has the same casts below it as another one. -/
structure UnmovedBelow (n n' : Json) : Prop where
  casts : castsBelow n' = castsBelow n
  unmarked : AllBelow Unmarked n → AllBelow Unmarked n'

namespace Unmoved

/-- A value left as it is has not moved. -/
theorem refl (v : Json) : Unmoved v v := ⟨rfl, id⟩

/-- Neither value has a cast. -/
theorem of_nil (h : castsAt v = []) (h' : castsAt v' = []) : Unmoved v v' :=
  ⟨h'.trans h.symm, fun _ => unmarkedInside_of_castsAt h'⟩

/-- Nodes that are not casts. -/
theorem of_below (h : UnmovedBelow n n') (hn : n.isNode = true) (hcast : isCast n = false)
    (htype : n'.get? "type" = n.get? "type") : Unmoved n n' := by
  have hn' : n'.isNode = true := (isNode_congr htype).trans hn
  have hcast' : isCast n' = false := by rwa [isCast, kind_congr htype]
  refine ⟨?_, fun hunmarked => (h.unmarked (hunmarked.node hn)).value hn'⟩
  rw [castsAt_of_isNode hn, castsAt_of_isNode hn', castsIn_of_not_cast hcast,
    castsIn_of_not_cast hcast', h.casts]

/-- The items of a list, each by itself. -/
theorem map {items : List Json} {f : Json → Json}
    (h : ∀ item ∈ items, (f item).isNode = item.isNode ∧ Unmoved item (f item)) :
    Unmoved (.arr items) (.arr (items.map f)) := by
  refine ⟨?_, fun hunmarked => allInside_arr_iff.2 (List.forall_mem_map.2 fun item hitem hn => ?_)⟩
  · induction items with
    | nil => rfl
    | cons item rest ih =>
      rw [List.forall_mem_cons] at h
      have hrest := ih h.2
      have hcasts := h.1.2.casts
      simp only [castsAt, Json.nodes, List.map_cons, List.filter_cons, h.1.1] at hrest hcasts ⊢
      split
      next hn =>
        have hitem := h.1.2.casts
        rw [castsAt_of_isNode hn, castsAt_of_isNode (h.1.1.trans hn)] at hitem
        rw [List.flatMap_cons, List.flatMap_cons, hitem, hrest]
      next => exact hrest
  · obtain ⟨hnode, hmoved⟩ := h item hitem
    have hitem := allInside_arr_iff.1 hunmarked item hitem (hnode ▸ hn)
    exact (hmoved.unmarked (hitem.value (hnode ▸ hn))).node hn

end Unmoved

namespace UnmovedBelow

/-- Nothing below a node left as it is has moved. -/
theorem refl (n : Json) : UnmovedBelow n n := ⟨rfl, id⟩

/-- What has not moved twice has not moved. -/
theorem trans {n'' : Json} (h : UnmovedBelow n n') (h' : UnmovedBelow n' n'') :
    UnmovedBelow n n'' :=
  ⟨h'.casts.trans h.casts, h'.unmarked ∘ h.unmarked⟩

/-- A key that gets another value. -/
theorem set (hkey : key ≠ "optional") (hmeta : key ∉ Json.metadataKeys)
    (hv : Unmoved ((n.get? key).getD .null) v) : UnmovedBelow n (n.set key v) := by
  constructor
  · cases n with
    | obj l =>
      refine castsAmong_set ?_
      rw [castsUnder, castsUnder]
      exact if_congr Iff.rfl rfl hv.casts
    | _ => rfl
  · intro hunmarked
    refine hunmarked.set (fun w hget => ?_) (hv.unmarked ?_)
    · exact hunmarked.self w ((Json.get?_set_ne hkey.symm v).symm.trans hget)
    · cases hget : n.get? key with
      | none => exact .of_not_isNode rfl rfl
      | some w => exact hunmarked.get? hmeta hget

/-- A list of which each item is kept by itself. -/
theorem set_map {items : List Json} {f : Json → Json} (hget : n.get? key = some (.arr items))
    (hkey : key ≠ "optional") (hmeta : key ∉ Json.metadataKeys)
    (hf : ∀ item, (f item).isNode = item.isNode ∧ Unmoved item (f item)) :
    UnmovedBelow n (n.set key (.arr (items.map f))) := by
  refine .set hkey hmeta ?_
  rw [hget]
  exact .map fun item _ => hf item

/-- A key that loses its value. -/
theorem erase (h : ∀ entry ∈ entriesOf n, entry.1 = key → castsAt entry.2 = [])
    (hkey : key ≠ "optional") : UnmovedBelow n (n.erase key) := by
  constructor
  · cases n with
    | obj l =>
      have hl : ∀ entry ∈ l, entry.1 = key → castsAt entry.2 = [] := h
      clear h
      show castsAmong (Entries.erase l key) = castsAmong l
      induction l with
      | nil => rfl
      | cons entry rest ih =>
        obtain ⟨k, w⟩ := entry
        rw [List.forall_mem_cons] at hl
        rw [Entries.erase_cons, castsAmong_cons]
        split
        next hk => rw [ih hl.2, castsUnder_eq_nil.2 fun _ => hl.1 hk, List.nil_append]
        next => rw [castsAmong_cons, ih hl.2]
    | _ => rfl
  · intro hunmarked
    refine hunmarked.erase fun w hget => ?_
    exact hunmarked.self w ((Json.get?_erase_ne hkey.symm).symm.trans hget)

end UnmovedBelow

/-! ## Nodes that keep their place -/

section
variable {o : FileOptions} {site : Site} {rule : EnterRule}

/-- No cast stands under a key of the optional marker. -/
theorem castsAt_marker (h : castsInPlace n = true) (hkey : key ∈ markerKeys)
    {entry : String × Json} (hentry : entry ∈ entriesOf n) (hsame : entry.1 = key) :
    castsAt entry.2 = [] := by
  refine castsAt_of_castless (castless_of_castsInPlace h hentry ?_)
  rw [holdsNoExpression, hsame, List.contains_iff_mem.2 hkey]
  rfl

/-- What a marker holds has no cast. -/
theorem castsAt_getD_marker (h : castsInPlace n = true) (hkey : key ∈ markerKeys) :
    castsAt ((n.get? key).getD .null) = [] := by
  cases hget : n.get? key with
  | none => rfl
  | some w =>
    obtain ⟨l, rfl⟩ := Json.exists_obj_of_get? hget
    exact castsAt_marker h hkey (Entries.mem_of_get? hget) rfl

/-- A node of another kind is no cast. -/
theorem isCast_of_hasText {kind : String} (h : n.hasText "type" kind = true)
    (hkind : kind ≠ "TypeCastExpression") : isCast n = false := by
  rw [isCast, beq_eq_false_iff_ne, kind_of_kind (get?_of_hasText h)]
  exact hkind

/-- A name that gets an annotation. -/
theorem annotated_unmoved {type : Json} (h : isUnannotated n = true) (htype : castsAt type = []) :
    (n.set "typeAnnotation" type).isNode = n.isNode ∧
      Unmoved n (n.set "typeAnnotation" type) := by
  rw [isUnannotated, Bool.and_eq_true, Bool.not_eq_true', Json.holds] at h
  obtain ⟨hname, hfree⟩ := h
  have hkept : (n.set "typeAnnotation" type).get? "type" = n.get? "type" :=
    Json.get?_set_ne (by decide) type
  refine ⟨isNode_congr hkept, .of_below (.set (by decide) (by decide) (.of_nil ?_ htype))
    (isNode_of_hasText hname) (isCast_of_hasText hname (by decide)) hkept⟩
  cases hget : n.get? "typeAnnotation" with
  | none => rfl
  | some w =>
    rw [hget] at hfree
    exact castsAt_of_not_isTrue hfree

/-- A specifier made plain moves no cast. -/
theorem plainSpecifier_unmoved (s : Json) :
    (plainSpecifier s).isNode = s.isNode ∧ Unmoved s (plainSpecifier s) := by
  rw [plainSpecifier]
  split
  next h =>
    rw [Bool.and_eq_true] at h
    have hkept : (s.set "importKind" .null).get? "type" = s.get? "type" :=
      Json.get?_set_ne (by decide) _
    refine ⟨isNode_congr hkept, .of_below (.set (by decide) (by decide) (.of_nil ?_ rfl))
      (isNode_of_hasText h.1) (isCast_of_hasText h.1 (by decide)) hkept⟩
    rw [get?_of_hasText h.2]
    rfl
  next => exact ⟨rfl, .refl s⟩

/-- Nor does an import made plain. -/
theorem importedAs_unmoved (n : Json) : UnmovedBelow n (importedAs n) := by
  rw [importedAs]
  split
  next hkind =>
    refine .set (by decide) (by decide) (.of_nil ?_ rfl)
    rw [get?_of_hasText hkind]
    rfl
  split
  · exact .refl n
  split
  next hget => exact .set_map hget (by decide) (by decide) plainSpecifier_unmoved
  next => exact .refl n

/-- Nor does a declaration that is given its type. -/
theorem declaredAs_unmoved (n : Json) : UnmovedBelow n (declaredAs o site n) := by
  rw [declaredAs]
  split
  · split
    next id hget =>
      split
      next hun =>
        split
        next type htype =>
          refine .set (by decide) (by decide) ?_
          rw [hget]
          exact (annotated_unmoved hun
            (castsAt_of_due (D := True) (variableAnnotation?_due htype))).2
        next => exact .refl n
      next => exact .refl n
    next => exact .refl n
  · exact .refl n

/-- Nor do parameters that are given `any`. -/
theorem annotateWithAny_unmoved (n : Json) : UnmovedBelow n (annotateWithAny n) := by
  have hany : castsAt anyAnnotation = [] := castsAt_of_due (D := True) anyAnnotation_due
  rw [annotateWithAny]
  split
  next hget =>
    refine .set_map hget (by decide) (by decide) fun param => ?_
    split
    next hun => exact annotated_unmoved hun hany
    next => exact ⟨rfl, .refl param⟩
  next => exact .refl n

/-- Nor does a class property that is rewritten. -/
theorem propertyAs_unmoved (h : castsInPlace n = true) : UnmovedBelow n (propertyAs n) := by
  have hvariance : UnmovedBelow n (n.set "variance" .null) :=
    .set (by decide) (by decide) (.of_nil (castsAt_getD_marker h (by decide)) rfl)
  rw [propertyAs]
  split
  · exact .refl n
  split
  · refine hvariance.trans (.set (by decide) (by decide) (.of_nil ?_ rfl))
    rw [Json.get?_set_ne (by decide)]
    exact castsAt_getD_marker h (by decide)
  · exact hvariance

/-- **A node that keeps its place keeps the casts below it.** -/
theorem keptAs_unmoved (h : castsInPlace n = true) : UnmovedBelow n (keptAs o site n rule) := by
  cases rule with
  | importDeclaration => exact importedAs_unmoved n
  | exportNamed =>
    exact .erase (fun entry hentry => castsAt_marker h (by decide) hentry) (by decide)
  | declarator => exact declaredAs_unmoved n
  | functionDeclaration =>
    rw [keptAs]
    split
    · exact annotateWithAny_unmoved n
    · exact .refl n
  | classProperty => exact propertyAs_unmoved h
  | _ => exact .refl n

end

end Migration

end Retype
