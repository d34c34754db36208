import Retype.Proofs.Json.Entries
import Retype.Proofs.Migration.Erasure
/-!
# What erasure does not see

Erasure sees a node through three windows: its kind, what is left of its
parts, and, of a call, whether it takes type arguments. `erase_obj_congr` says
that nothing else matters. `Retyped` is the relation between a value and one
that differs in its types alone; it is kept by whatever is set or erased in
the type level of a node (`Retyped.set_typeLevel`, `Retyped.erase_typeLevel`),
and by the parts of a node (`Retyped.set_part`).
-/

namespace Retype.Migration

open Json (SameSort)

/-! ## Kinds -/

section
variable {n : Json} {kind : String}

/-- Whether a node is of a kind is read from its type. -/
theorem hasText_of_kind (h : n.get? "type" = some (.str kind)) (name : String) :
    n.hasText "type" name = (kind == name) := by
  simp only [Json.hasText, h]

/-- So is whether it is one of several. -/
theorem kindIn_of_kind (h : n.get? "type" = some (.str kind)) (names : List String) :
    n.kindIn names = names.contains kind := by
  simp only [Json.kindIn, hasText_of_kind h, List.contains_eq_any_beq]

/-- Its kind is its type. -/
theorem kind_of_kind (h : n.get? "type" = some (.str kind)) : n.kind = kind := by
  simp only [Json.kind, Json.textAt, h, Json.text]

/-- A field that is a text has that text. -/
theorem get?_of_hasText {key text : String} (h : n.hasText key text = true) :
    n.get? key = some (.str text) := by
  rw [Json.hasText] at h
  split at h
  next s hget => rw [hget, eq_of_beq h]
  next => cases h

/-- A value with such a field is an object. -/
theorem isObject_of_hasText {key text : String} (h : n.hasText key text = true) :
    n.isObject = true := by
  obtain ⟨l, rfl⟩ := Json.exists_obj_of_get? (get?_of_hasText h)
  rfl

/-- A written node has the kind it was written with. -/
theorem get?_type_node (kind : String) (fields : Entries) :
    (TypeScript.node kind fields).get? "type" = some (.str kind) := by
  simp [TypeScript.node, Json.get?, Entries.get?]

end

/-! ## A node seen from outside -/

/-- The keys that erasure looks at to tell a node from another one. -/
def outsideKeys : List String := ["type", "arguments", "typeParameters", "typeArguments"]

/-- Two nodes of which erasure sees the same kind and the same type
arguments. -/
structure SameOutside (n n' : Json) : Prop where
  kind (name : String) : n'.hasText "type" name = n.hasText "type" name
  typedCall : isTypedCall n' = isTypedCall n

namespace SameOutside

variable {n n' : Json}

/-- Nodes that are the same outside are of the same kinds. -/
theorem kindIn (h : SameOutside n n') (names : List String) :
    n'.kindIn names = n.kindIn names := by
  simp only [Json.kindIn, h.kind]

/-- The same keys hold their types. -/
theorem isTypeLevel (h : SameOutside n n') (key : String) :
    isTypeLevel n' key = Migration.isTypeLevel n key := by
  simp only [Migration.isTypeLevel, h.kind]

/-- A key that a call is not recognised by makes no difference. -/
theorem of_get? (h : ∀ key ∈ outsideKeys, n'.get? key = n.get? key) : SameOutside n n' where
  kind name := Json.hasText_congr (h "type" (by decide)) name
  typedCall := by
    have hkind := Json.hasText_congr (h "type" (by decide)) "CallExpression"
    have harguments : n'.itemsAt "arguments" = n.itemsAt "arguments" := by
      simp only [Json.itemsAt, h "arguments" (by decide)]
    simp only [isTypedCall, hkind, harguments, List.any_cons, List.any_nil,
      h "typeParameters" (by decide), h "typeArguments" (by decide)]

end SameOutside

/-- Texts are found again in entries of the same sorts. -/
theorem hasText_of_rel {l l' : Entries} (h : l.Rel (fun _ => SameSort) l') (key text : String) :
    (Json.obj l').hasText key text = (Json.obj l).hasText key text := by
  have hrel := h.get? key
  simp only [Json.hasText, Json.get?]
  generalize l.get? key = a, l'.get? key = b at hrel
  cases hrel with
  | none => rfl
  | some hv => cases hv <;> rfl

/-- Entries of the same sorts make nodes that look the same. -/
theorem SameOutside.of_rel {l l' : Entries} (h : l.Rel (fun _ => SameSort) l') :
    SameOutside (.obj l) (.obj l') where
  kind := hasText_of_rel h "type"
  typedCall := by
    have count : ((Json.obj l').itemsAt "arguments").length =
        ((Json.obj l).itemsAt "arguments").length := by
      have hrel := h.get? "arguments"
      simp only [Json.itemsAt, Json.get?]
      generalize l.get? "arguments" = a, l'.get? "arguments" = b at hrel
      cases hrel with
      | none => rfl
      | some hv => exact hv.length_items
    have objects (key : String) : ((Json.obj l').get? key).any Json.isObject =
        ((Json.obj l).get? key).any Json.isObject := by
      have hrel := h.get? key
      simp only [Json.get?]
      generalize l.get? key = a, l'.get? key = b at hrel
      cases hrel with
      | none => rfl
      | some hv => exact hv.isObject_eq
    simp only [isTypedCall, hasText_of_rel h, count, List.any_cons, objects]

namespace Erasure

variable {e : Erasure} {n n' : Json}

/-! ## What is left of the parts -/

/-- Erasing a list is erasing its items, and leaving out those of which nothing is left. -/
theorem eraseItems_eq (items : List Json) : e.eraseItems items = items.filterMap e.erase := by
  induction items with
  | nil => rfl
  | cons item rest ih =>
    rw [eraseItems, ih]
    cases h : e.erase item <;> simp [h]

/-- Lists whose items leave the same. -/
theorem erase_arr_congr {items items' : List Json}
    (h : List.Forall₂ (fun v v' => e.erase v' = e.erase v) items items') :
    e.erase (.arr items') = e.erase (.arr items) := by
  have hitems : items'.filterMap e.erase = items.filterMap e.erase := by
    induction h with
    | nil => rfl
    | cons hv _ ih => simp only [List.filterMap_cons, hv, ih]
  simp only [erase, eraseItems_eq, hitems]

/-- What is left of a node's parts is put together alike. -/
theorem ofParts_congr (h : SameOutside n n') (fields : List (String × Option Json)) :
    e.ofParts n' fields = e.ofParts n fields := by
  simp only [ofParts, h.kindIn, h.kind, h.typedCall]

/-- Entries are erased alike. -/
theorem eraseEntries_owner (h : SameOutside n n') (l : Entries) :
    e.eraseEntries n' l = e.eraseEntries n l := by
  have htrim (key : String) : e.trim n' key = e.trim n key := by
    funext part
    simp only [trim, h.kind]
  induction l with
  | nil => rfl
  | cons entry rest ih =>
    obtain ⟨key, v⟩ := entry
    simp only [eraseEntries, h.isTypeLevel, htrim, ih]

/-- The part of a node under a key leaves the same as another one. -/
def LeavesSame (e : Erasure) (owner : Json) (key : String) (v v' : Json) : Prop :=
  isTypeLevel owner key = false →
    (e.erase v').map (e.trim owner key) = (e.erase v).map (e.trim owner key)

/-- Entries of which the same is left are erased to the same. -/
theorem eraseEntries_congr {l l' : Entries} (h : l.Rel (e.LeavesSame n) l') :
    e.eraseEntries n l' = e.eraseEntries n l := by
  induction h with
  | nil => rfl
  | @cons a b as bs hab _ ih =>
    obtain ⟨key, v⟩ := a
    obtain ⟨key', v'⟩ := b
    obtain ⟨rfl, hv⟩ := hab
    cases hlevel : isTypeLevel n key with
    | true => simp [eraseEntries, hlevel, ih]
    | false => simp [eraseEntries, hlevel, ih, hv hlevel]

/-- **What erasure sees of a node.** Nodes with the same keys, whose values
are of the same sorts and leave the same, erase to the same. -/
theorem erase_obj_congr {l l' : Entries}
    (h : l.Rel (fun key v v' => SameSort v v' ∧ e.LeavesSame (.obj l) key v v') l') :
    e.erase (.obj l') = e.erase (.obj l) := by
  have outside : SameOutside (.obj l) (.obj l') :=
    .of_rel (h.mono fun _ _ _ hv => hv.1)
  rw [erase, erase, ofParts_congr outside, eraseEntries_owner outside,
    eraseEntries_congr (h.mono fun _ _ _ hv => hv.2)]

/-- A type set is not left. -/
theorem eraseEntries_set_typeLevel {key : String} (hkey : isTypeLevel n key = true) (l : Entries)
    (v : Json) : e.eraseEntries n (l.set key v) = e.eraseEntries n l := by
  induction l with
  | nil => simp [Entries.set, eraseEntries, hkey]
  | cons entry rest ih =>
    obtain ⟨k, w⟩ := entry
    by_cases hk : k = key
    · subst hk
      simp [Entries.set, eraseEntries, hkey]
    · simp [Entries.set, eraseEntries, hk, ih]

/-- A type erased leaves the same. -/
theorem eraseEntries_erase_typeLevel {key : String} (hkey : isTypeLevel n key = true)
    (l : Entries) : e.eraseEntries n (l.erase key) = e.eraseEntries n l := by
  induction l with
  | nil => rfl
  | cons entry rest ih =>
    obtain ⟨k, w⟩ := entry
    by_cases hk : k = key
    · subst hk
      simp [Entries.erase_cons, eraseEntries, hkey, ih]
    · simp [Entries.erase_cons, eraseEntries, hk, ih]

/-! ## Types in their places -/

/-- A node is what has a type field. -/
theorem isNode_eq (n : Json) : n.isNode = (n.get? "type").isSome := by
  cases n with
  | obj l => exact Entries.contains_eq_isSome l "type"
  | _ => rfl

/-- Items are well placed one by one. -/
theorem itemsWellPlaced_iff (items : List Json) :
    e.itemsWellPlaced items = true ↔ ∀ item ∈ items, e.wellPlaced item = true := by
  induction items with
  | nil => simp [itemsWellPlaced]
  | cons item rest ih => simp [itemsWellPlaced, ih]

/-- Entries are well placed one by one, types apart. -/
theorem entriesWellPlaced_iff (l : Entries) :
    e.entriesWellPlaced n l = true ↔
      ∀ entry ∈ l, isTypeLevel n entry.1 = true ∨ e.wellPlaced entry.2 = true := by
  induction l with
  | nil => simp [entriesWellPlaced]
  | cons entry rest ih => simp [entriesWellPlaced, ih]

/-- A node is well placed if it is none of a type and, unless it is a
declaration that is erased whole, its parts are. -/
theorem wellPlaced_obj_iff (l : Entries) (hnode : (Json.obj l).isNode = true) :
    e.wellPlaced (.obj l) = true ↔ e.isRuntimeNode (.obj l) = true ∧
      ((Json.obj l).kindIn typeOnlyKinds = false →
        ∀ entry ∈ l, isTypeLevel (.obj l) entry.1 = true ∨ e.wellPlaced entry.2 = true) := by
  rw [← entriesWellPlaced_iff]
  cases hkind : (Json.obj l).kindIn typeOnlyKinds <;> simp [wellPlaced, hnode, hkind]

end Erasure

/-! ## Changes in the type level -/

/-- What is left of a value stays, and so does the absence of a marker. -/
structure Kept (e : Erasure) (v v' : Json) : Prop where
  erases : e.erase v' = e.erase v
  free : Erasure.markerFree v = true → Erasure.markerFree v' = true

namespace Kept

variable {e : Erasure} {v v' v'' n : Json} {key : String}

/-- A value left as it is is kept. -/
@[refl] theorem refl (v : Json) : Kept e v v := ⟨rfl, id⟩

/-- What is kept twice is kept. -/
theorem trans (h : Kept e v v') (h' : Kept e v' v'') : Kept e v v'' :=
  ⟨h'.erases.trans h.erases, h'.free ∘ h.free⟩

/-- A part of a node may change if what is left of it, as the node leaves it,
stays; of a declaration of types any part may. -/
theorem set_part (hget : n.get? key = some v) (hout : key ∉ outsideKeys) (hkey : key ≠ "optional")
    (herase : n.kindIn typeOnlyKinds = false → e.LeavesSame n key v v') :
    Kept e n (n.set key v') := by
  obtain ⟨l, rfl⟩ := Json.exists_obj_of_get? hget
  have hget' (key' : String) (h : key' ≠ key) :
      ((Json.obj l).set key v').get? key' = (Json.obj l).get? key' :=
    Json.get?_set_ne h v'
  have outside : SameOutside (.obj l) (.obj (Entries.set l key v')) :=
    .of_get? fun key' hkey' => hget' key' fun h => hout (h ▸ hkey')
  constructor
  · cases honly : (Json.obj l).kindIn typeOnlyKinds with
    | true => simp [Json.set, Erasure.erase, Erasure.ofParts, outside.kindIn, honly]
    | false =>
      -- the fields that are left are the same, and so is what makes a node of them
      have hparts : e.eraseEntries (.obj l) (Entries.set l key v') = e.eraseEntries (.obj l) l :=
        Erasure.eraseEntries_congr (.set hget (herase honly) fun _ _ _ => rfl)
      simp only [Json.set, Erasure.erase, Erasure.ofParts_congr outside,
        Erasure.eraseEntries_owner outside, hparts]
  · intro h
    simpa only [Erasure.markerFree, Json.hasText, hget' "optional" hkey.symm,
      hget' "type" fun h => hout (h ▸ by decide)] using h

end Kept

/-- A value and one that differs in its types alone. -/
structure Retyped (e : Erasure) (v v' : Json) : Prop extends Kept e v v' where
  kind : v'.get? "type" = v.get? "type"
  wellPlaced : e.wellPlaced v = true → e.wellPlaced v' = true

namespace Retyped

variable {e : Erasure} {v v' v'' : Json} {key : String}

/-- A value differs from itself in its types alone. -/
@[refl] theorem refl (v : Json) : Retyped e v v := ⟨.refl v, rfl, id⟩

/-- Two changes of the types alone make one. -/
theorem trans (h : Retyped e v v') (h' : Retyped e v' v'') : Retyped e v v'' where
  toKept := h.toKept.trans h'.toKept
  kind := h'.kind.trans h.kind
  wellPlaced := h'.wellPlaced ∘ h.wellPlaced

/-- Items that differ in their types alone make such lists. -/
theorem arr {items items' : List Json} (h : List.Forall₂ (Retyped e) items items') :
    Retyped e (.arr items) (.arr items') where
  kind := rfl
  erases := Erasure.erase_arr_congr (h.imp fun _ _ hv => hv.erases)
  wellPlaced := by
    simp only [Erasure.wellPlaced, Erasure.itemsWellPlaced_iff]
    induction h with
    | nil => exact id
    | cons hv _ ih =>
      intro hall item hitem
      rcases List.mem_cons.1 hitem with rfl | hitem
      · exact hv.wellPlaced (hall _ List.mem_cons_self)
      · exact ih (fun i hi => hall i (List.mem_cons_of_mem _ hi)) item hitem
  free := id

/-- Items that each change in their types. -/
theorem map {f : Json → Json} (h : ∀ item, Retyped e item (f item)) (items : List Json) :
    Retyped e (.arr items) (.arr (items.map f)) := by
  refine arr ?_
  rw [List.forall₂_map_right_iff]
  exact List.forall₂_same.2 fun item _ => h item

/-- A node stays what it is if its kind stays, and a pattern without a marker
gets none. -/
theorem isRuntimeNode_congr {n n' : Json} (hkind : n'.get? "type" = n.get? "type")
    (hleft : (n.get? "left").all Erasure.markerFree = true →
      (n'.get? "left").all Erasure.markerFree = true)
    (h : e.isRuntimeNode n = true) : e.isRuntimeNode n' = true := by
  have hkinds := Json.hasText_congr hkind "AssignmentPattern"
  simp only [Erasure.isRuntimeNode, Erasure.defaultUnmarked, hkind, hkinds, Bool.and_eq_true,
    Bool.or_eq_true] at h ⊢
  exact ⟨h.1, h.2.imp_right hleft⟩

/-- A node stays well placed if its kind stays and its parts do. -/
theorem wellPlaced_obj_mono {l l' : Entries}
    (hkind : (Json.obj l').get? "type" = (Json.obj l).get? "type")
    (hleft : ((Json.obj l).get? "left").all Erasure.markerFree = true →
      ((Json.obj l').get? "left").all Erasure.markerFree = true)
    (hparts : (∀ entry ∈ l, isTypeLevel (.obj l) entry.1 = true ∨ e.wellPlaced entry.2 = true) →
      ∀ entry ∈ l', isTypeLevel (.obj l) entry.1 = true ∨ e.wellPlaced entry.2 = true)
    (h : e.wellPlaced (.obj l) = true) : e.wellPlaced (.obj l') = true := by
  have hkinds (name : String) :
      (Json.obj l').hasText "type" name = (Json.obj l).hasText "type" name :=
    Json.hasText_congr hkind name
  have hnode : (Json.obj l').isNode = (Json.obj l).isNode := by
    simp only [Erasure.isNode_eq, hkind]
  cases hn : (Json.obj l).isNode with
  | false =>
    -- nothing is asked of an object that is no node
    simp [Erasure.wellPlaced, hnode, hn]
  | true =>
    rw [Erasure.wellPlaced_obj_iff l hn] at h
    rw [Erasure.wellPlaced_obj_iff l' (hnode.trans hn)]
    refine ⟨isRuntimeNode_congr hkind hleft h.1, fun honly => ?_⟩
    have hlevel (key : String) : isTypeLevel (.obj l') key = isTypeLevel (.obj l) key := by
      simp only [isTypeLevel, hkinds]
    simp only [hlevel]
    exact hparts (h.2 (by simpa only [Json.kindIn, hkinds] using honly))

/-- The type level of a node has no room for its kind, nor for a pattern. -/
theorem ne_of_isTypeLevel {n : Json} (h : isTypeLevel n key = true) :
    key ≠ "type" ∧ key ≠ "left" := by
  constructor
  · rintro rfl
    simp [isTypeLevel, Json.metadataKeys, typeKeys] at h
  · rintro rfl
    simp [isTypeLevel, Json.metadataKeys, typeKeys] at h

/-- A change of one entry in the type level of a node, unless the entry holds
type arguments. -/
theorem of_typeLevel {l l' : Entries} (hkey : isTypeLevel (.obj l) key = true)
    (hout : key ∉ outsideKeys)
    (hget : ∀ key' ≠ key, (Json.obj l').get? key' = (Json.obj l).get? key')
    (hfields : e.eraseEntries (.obj l) l' = e.eraseEntries (.obj l) l)
    (hmem : ∀ entry ∈ l', entry ∈ l ∨ entry.1 = key) : Retyped e (.obj l) (.obj l') := by
  obtain ⟨htype, hleft⟩ := ne_of_isTypeLevel hkey
  have hkind := hget "type" htype.symm
  have outside : SameOutside (.obj l) (.obj l') :=
    .of_get? fun key' hkey' => hget key' fun h => hout (h ▸ hkey')
  refine ⟨⟨?_, fun hfree => ?_⟩, hkind,
    wellPlaced_obj_mono hkind (fun h => ?_) fun h entry hentry => ?_⟩
  · rw [Erasure.erase, Erasure.erase, Erasure.ofParts_congr outside,
      Erasure.eraseEntries_owner outside, hfields]
  · -- the marker itself may change, but only the one of a name
    simp only [Erasure.markerFree, outside.kind, Bool.or_eq_true] at hfree ⊢
    by_cases hopt : key = "optional"
    · subst hopt
      exact .inl (by simpa [isTypeLevel, Json.metadataKeys, typeKeys] using hkey)
    · rwa [hget "optional" (Ne.symm hopt)]
  · rwa [hget "left" hleft.symm]
  · rcases hmem entry hentry with hentry | hentry
    · exact h entry hentry
    · exact .inl (hentry ▸ hkey)

/-- Whatever is set in the type level of a node, except for type arguments,
erasure does not see. -/
theorem set_typeLevel (n : Json) (hkey : isTypeLevel n key = true) (hout : key ∉ outsideKeys)
    (v : Json) : Retyped e n (n.set key v) := by
  cases n with
  | obj l =>
    refine of_typeLevel hkey hout (fun key' h => Json.get?_set_ne (j := .obj l) h v)
      (Erasure.eraseEntries_set_typeLevel hkey l v) fun entry hentry => ?_
    exact (Entries.mem_set hentry).imp_right fun h => congrArg Prod.fst h
  | _ => exact refl _

/-- Whatever is erased from the type level of a node, except for type
arguments, erasure does not miss. -/
theorem erase_typeLevel (n : Json) (hkey : isTypeLevel n key = true) (hout : key ∉ outsideKeys) :
    Retyped e n (n.erase key) := by
  cases n with
  | obj l =>
    exact of_typeLevel hkey hout (fun key' h => Json.get?_erase_ne (j := .obj l) h)
      (Erasure.eraseEntries_erase_typeLevel hkey l)
      fun entry hentry => .inl (List.mem_filter.1 hentry).1
  | _ => exact refl _

/-- A part of a node may change in its types. -/
theorem set_part {n : Json} (hget : n.get? key = some v) (hout : key ∉ outsideKeys)
    (hkey : key ≠ "optional") (h : Retyped e v v') : Retyped e n (n.set key v') := by
  have htype : "type" ≠ key := fun htype => hout (htype ▸ by decide)
  refine ⟨.set_part hget hout hkey fun _ _ => by rw [h.erases], Json.get?_set_ne htype v', ?_⟩
  obtain ⟨l, rfl⟩ := Json.exists_obj_of_get? hget
  have hkind : ((Json.obj l).set key v').get? "type" = (Json.obj l).get? "type" :=
    Json.get?_set_ne htype v'
  refine wellPlaced_obj_mono hkind (fun hleft => ?_) fun hparts entry hentry => ?_
  · by_cases hkey' : key = "left"
    · subst hkey'
      rw [hget] at hleft
      simpa [Json.get?, Entries.get?_set_self] using h.free (by simpa using hleft)
    · have hsame : ((Json.obj l).set key v').get? "left" = (Json.obj l).get? "left" :=
        Json.get?_set_ne (Ne.symm hkey') v'
      exact (congrArg (Option.all _) hsame).trans hleft
  · rcases Entries.mem_set hentry with hentry | rfl
    · exact hparts entry hentry
    · exact (hparts (key, v) (Entries.mem_of_get? hget)).imp_right h.wellPlaced

/-- What is done to a node for one key after the other, if every step is a retyping. -/
theorem foldl {f : Json → String → Json} {keys : List String}
    (hf : ∀ key ∈ keys, ∀ n, Retyped e n (f n key)) (n : Json) : Retyped e n (keys.foldl f n) := by
  induction keys generalizing n with
  | nil => exact refl n
  | cons key keys ih =>
    exact .trans (hf key List.mem_cons_self n)
      (ih (fun k hk => hf k (List.mem_cons_of_mem _ hk)) _)

/-- The positions that a node inherits, erasure does not see. -/
theorem inherit (origin target : Json) : Retyped e target (Json.inherit origin target) := by
  refine foldl (fun key hkey n => ?_) target
  have hlevel : isTypeLevel n key = true := by
    simp only [Json.inheritedKeys, List.mem_cons, List.not_mem_nil, or_false] at hkey
    rcases hkey with rfl | rfl | rfl | rfl | rfl | rfl | rfl | rfl <;> rfl
  have hout : key ∉ outsideKeys := by
    simp only [Json.inheritedKeys, List.mem_cons, List.not_mem_nil, or_false] at hkey
    rcases hkey with rfl | rfl | rfl | rfl | rfl | rfl | rfl | rfl <;> decide
  split
  · exact set_typeLevel n hlevel hout _
  · exact refl n

end Retyped

end Retype.Migration
