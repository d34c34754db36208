import Mathlib.Data.List.Nodup
import Mathlib.Data.List.Perm.Basic
import Retype.Proofs.Migration.Casts
/-!
# The nodes of a tree, listed

The children of a node stand in its slots: under a key, or at an index of the
list under a key. The slots from the root down to a node, the last one first,
are its address. `preorder` lists a tree with each node before its children and
`postorder` with each node behind them.

In a tree of syntax every node is regular: it has no key twice, and its `type`
tells its kind and is no place for other nodes. No address of such a tree is
listed twice (`nodup_address_postorder`).
-/

namespace Retype.Syntax

open Json (metadataKeys)
open Migration (entriesOf)

/-- Where a child stands in its parent: under a key, and at an index if in a list. -/
structure Slot where
  key : String
  index? : Option Nat
  deriving DecidableEq, Repr

/-- The slots from a root down to a node, the last one first. -/
abbrev Address := List Slot

/-! ## Children -/

/-- The nodes in a list under a key, the first item of which has an index. -/
def childrenIn (key : String) : Nat → List Json → List (Slot × Json)
  | _, [] => []
  | index, item :: rest =>
    (if item.isNode then [(⟨key, some index⟩, item)] else []) ++ childrenIn key (index + 1) rest

/-- The nodes that are the value of a key, or are in it. -/
def childrenUnder (key : String) : Json → List (Slot × Json)
  | .arr items => childrenIn key 0 items
  | value => if value.isNode then [(⟨key, none⟩, value)] else []

/-- The nodes under the keys of some entries. -/
def childrenAmong : Entries → List (Slot × Json)
  | [] => []
  | (key, value) :: rest =>
    (if metadataKeys.contains key then [] else childrenUnder key value) ++ childrenAmong rest

/-- The children of a node in the order of its keys, each in its slot. -/
def children (n : Json) : List (Slot × Json) := childrenAmong (entriesOf n)

variable {n : Json} {key : String} {value : Json} {index : Nat} {items : List Json}
  {entries : Entries} {c : Slot × Json}

/-- A node under a key is the key's only child. -/
theorem childrenUnder_of_isNode (h : value.isNode = true) :
    childrenUnder key value = [(⟨key, none⟩, value)] := by
  cases value with
  | arr items => cases h
  | _ => rw [childrenUnder, if_pos h]; rintro _ ⟨⟩

/-- The children in a list are its nodes, in order. -/
theorem map_snd_childrenIn (key : String) (index : Nat) (items : List Json) :
    (childrenIn key index items).map Prod.snd = items.filter Json.isNode := by
  induction items generalizing index with
  | nil => rfl
  | cons item rest ih =>
    rw [childrenIn, List.map_append, ih, List.filter_cons]
    split <;> rfl

/-- The children under a key are the nodes at its value. -/
theorem map_snd_childrenUnder (key : String) (value : Json) :
    (childrenUnder key value).map Prod.snd = value.nodes := by
  cases value with
  | arr items => exact map_snd_childrenIn key 0 items
  | obj l =>
    change List.map _ (if _ then _ else _) = if _ then _ else _
    split <;> rfl
  | _ => rfl

/-- A key has no children when no node is at its value. -/
theorem childrenUnder_eq_nil_iff : childrenUnder key value = [] ↔ value.nodes = [] := by
  rw [← map_snd_childrenUnder key, List.map_eq_nil_iff]

/-- The children of a node are its child nodes. -/
theorem map_snd_children (n : Json) : (children n).map Prod.snd = n.childNodes := by
  rw [children, Json.childNodes]
  induction entriesOf n with
  | nil => rfl
  | cons entry rest ih =>
    rw [childrenAmong, List.map_append, ih, List.flatMap_cons]
    split
    · rfl
    · rw [map_snd_childrenUnder]

/-- A child is smaller than its node. -/
theorem sizeOf_child_lt (h : c ∈ children n) : sizeOf c.2 < sizeOf n := by
  refine Json.sizeOf_lt_of_mem_childNodes ?_
  rw [← map_snd_children]
  exact List.mem_map_of_mem h

/-- A child is a node. -/
theorem isNode_of_mem_children (h : c ∈ children n) : c.2.isNode = true := by
  have hmem : c.2 ∈ n.childNodes := map_snd_children n ▸ List.mem_map_of_mem h
  obtain ⟨⟨key, value⟩, -, -, hnode⟩ := Json.mem_childNodes.1 hmem
  cases hvalue : value.isNode with
  | true =>
    rw [Migration.nodes_of_isNode hvalue, List.mem_singleton] at hnode
    rwa [hnode]
  | false =>
    cases value with
    | arr items => exact (Migration.mem_nodes_arr.1 hnode).2
    | _ =>
      rw [Migration.nodes_of_not_isNode hvalue rfl] at hnode
      cases hnode

/-- What holds of a node if it holds of its children holds of every node. -/
@[elab_as_elim]
theorem children_induction {motive : Json → Prop}
    (node : ∀ n, (∀ c ∈ children n, motive c.2) → motive n) (n : Json) : motive n :=
  node n fun c hc =>
    have : sizeOf c.2 < sizeOf n := sizeOf_child_lt hc
    children_induction node c.2
termination_by sizeOf n

/-! ## Slots -/

/-- The children in a list are numbered from its start. -/
theorem slot_of_mem_childrenIn (h : c ∈ childrenIn key index items) :
    ∃ i, c.1 = ⟨key, some i⟩ ∧ index ≤ i := by
  induction items generalizing index with
  | nil => cases h
  | cons item rest ih =>
    rcases List.mem_append.1 h with h | h
    · split at h
      · obtain rfl := List.mem_singleton.1 h
        exact ⟨index, rfl, le_rfl⟩
      · cases h
    · obtain ⟨i, hslot, hle⟩ := ih h
      exact ⟨i, hslot, by omega⟩

/-- A child stands under its key. -/
theorem key_of_mem_childrenUnder (h : c ∈ childrenUnder key value) : c.1.key = key := by
  unfold childrenUnder at h
  split at h
  · obtain ⟨i, hslot, -⟩ := slot_of_mem_childrenIn h
    rw [hslot]
  · split at h
    · obtain rfl := List.mem_singleton.1 h
      rfl
    · cases h

/-- A child among entries stands under one of their keys. -/
theorem key_of_mem_childrenAmong (h : c ∈ childrenAmong entries) :
    c.1.key ∈ entries.map (·.1) := by
  induction entries with
  | nil => cases h
  | cons entry rest ih =>
    rcases List.mem_append.1 h with h | h
    · split at h
      · cases h
      · rw [key_of_mem_childrenUnder h]
        exact List.mem_cons_self
    · exact List.mem_cons_of_mem _ (ih h)

/-- The children in a list have distinct slots. -/
theorem nodup_slot_childrenIn (key : String) (index : Nat) (items : List Json) :
    ((childrenIn key index items).map Prod.fst).Nodup := by
  induction items generalizing index with
  | nil => exact List.nodup_nil
  | cons item rest ih =>
    rw [childrenIn]
    split
    next =>
      refine List.nodup_cons.2 ⟨fun hmem => ?_, ih _⟩
      obtain ⟨c, hc, hslot⟩ := List.mem_map.1 hmem
      obtain ⟨i, hi, hle⟩ := slot_of_mem_childrenIn hc
      rw [hslot] at hi
      cases hi
      omega
    next => exact ih _

/-- So have those under a key. -/
theorem nodup_slot_childrenUnder (key : String) (value : Json) :
    ((childrenUnder key value).map Prod.fst).Nodup := by
  unfold childrenUnder
  split
  · exact nodup_slot_childrenIn key 0 _
  · split
    · exact List.nodup_singleton _
    · exact List.nodup_nil

/-- So have those among entries with distinct keys. -/
theorem nodup_slot_childrenAmong (h : (entries.map (·.1)).Nodup) :
    ((childrenAmong entries).map Prod.fst).Nodup := by
  induction entries with
  | nil => exact List.nodup_nil
  | cons entry rest ih =>
    obtain ⟨key, value⟩ := entry
    rw [List.map_cons, List.nodup_cons] at h
    rw [childrenAmong]
    split
    next => exact ih h.2
    next =>
      rw [List.map_append]
      refine (nodup_slot_childrenUnder key value).append (ih h.2) fun slot hslot hslot' => h.1 ?_
      obtain ⟨c, hc, rfl⟩ := List.mem_map.1 hslot
      obtain ⟨c', hc', hsame⟩ := List.mem_map.1 hslot'
      rw [← key_of_mem_childrenUnder hc, ← hsame]
      exact key_of_mem_childrenAmong hc'

/-- Metadata are no children. -/
theorem childrenAmong_set (hkey : key ∈ metadataKeys) (value : Json) :
    childrenAmong (entries.set key value) = childrenAmong entries := by
  have hmeta : metadataKeys.contains key = true := List.contains_iff_mem.2 hkey
  induction entries with
  | nil => simp only [Entries.set, childrenAmong, hmeta, if_true, List.append_nil]
  | cons entry rest ih =>
    obtain ⟨k, v⟩ := entry
    by_cases hk : k = key
    · subst hk
      simp only [Entries.set, childrenAmong, hmeta, if_true]
    · simp only [Entries.set, childrenAmong, hk, if_false, ih]

/-- Positions inherited are no children. -/
theorem children_inherit (origin n : Json) : children (Json.inherit origin n) = children n := by
  refine Json.inherit_induction (P := fun m => children m = children n) rfl ?_
  intro m k v hk _ hm
  rw [← hm]
  cases m with
  | obj l => exact childrenAmong_set (Migration.mem_metadataKeys hk) v
  | _ => rfl

/-! ## Trees -/

/-- A condition holds of a node and of all nodes below. -/
inductive AllNodes (P : Json → Prop) : Json → Prop
  | node {n : Json} (self : P n) (below : ∀ c ∈ children n, AllNodes P c.2) : AllNodes P n

variable {P : Json → Prop}

/-- What holds of all nodes holds of the root. -/
theorem AllNodes.self (h : AllNodes P n) : P n := by
  cases h with | node self _ => exact self

/-- It holds of all nodes of a child. -/
theorem AllNodes.child (h : AllNodes P n) (hc : c ∈ children n) : AllNodes P c.2 := by
  cases h with | node _ below => exact below c hc

/-- No key is there twice, and the `type`, which tells the kind, holds no node. -/
structure Regular (n : Json) : Prop where
  keys : ((entriesOf n).map (·.1)).Nodup
  kind : ∀ c ∈ children n, c.1.key ≠ "type"

/-- A regular node stays so with inherited positions. -/
theorem Regular.inherit (h : Regular n) (origin : Json) : Regular (Json.inherit origin n) where
  keys := by
    refine Json.inherit_induction (P := fun m => ((entriesOf m).map (·.1)).Nodup) h.keys ?_
    intro m k v _ _ hm
    cases m with
    | obj l => exact Entries.nodup_set hm v
    | _ => exact hm
  kind := by
    rw [children_inherit]
    exact h.kind

/-! ## Listings -/

/-- What is told of a node: its kind, the kind of its parent, and its address,
which begins with its key and its index. -/
structure Sighting where
  kind : String
  parentKind? : Option String
  address : Address
  deriving DecidableEq, Repr

/-- A way to put what is told of a node and of those below it in a row. -/
abbrev Arrangement := Sighting → List Sighting → List Sighting

/-- The nodes of a tree at an address, below a parent of a kind. -/
def listing (put : Arrangement) (address : Address) (parentKind? : Option String) (n : Json) :
    List Sighting :=
  put ⟨n.kind, parentKind?, address⟩
    ((children n).attach.flatMap fun c => listing put (c.1.1 :: address) (some n.kind) c.1.2)
termination_by sizeOf n
decreasing_by exact sizeOf_child_lt c.2

/-- The nodes of some trees below a node at an address, of a kind. -/
def listingBelow (put : Arrangement) (address : Address) (kind : String)
    (cs : List (Slot × Json)) : List Sighting :=
  cs.flatMap fun c => listing put (c.1 :: address) (some kind) c.2

/-- Each node before its children. -/
def preorder : Address → Option String → Json → List Sighting := listing List.cons

/-- Each node behind its children. -/
def postorder : Address → Option String → Json → List Sighting :=
  listing fun own below => below ++ [own]

variable {put : Arrangement} {address : Address} {parentKind? : Option String} {kind : String}

/-- A node is listed with the listing of its children. -/
theorem listing_eq (put : Arrangement) (address : Address) (parentKind? : Option String)
    (n : Json) :
    listing put address parentKind? n =
      put ⟨n.kind, parentKind?, address⟩ (listingBelow put address n.kind (children n)) := by
  rw [listing, List.flatMap_subtype (g := fun c => listing put (c.1 :: address) (some n.kind) c.2)
    fun _ _ => rfl, List.unattach_attach, listingBelow]

/-- The listing of children goes child after child. -/
theorem listingBelow_append (put : Arrangement) (address : Address) (kind : String)
    (cs cs' : List (Slot × Json)) :
    listingBelow put address kind (cs ++ cs') =
      listingBelow put address kind cs ++ listingBelow put address kind cs' :=
  List.flatMap_append

/-- That of one child is the child's own. -/
theorem listingBelow_singleton (put : Arrangement) (address : Address) (kind : String)
    (c : Slot × Json) :
    listingBelow put address kind [c] = listing put (c.1 :: address) (some kind) c.2 :=
  List.flatMap_singleton _ _

section
variable (hput : ∀ own below, (put own below).Perm (own :: below))
include hput

/-- A listing tells of nodes at its address and below. -/
theorem suffix_of_mem_listing {s : Sighting} (h : s ∈ listing put address parentKind? n) :
    address <:+ s.address := by
  induction n using children_induction generalizing address parentKind? with
  | node n ih =>
    rw [listing_eq, (hput _ _).mem_iff, List.mem_cons] at h
    rcases h with rfl | h
    · exact List.suffix_rfl
    · obtain ⟨c, hc, hs⟩ := List.mem_flatMap.1 h
      exact (List.suffix_cons _ _).trans (ih c hc hs)

/-- **Each node once.** No address is listed twice. -/
theorem nodup_address_listing (h : AllNodes Regular n) (address : Address)
    (parentKind? : Option String) :
    ((listing put address parentKind? n).map Sighting.address).Nodup := by
  induction h generalizing address parentKind? with
  | @node n self below ih =>
    rw [listing_eq, ((hput _ _).map _).nodup_iff, List.map_cons, List.nodup_cons, listingBelow,
      List.map_flatMap, List.nodup_flatMap]
    refine ⟨fun hown => ?_, fun c hc => ih c hc _ _, ?_⟩
    · obtain ⟨c, hc, hs⟩ := List.mem_flatMap.1 hown
      obtain ⟨s, hs, hsame⟩ := List.mem_map.1 hs
      have hlength := (suffix_of_mem_listing hput hs).length_le
      rw [hsame] at hlength
      exact absurd hlength (Nat.not_succ_le_self _)
    · have hslots : (children n).Pairwise fun c c' => c.1 ≠ c'.1 :=
        List.pairwise_map.1 (nodup_slot_childrenAmong self.keys)
      refine hslots.imp fun hne a ha ha' => hne ?_
      obtain ⟨s, hs, rfl⟩ := List.mem_map.1 ha
      obtain ⟨s', hs', hsame⟩ := List.mem_map.1 ha'
      -- Both slots stand in front of the one address.
      have hslot := suffix_of_mem_listing hput hs
      have hslot' := suffix_of_mem_listing hput hs'
      rw [hsame] at hslot'
      have heq := (List.suffix_of_suffix_length_le hslot hslot' (by simp)).eq_of_length (by simp)
      exact (List.cons.inj heq).1

end

/-- **No address is listed twice.** -/
theorem nodup_address_postorder (h : AllNodes Regular n) (address : Address)
    (parentKind? : Option String) :
    ((postorder address parentKind? n).map Sighting.address).Nodup :=
  nodup_address_listing (fun own below => List.perm_append_singleton own below) h _ _

end Retype.Syntax
