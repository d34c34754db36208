import Retype.Proofs.Migration.Annotating
import Retype.Proofs.Migration.Throughout
/-!
# What is reached from a node

One node is reached from another over keys and the lists under them
(`Reaches`). What holds `AllBelow` a node holds of every node that is reached
from it. The second stage keeps such a condition if the condition does not
depend on the parameters of a node, nor on their annotations
(`annotates_stays`).
-/

namespace Retype.Migration

/-- One node is reached from another: over its keys and the lists under them,
apart from metadata. -/
inductive Reaches : Json → Json → Prop
  | refl (n : Json) : Reaches n n
  | step {n v child m : Json} {key : String} (walked : key ∉ Json.metadataKeys)
      (field : n.get? key = some v) (mem : child ∈ v.nodes) (reaches : Reaches child m) :
      Reaches n m

/-- A condition holds of every node that is reached from one. -/
def AllBelow (P : Json → Prop) (n : Json) : Prop := ∀ m, Reaches n m → P m

/-- A condition holds of every node that is reached from a value. -/
def AllInside (P : Json → Prop) (v : Json) : Prop := ∀ child ∈ v.nodes, AllBelow P child

variable {P : Json → Prop} {n v : Json} {key : String}

namespace AllBelow

/-- What holds of a node and inside its fields holds below it. -/
theorem intro (self : P n)
    (parts : ∀ key v, key ∉ Json.metadataKeys → n.get? key = some v → AllInside P v) :
    AllBelow P n := by
  intro m hm
  cases hm with
  | refl => exact self
  | step walked field mem reaches => exact parts _ _ walked field _ mem m reaches

/-- The same, entry by entry. -/
theorem of_entries (self : P n)
    (h : ∀ entry ∈ entriesOf n, entry.1 ∉ Json.metadataKeys → AllInside P entry.2) :
    AllBelow P n := by
  refine .intro self fun key v hkey hget => ?_
  obtain ⟨l, rfl⟩ := Json.exists_obj_of_get? hget
  exact h (key, v) (Entries.mem_of_get? hget) hkey

/-- What holds below a node holds of the node. -/
theorem self (h : AllBelow P n) : P n := h n (.refl n)

/-- It holds inside its fields. -/
theorem get? (h : AllBelow P n) (hkey : key ∉ Json.metadataKeys) (hget : n.get? key = some v) :
    AllInside P v :=
  fun _ hchild m hm => h m (.step hkey hget hchild hm)

/-- What holds below a node holds inside it as a value. -/
theorem value (h : AllBelow P n) (hn : n.isNode = true) : AllInside P n := by
  intro child hchild
  rw [nodes_of_isNode hn, List.mem_singleton] at hchild
  exact hchild ▸ h

/-- A node that gets another part. -/
theorem set (h : AllBelow P n) (hself : P (n.set key v)) (hv : AllInside P v) :
    AllBelow P (n.set key v) := by
  refine .intro hself fun key' v' hmeta hfield => ?_
  by_cases hsame : key' = key
  · subst hsame
    exact Json.eq_of_get?_set_self hfield ▸ hv
  · exact h.get? hmeta ((Json.get?_set_ne hsame v).symm.trans hfield)

/-- A node that loses a part. -/
theorem erase (h : AllBelow P n) (hself : P (n.erase key)) : AllBelow P (n.erase key) := by
  refine .intro hself fun key' v' hmeta hfield => ?_
  by_cases hsame : key' = key
  · subst hsame
    rw [Json.get?_erase_self] at hfield
    cases hfield
  · exact h.get? hmeta ((Json.get?_erase_ne hsame).symm.trans hfield)

end AllBelow

namespace AllInside

/-- And the other way round. -/
theorem node (h : AllInside P v) (hn : v.isNode = true) : AllBelow P v :=
  h v (by rw [nodes_of_isNode hn]; exact List.mem_singleton_self v)

/-- Everything holds inside a value that holds no node. -/
theorem of_not_isNode (h : v.isNode = false) (hitems : v.items = []) : AllInside P v := by
  rw [AllInside, nodes_of_not_isNode h hitems]
  exact List.forall_mem_nil _

/-- An object without a kind reaches nothing. -/
theorem of_object (hobject : v.isObject = true) (h : v.isNode = true → AllBelow P v) :
    AllInside P v := by
  obtain ⟨l, rfl⟩ := exists_obj_of_isObject hobject
  cases hn : (Json.obj l).isNode with
  | true => exact (h hn).value hn
  | false => exact .of_not_isNode hn rfl

end AllInside

/-- What holds inside a list holds below each item that is a node. -/
theorem allInside_arr_iff {items : List Json} :
    AllInside P (.arr items) ↔ ∀ item ∈ items, item.isNode = true → AllBelow P item := by
  simp only [AllInside, mem_nodes_arr, and_imp]

/-- What holds throughout a node at a site holds below it. -/
theorem Throughout.allBelow {site : Site} (h : Throughout (fun _ n => P n) site n) :
    AllBelow P n := by
  induction h with
  | intro _ self _ ih =>
    exact .intro self fun key v hkey hget child hchild => ih key v hkey hget child hchild

/-- What holds everywhere in a value holds everywhere in its nodes. -/
theorem everywhere_of_mem_nodes {q : Json → Bool} (h : v.everywhere q = true) {child : Json}
    (hchild : child ∈ v.nodes) : child.everywhere q = true := by
  cases v with
  | arr items => exact Json.everywhere_of_mem h (mem_nodes_arr.1 hchild).1
  | obj l =>
    rw [Json.nodes] at hchild
    · split at hchild
      · rwa [List.mem_singleton.1 hchild]
      · cases hchild
    · rintro _ ⟨⟩
  | _ => cases hchild

/-- What holds everywhere in a value holds of all that is reached from it. -/
theorem allInside_of_everywhere {q : Json → Bool} (h : v.everywhere q = true) :
    AllInside (fun n => q n = true) v := by
  have hreached {n m : Json} (hm : Reaches n m) : n.everywhere q = true → q m = true := by
    induction hm with
    | refl n => exact Json.everywhere_self
    | step _ field mem _ ih =>
      exact fun hn => ih (everywhere_of_mem_nodes (Json.everywhere_of_get? hn field) mem)
  exact fun child hchild m hm => hreached hm (everywhere_of_mem_nodes h hchild)

/-! ## The second stage -/

/-- A value that is an object with the same kind, or no object either. -/
def SameKind (v v' : Json) : Prop := ∀ kind, v'.hasText "type" kind = v.hasText "type" kind

/-- What the second stage keeps of a value: how it looks, what its items are,
and a condition on all that is reached. -/
structure Stays (P : Json → Prop) (v v' : Json) : Prop where
  sort : Json.SameSort v v'
  isNode : v'.isNode = v.isNode
  kind : SameKind v v'
  items : List.Forall₂ SameKind v.items v'.items
  free : AllInside P v → AllInside P v'

/-- A condition that does not see what the second stage changes. -/
structure Unseen (P : Json → Prop) : Prop where
  rel {l l' : Entries} (h : P (.obj l)) (hrel : l.Rel (fun _ => Stays P) l') : P (.obj l')
  set {n v : Json} {key : String} (h : P n) (hkey : key ∈ ["params", "typeAnnotation"]) :
    P (n.set key v)

/-- A condition holds of all that is reached from an annotation. -/
def AllGiven (P : Json → Prop) (a : Option Json) : Prop :=
  ∀ annotation, a = some annotation → AllInside P annotation

/-- Annotations change the parameters only. -/
theorem get?_annotateParams (annotations : List (Option Json)) (n : Json)
    (h : key ≠ "params") : (annotateParams annotations n).get? key = n.get? key := by
  rw [annotateParams]
  split
  · exact Json.get?_set_ne h _
  · rfl

/-- Related entries make nodes together. -/
theorem isNode_of_rel {R : String → Json → Json → Prop} {l l' : Entries} (h : l.Rel R l') :
    (Json.obj l').isNode = (Json.obj l).isNode := by
  rw [Erasure.isNode_eq, Erasure.isNode_eq]
  have hentry := h.get? "type"
  simp only [Json.get?]
  generalize Entries.get? l "type" = a, Entries.get? l' "type" = b at hentry
  cases hentry <;> rfl

theorem setAnnotations_allBelow (hP : Unseen P) {annotations : List (Option Json)}
    {params : List Json} (hannotations : ∀ a ∈ annotations, AllGiven P a)
    (h : ∀ param ∈ params, param.isNode = true → AllBelow P param) :
    ∀ param ∈ setAnnotations annotations params, param.isNode = true → AllBelow P param := by
  induction params generalizing annotations with
  | nil => cases annotations <;> exact nofun
  | cons param rest ih =>
    rw [List.forall_mem_cons] at h
    cases annotations with
    | nil => exact List.forall_mem_cons.2 h
    | cons a annotations =>
      rw [List.forall_mem_cons] at hannotations
      simp only [setAnnotations]
      split
      next hun =>
        refine List.forall_mem_cons.2 ⟨?_, ih hannotations.2 h.2⟩
        cases a with
        | none => exact h.1
        | some annotation =>
          intro hn
          rw [isNode_congr (Json.get?_set_ne (by decide) annotation)] at hn
          have hparam := h.1 hn
          exact hparam.set (hP.set hparam.self (by decide)) (hannotations.1 annotation rfl)
      next =>
        exact List.forall_mem_cons.2 ⟨h.1, ih (List.forall_mem_cons.2 hannotations) h.2⟩

/-- **The second stage keeps a condition that does not see its changes.** -/
theorem annotates_stays (hP : Unseen P) : Annotates (AllGiven P) (Stays P) where
  refl v := by
    refine ⟨.refl v, rfl, fun _ => rfl, ?_, id⟩
    exact List.forall₂_same.2 fun _ _ _ => rfl
  arr {items items'} h := by
    refine ⟨.arr h.length_eq, rfl, fun _ => rfl, h.imp fun _ _ hstays => hstays.kind,
      fun hbelow => allInside_arr_iff.2 fun item' hitem' hn => ?_⟩
    obtain ⟨item, hitem, hstays⟩ := Entries.exists_of_forall₂ h hitem'
    have hitemBelow := allInside_arr_iff.1 hbelow item hitem (hstays.isNode ▸ hn)
    exact (hstays.free (hitemBelow.value (hstays.isNode ▸ hn))).node hn
  obj {l l'} hrel {annotations} given := by
    have hsort : Json.SameSort (.obj l) (annotateParams annotations (.obj l')) := by
      rw [annotateParams]
      split <;> exact .obj _ _
    have htype : (annotateParams annotations (.obj l')).get? "type" = (Json.obj l').get? "type" :=
      get?_annotateParams annotations (.obj l') (by decide)
    have hnode : (annotateParams annotations (.obj l')).isNode = (Json.obj l).isNode :=
      (isNode_congr htype).trans (isNode_of_rel hrel)
    have hkind : SameKind (.obj l) (annotateParams annotations (.obj l')) := fun kind =>
      (Json.hasText_congr htype kind).trans (hasText_of_rel (hrel.mono fun _ _ _ h => h.sort) _ _)
    have hitems : (annotateParams annotations (.obj l')).items = [] := by
      obtain ⟨l'', hl''⟩ := exists_obj_of_isObject (hsort.isObject_eq.trans rfl)
      rw [hl'']
      rfl
    refine ⟨hsort, hnode, hkind, hitems ▸ .nil, fun hbelow => .of_object ?_ fun hn => ?_⟩
    · rw [hsort.isObject_eq]
      rfl
    have hsource := hbelow.node (hnode ▸ hn)
    have hentries : AllBelow P (.obj l') := by
      refine .intro (hP.rel hsource.self hrel) fun key v hkey hget => ?_
      have hentry := hrel.get? key
      rw [show Entries.get? l' key = some v from hget] at hentry
      generalize hw : Entries.get? l key = w at hentry
      cases hentry with
      | some hstays => exact hstays.free (hsource.get? hkey hw)
    rw [annotateParams]
    split
    next params hparams =>
      refine hentries.set (hP.set hentries.self (by decide))
        (allInside_arr_iff.2 (setAnnotations_allBelow hP given ?_))
      exact allInside_arr_iff.1 (hentries.get? (by decide) hparams)
    next => exact hentries

end Retype.Migration
