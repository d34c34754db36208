import Retype.Proofs.Flow.Extent
/-!
# The order of members

The members of an object type are stored in four lists and read in the order of
the source. They stand sorted by line and column, and those at one place stand
as they were stored (`inSourceOrder_placed`). Nothing is lost or invented on the
way: the nodes that are read are the objects in the four lists
(`decodeType_members`).
-/

namespace Retype.Flow

variable {α β : Type}

/-! ## Places in the source -/

/-- A line and a column come before others, or are the same. -/
def spotLe (a b : Int × Int) : Bool := a.1 < b.1 || (a.1 == b.1 && a.2 ≤ b.2)

theorem spotLe_refl (a : Int × Int) : spotLe a a = true := by simp [spotLe]

theorem spotLe_trans {a b c : Int × Int} (hab : spotLe a b = true) (hbc : spotLe b c = true) :
    spotLe a c = true := by
  simp only [spotLe, Bool.or_eq_true, decide_eq_true_eq, Bool.and_eq_true, beq_iff_eq] at hab hbc ⊢
  omega

theorem spotLe_total (a b : Int × Int) : (spotLe a b || spotLe b a) = true := by
  simp only [spotLe, Bool.or_eq_true, decide_eq_true_eq, Bool.and_eq_true, beq_iff_eq]
  omega

/-- One thing with its place comes before another one. -/
def placedLe (p q : (Int × Int) × α) : Bool := spotLe p.1 q.1

theorem placedLe_trans (p q r : (Int × Int) × α) (hpq : placedLe p q = true)
    (hqr : placedLe q r = true) : placedLe p r = true := spotLe_trans hpq hqr

theorem placedLe_total (p q : (Int × Int) × α) : (placedLe p q || placedLe q p) = true :=
  spotLe_total p.1 q.1

/-- The sort keeps the order of what stands at one place. -/
theorem filter_mergeSort (placed : List ((Int × Int) × α)) (spot : Int × Int) :
    (placed.mergeSort placedLe).filter (·.1 = spot) = placed.filter (·.1 = spot) := by
  have hequal : (placed.filter (·.1 = spot)).Pairwise fun p q => placedLe p q = true := by
    refine List.pairwise_of_forall_mem_list fun p hp q hq => ?_
    simp only [List.mem_filter, decide_eq_true_eq] at hp hq
    rw [placedLe, hp.2, hq.2]
    exact spotLe_refl spot
  have hkept : (placed.filter (·.1 = spot)).Sublist (placed.mergeSort placedLe) :=
    List.sublist_mergeSort placedLe_trans placedLe_total hequal List.filter_sublist
  have hsub := hkept.filter (·.1 = spot)
  rw [List.filter_filter] at hsub
  simp only [Bool.and_self] at hsub
  exact (hsub.eq_of_length ((List.mergeSort_perm ..).symm.filter _).length_eq).symm

/-! ## Things in their places -/

/-- Whether something stands at a place. -/
def standsAt (place : α → Result (Int × Int)) (spot : Int × Int) (m : α) : Bool :=
  (place m).toOption = some spot

/-- One thing comes before another one, or stands at the same place. -/
def Precedes (place : α → Result (Int × Int)) (m m' : α) : Prop :=
  ∃ spot spot', place m = .ok spot ∧ place m' = .ok spot' ∧ spotLe spot spot' = true

/-- Some things in the order of their places; those at one place stand as in
the given list. -/
structure Placed (place : α → Result (Int × Int)) (given sorted : List α) : Prop where
  perm : sorted.Perm given
  ordered : sorted.Pairwise (Precedes place)
  stable : ∀ spot, sorted.filter (standsAt place spot) = given.filter (standsAt place spot)

theorem Placed.map {f : β → α} {place : α → Result (Int × Int)} {given sorted : List β}
    (h : Placed (fun m => place (f m)) given sorted) :
    Placed place (given.map f) (sorted.map f) where
  perm := h.perm.map f
  ordered := List.pairwise_map.2 h.ordered
  stable spot := by
    rw [List.filter_map, List.filter_map]
    exact congrArg (List.map f) (h.stable spot)

theorem inSourceOrder_placed (place : α → Result (Int × Int)) (members : List α) :
    Result.Yields (inSourceOrder place members) (Placed place members) := by
  have hread : Result.Yields (members.mapM fun m => do return (← place m, m)) fun placed =>
      placed.map (·.2) = members ∧ ∀ p ∈ placed, place p.2 = .ok p.1 := by
    refine (Result.Yields.mapM_related (R := fun m p => p.2 = m ∧ place m = .ok p.1)
      fun m _ => .bind fun spot hspot => .pure ⟨rfl, hspot⟩).mono fun placed h => ?_
    induction h with
    | nil => exact ⟨rfl, List.forall_mem_nil _⟩
    | cons hp _ ih =>
      obtain ⟨rfl, hspot⟩ := hp
      exact ⟨congrArg (_ :: ·) ih.1, List.forall_mem_cons.2 ⟨hspot, ih.2⟩⟩
  refine .bind (hread.mono fun placed hplaced => .pure ?_)
  obtain ⟨rfl, hspots⟩ := hplaced
  change Placed place (placed.map (·.2)) ((placed.mergeSort placedLe).map (·.2))
  have hsorted : ∀ p ∈ placed.mergeSort placedLe, place p.2 = .ok p.1 :=
    fun p hp => hspots p (List.mem_mergeSort.1 hp)
  -- a thing stands where it was read to stand
  have hstands (spot : Int × Int) {ps : List ((Int × Int) × α)}
      (h : ∀ p ∈ ps, place p.2 = .ok p.1) :
      (ps.map (·.2)).filter (standsAt place spot) = (ps.filter (·.1 = spot)).map (·.2) := by
    rw [List.filter_map]
    refine congrArg (List.map _) (List.filter_congr fun p hp => ?_)
    simp [standsAt, h p hp, Except.toOption]
  refine ⟨(List.mergeSort_perm ..).map _, ?_, fun spot => ?_⟩
  · have hpairs := List.pairwise_mergeSort placedLe_trans placedLe_total placed
    refine List.pairwise_map.2 (hpairs.imp_of_mem fun hp hq hle => ?_)
    exact ⟨_, _, hsorted _ hp, hsorted _ hq, hle⟩
  · rw [hstands spot hspots, hstands spot hsorted, filter_mergeSort]

/-! ## The nodes of members -/

/-- The keys under which the members of an object type are stored. -/
def memberLists : List String := ["properties", "indexers", "callProperties", "internalSlots"]

/-- The nodes of the members of an object type, as they are stored. -/
def memberNodes (n : Json) : List Json :=
  memberLists.flatMap fun key => (n.itemsAt key).filter Json.isObject

variable (path : String)

/-- The children under a key are the objects in the list there. -/
theorem children_eq (n : Json) (key : String) :
    Result.Yields (children path n key) fun parts =>
      parts.map (·.1) = (n.itemsAt key).filter Json.isObject := by
  rw [children]
  split
  next hbelow =>
    refine .ok ?_
    rw [Json.itemsAt, get?_of_below?_none hbelow]
    rfl
  next hbelow =>
    refine .ok ?_
    rw [Json.itemsAt, get?_of_below? hbelow]
    rfl
  next items hsize hbelow =>
    refine .ok ?_
    rw [Json.itemsAt, get?_of_below? hbelow, List.map_filterMap]
    change _ = items.filter Json.isObject
    conv_rhs => rw [← List.attach_map_subtype_val items, List.filter_map,
      ← List.filterMap_eq_filter, List.map_filterMap]
    refine List.filterMap_congr fun item _ => ?_
    cases hobject : item.1.isObject <;> simp [hobject, Option.guard]
  next => exact .error _

theorem decodeMember_node (n : Json) :
    Result.Yields (decodeMember path n) fun m => m.node = n := by
  rw [decodeMember]
  refine .ite (fun _ => ?_) fun _ => .ite (fun _ => ?_) fun _ => .ite (fun _ => ?_) fun _ =>
    .ite (fun _ => ?_) fun _ => .ite (fun _ => ?_) fun _ => .error _
  · exact .bind (.trivial _ fun _ => .bind (.trivial _ fun _ => .bind (.trivial _ fun _ =>
      .bind (.trivial _ fun _ => .pure rfl))))
  · exact .bind (.trivial _ fun _ => .bind (.trivial _ fun _ => .pure rfl))
  · exact .bind (.trivial _ fun _ => .bind (.trivial _ fun _ => .bind (.trivial _ fun _ =>
      .bind (.trivial _ fun _ =>
        .bind (.trivial _ fun _ => .bind (.trivial _ fun _ => .pure rfl))))))
  · exact .bind (.trivial _ fun _ => .bind (.trivial _ fun _ => .pure rfl))
  · exact .bind (.trivial _ fun _ => .pure rfl)

/-- The members of an object type are read from the nodes that are stored, in
the order of the source. -/
structure MembersRead (n : Json) (members : List (FlowMember FlowType)) : Prop where
  read : ∀ m ∈ members, decodeMember path m.node = .ok m
  placed : Placed sourceOrder (memberNodes n) (members.map FlowMember.node)

theorem decodeType_members {n : Json} (hkind : FlowKind.ofName? n.kind = some .object) :
    Result.Yields (decodeType path n) fun t =>
      ∃ members exact, t = .object n members exact ∧ MembersRead path n members := by
  rw [decodeType, hkind]
  refine .bind ((children_eq path n _).mono fun properties hproperties => ?_)
  refine .bind ((children_eq path n _).mono fun indexers hindexers => ?_)
  refine .bind ((children_eq path n _).mono fun calls hcalls => ?_)
  refine .bind ((children_eq path n _).mono fun slots hslots => ?_)
  refine .bind ((inSourceOrder_placed _ _).mono fun sorted hsorted => ?_)
  have hread : Result.Yields (sorted.mapM fun part => decodeMember path part.1) fun members =>
      (∀ m ∈ members, decodeMember path m.node = .ok m) ∧
        members.map FlowMember.node = sorted.map (·.1) := by
    refine (Result.Yields.mapM_related (R := fun part m => decodeMember path part.1 = .ok m ∧
      m.node = part.1) fun part _ m hm => ⟨hm, decodeMember_node path part.1 m hm⟩).mono
        fun members h => ?_
    clear hsorted
    induction h with
    | nil => exact ⟨List.forall_mem_nil _, rfl⟩
    | cons hm _ ih =>
      obtain ⟨hread, hnode⟩ := hm
      refine ⟨List.forall_mem_cons.2 ⟨hnode ▸ hread, ih.1⟩, ?_⟩
      rw [List.map_cons, List.map_cons, hnode, ih.2]
  refine .bind (hread.mono fun members hmembers => .pure ⟨members, _, rfl, hmembers.1, ?_⟩)
  have hplaced : Placed sourceOrder _ _ := hsorted.map
  simp only [List.map_append, hproperties, hindexers, hcalls, hslots] at hplaced
  rw [hmembers.2]
  simpa [memberNodes, memberLists] using hplaced

end Retype.Flow
