import Retype.Proofs.Flow.Extent
/-!
# The nodes a type was read from

A type was read from a node, and whatever it keeps of that node is a part of it:
its own node, those of the names, the parameters and the members in it, and the
keys of properties. So a condition that the parts of a node inherit holds of
all these nodes if it holds of the node that was read (`decodeType_drawn`).
-/

namespace Retype

/-! ## The nodes of a type -/

/-- The nodes of a name. -/
def FlowEntity.nodes : FlowEntity → List Json
  | name n => [n.node]
  | qualified node qualification id => node :: id.node :: qualification.nodes

/-- The nodes of a list of type parameters. -/
def FlowTypeParams.nodes (params : FlowTypeParams FlowType) : List Json :=
  params.node :: params.params.map (·.node)

/-- The node of a member of an object, and its key. -/
def FlowMember.nodes (m : FlowMember FlowType) : List Json := m.node :: m.key?.toList

/-- The nodes in a type besides its own and those of the types in it. -/
def FlowType.sources : FlowType → List Json
  | generic _ id args => id.nodes ++ (args.map (·.node)).toList
  | function _ params _ rest thisParam typeParams =>
    (params ++ rest.toList ++ thisParam.toList).map (·.node) ++
      (typeParams.map (·.nodes)).getD []
  | object _ members _ => members.flatMap (·.nodes)
  | _ => []

namespace Flow

/-- A condition holds of every node in a type. -/
inductive Drawn (P : Json → Prop) : FlowType → Prop
  | intro {t : FlowType} (node : P t.node) (sources : ∀ n ∈ t.sources, P n)
      (parts : ∀ u ∈ t.parts, Drawn P u) : Drawn P t

/-- What holds of a member of an object. -/
structure MemberDrawn (P : Json → Prop) (m : FlowMember FlowType) : Prop where
  nodes : ∀ n ∈ m.nodes, P n
  types : ∀ u ∈ m.types, Drawn P u

/-- What holds of a list of type parameters. -/
structure TypeParamsDrawn (P : Json → Prop) (params : FlowTypeParams FlowType) : Prop where
  nodes : ∀ n ∈ params.nodes, P n
  types : ∀ u ∈ params.types, Drawn P u

/-- What the parts of a node inherit from it. -/
def Hereditary (P : Json → Prop) : Prop := ∀ {part n : Json}, part.Within n → P n → P part

variable {P : Json → Prop} {n : Json}

/-- A type without nodes besides its own and those of the types in it. -/
theorem Drawn.of_parts {t : FlowType} (node : P t.node) (sources : t.sources = [])
    (parts : ∀ u ∈ t.parts, Drawn P u) : Drawn P t :=
  .intro node (by simp [sources]) parts

/-! ## Reading -/

variable (path : String) (hP : Hereditary P)
include hP

theorem decodeEntity_drawn (n : Json) (h : P n) :
    Result.Yields (decodeEntity path n) fun e => ∀ m ∈ e.nodes, P m := by
  rw [decodeEntity]
  refine .ite (fun _ => .ok (List.forall_mem_singleton.2 h)) fun _ => .ite (fun _ => ?_) fun _ =>
    .error _
  refine .bind ((required_yields path n _).mono fun q hq => ?_)
  obtain ⟨q, _⟩ := q
  refine .bind ((decodeEntity_drawn q (hP (.of_get? hq) h)).mono fun e he => ?_)
  refine .bind ((required_yields path n _).mono fun id hid => ?_)
  obtain ⟨id, _⟩ := id
  refine .bind ((decodeEntity_drawn id (hP (.of_get? hid) h)).mono fun e' he' => ?_)
  cases e' with
  | name id =>
    exact .pure (List.forall_mem_cons.2 ⟨h, List.forall_mem_cons.2
      ⟨List.forall_mem_singleton.1 he', he⟩⟩)
  | qualified => exact .error _
termination_by sizeOf n

mutual

/-- **What a type keeps of the node that it was read from is part of the node.** -/
theorem decodeType_drawn (n : Json) (h : P n) :
    Result.Yields (decodeType path n) (Drawn P) := by
  rw [decodeType]
  split
  next => exact .error _
  next => exact .ok (.of_parts h rfl nofun)
  next => exact .ok (.of_parts h rfl nofun)
  next => exact .ok (.of_parts h rfl nofun)
  next => exact .ok (.of_parts h rfl nofun)
  next =>
    refine .bind ((required_yields path n _).mono fun ⟨part, _⟩ hpart => ?_)
    exact .bind ((decodeType_drawn part (hP (.of_get? hpart) h)).mono fun t ht =>
      .pure (.of_parts h rfl (List.forall_mem_singleton.2 ht)))
  next =>
    refine .bind ((required_yields path n _).mono fun ⟨part, _⟩ hpart => ?_)
    exact .bind ((decodeType_drawn part (hP (.of_get? hpart) h)).mono fun t ht =>
      .pure (.of_parts h rfl (List.forall_mem_singleton.2 ht)))
  next =>
    exact children_mapM_yields path n _ (fun ⟨part, _⟩ hpart => decodeType_drawn part (hP hpart h))
      fun ts hts => .pure (.of_parts h rfl hts)
  next =>
    exact children_mapM_yields path n _ (fun ⟨part, _⟩ hpart => decodeType_drawn part (hP hpart h))
      fun ts hts => .pure (.of_parts h rfl hts)
  next =>
    exact children_mapM_yields path n _ (fun ⟨part, _⟩ hpart => decodeType_drawn part (hP hpart h))
      fun ts hts => .pure (.of_parts h rfl hts)
  next =>
    refine .bind ((required_yields path n _).mono fun ⟨part, _⟩ hpart => ?_)
    have hpart := hP (.of_get? hpart) h
    dsimp only
    split
    · refine .bind ((decodeEntity_drawn path hP part hpart).mono fun e he => .pure ?_)
      -- the name itself stands in the place of the argument
      have hname : Drawn P (.generic part e none) :=
        .intro hpart (by simpa [FlowType.sources] using he) nofun
      exact .of_parts h rfl (List.forall_mem_singleton.2 hname)
    · exact .bind ((decodeType_drawn part hpart).mono fun t ht =>
        .pure (.of_parts h rfl (List.forall_mem_singleton.2 ht)))
  next =>
    refine .bind ((required_yields path n _).mono fun ⟨object, _⟩ hobject => ?_)
    refine .bind ((decodeType_drawn object (hP (.of_get? hobject) h)).mono fun t ht => ?_)
    refine .bind ((required_yields path n _).mono fun ⟨index, _⟩ hindex => ?_)
    exact .bind ((decodeType_drawn index (hP (.of_get? hindex) h)).mono fun u hu =>
      .pure (.of_parts h rfl (List.forall_mem_cons.2 ⟨ht, List.forall_mem_singleton.2 hu⟩)))
  next =>
    refine .bind ((required_yields path n _).mono fun ⟨object, _⟩ hobject => ?_)
    refine .bind ((decodeType_drawn object (hP (.of_get? hobject) h)).mono fun t ht => ?_)
    refine .bind ((required_yields path n _).mono fun ⟨index, _⟩ hindex => ?_)
    exact .bind ((decodeType_drawn index (hP (.of_get? hindex) h)).mono fun u hu =>
      .pure (.of_parts h rfl (List.forall_mem_cons.2 ⟨ht, List.forall_mem_singleton.2 hu⟩)))
  next =>
    refine .bind ((required_yields path n _).mono fun ⟨id, _⟩ hid => ?_)
    refine .bind ((decodeEntity_drawn path hP id (hP (.of_get? hid) h)).mono fun e he => ?_)
    refine .bind ((child_yields path n _).mono fun args hargs => ?_)
    match args with
    | none => exact .pure (.intro h (by simpa [FlowType.sources] using he) nofun)
    | some ⟨args, _⟩ =>
      have hpart := hP (.of_get? (hargs _ rfl)) h
      refine .bind ((decodeArgs_drawn args hpart).mono fun as has => .pure (.intro h ?_ has.2))
      exact List.forall_mem_append.2 ⟨he, List.forall_mem_singleton.2 has.1⟩
  next =>
    refine .bind ((nonemptyChild_yields path n _).mono fun rest hrest => ?_)
    refine .bind ((nonemptyChild_yields path n _).mono fun thisParam hthis => ?_)
    refine children_mapM_yields path n _
      (fun ⟨part, _⟩ hpart => decodeParam_drawn part (hP hpart h)) fun params hparams => ?_
    refine .bind ((required_yields path n _).mono fun ⟨result, _⟩ hresult => ?_)
    refine .bind ((decodeType_drawn result (hP (.of_get? hresult) h)).mono fun result hresult => ?_)
    -- What follows the reading of `rest` and of `this` is the same whether they are
    -- there or not, so it is dealt with once.
    extract_lets withRest
    have hrest' : ∀ rest : Option (FlowParam FlowType),
        (∀ p ∈ rest.toList, P p.node ∧ Drawn P p.type) →
        Result.Yields (withRest rest) (Drawn P) := by
      intro rest hrest
      dsimp -zeta only [withRest]
      extract_lets withThis
      have hthis' : ∀ thisParam : Option (FlowParam FlowType),
          (∀ p ∈ thisParam.toList, P p.node ∧ Drawn P p.type) →
          Result.Yields (withThis thisParam) (Drawn P) := by
        intro thisParam hthis
        have hall : ∀ p ∈ params ++ rest.toList ++ thisParam.toList, P p.node ∧ Drawn P p.type := by
          simp only [List.forall_mem_append]
          exact ⟨⟨hparams, hrest⟩, hthis⟩
        have hnodes : ∀ m ∈ (params ++ rest.toList ++ thisParam.toList).map (·.node), P m :=
          List.forall_mem_map.2 fun p hp => (hall p hp).1
        have htypes : ∀ u ∈ result :: (params ++ rest.toList ++ thisParam.toList).map (·.type),
            Drawn P u :=
          List.forall_mem_cons.2 ⟨hresult, List.forall_mem_map.2 fun p hp => (hall p hp).2⟩
        refine .bind ((child_yields path n _).mono fun typeParams htypeParams => ?_)
        match typeParams with
        | none =>
          exact .pure (.intro h (List.forall_mem_append.2 ⟨hnodes, nofun⟩)
            (List.forall_mem_append.2 ⟨htypes, nofun⟩))
        | some ⟨part, _⟩ =>
          have hpart := hP (.of_get? (htypeParams _ rfl)) h
          exact .bind ((decodeTypeParams_drawn part hpart).mono fun ps hps =>
            .pure (.intro h (List.forall_mem_append.2 ⟨hnodes, hps.nodes⟩)
              (List.forall_mem_append.2 ⟨htypes, hps.types⟩)))
      match thisParam with
      | none => exact hthis' none nofun
      | some ⟨part, _⟩ =>
        have hpart := hP (.of_get? (hthis _ rfl)) h
        exact .bind (.map ((decodeParam_drawn part hpart).mono fun p hp =>
          hthis' (some p) (List.forall_mem_singleton.2 hp)))
    match rest with
    | none => exact hrest' none nofun
    | some ⟨part, _⟩ =>
      have hpart := hP (.of_get? (hrest _ rfl)) h
      exact .bind (.map ((decodeParam_drawn part hpart).mono fun p hp =>
        hrest' (some p) (List.forall_mem_singleton.2 hp)))
  next =>
    refine .bind ((children_yields path n _).mono fun properties hproperties => ?_)
    refine .bind ((children_yields path n _).mono fun indexers hindexers => ?_)
    refine .bind ((children_yields path n _).mono fun calls hcalls => ?_)
    refine .bind ((children_yields path n _).mono fun slots hslots => ?_)
    have hall : ∀ m ∈ properties ++ indexers ++ calls ++ slots, m.1.Within n := by
      simp only [List.forall_mem_append]
      exact ⟨⟨⟨hproperties, hindexers⟩, hcalls⟩, hslots⟩
    refine .bind ((inSourceOrder_yields _).mono fun sorted hsorted => ?_)
    refine .bind ((Result.Yields.mapM fun ⟨m, _⟩ hmem =>
      decodeMember_drawn m (hP (hall _ (hsorted _ hmem)) h)).mono fun members hmembers => .pure ?_)
    refine .intro h (fun m hm => ?_) fun u hu => ?_
    · obtain ⟨member, hmember, hm⟩ := List.mem_flatMap.1 hm
      exact (hmembers member hmember).nodes m hm
    · obtain ⟨member, hmember, hu⟩ := List.mem_flatMap.1 hu
      exact (hmembers member hmember).types u hu
termination_by sizeOf n

theorem decodeArgs_drawn (n : Json) (h : P n) :
    Result.Yields (decodeArgs path n) fun args => P args.node ∧ ∀ u ∈ args.params, Drawn P u := by
  rw [decodeArgs]
  exact children_mapM_yields path n _ (fun ⟨part, _⟩ hpart => decodeType_drawn part (hP hpart h))
    fun ts hts => .pure ⟨h, hts⟩
termination_by sizeOf n

theorem decodeTypeParams_drawn (n : Json) (h : P n) :
    Result.Yields (decodeTypeParams path n) (TypeParamsDrawn P) := by
  rw [decodeTypeParams]
  refine children_mapM_yields path n _
    (fun ⟨part, _⟩ hpart => decodeTypeParam_drawn part (hP hpart h)) fun ps hps => .pure ⟨?_, ?_⟩
  · exact List.forall_mem_cons.2 ⟨h, List.forall_mem_map.2 fun p hp => (hps p hp).1⟩
  · intro u hu
    obtain ⟨p, hp, hu⟩ := List.mem_flatMap.1 hu
    exact (hps p hp).2 u hu
termination_by sizeOf n

theorem decodeTypeParam_drawn (n : Json) (h : P n) :
    Result.Yields (decodeTypeParam path n) fun p =>
      P p.node ∧ ∀ u ∈ p.bound.toList ++ p.default.toList, Drawn P u := by
  rw [decodeTypeParam]
  refine .bind ((nonemptyChild_yields path n _).mono fun bound hbound => ?_)
  refine .bind ((nonemptyChild_yields path n _).mono fun default hdefault => ?_)
  -- As for functions: once for a parameter with a bound and for one without.
  extract_lets withBound
  have hbound' : ∀ bound : Option FlowType, (∀ u ∈ bound.toList, Drawn P u) →
      Result.Yields (withBound bound) fun p =>
        P p.node ∧ ∀ u ∈ p.bound.toList ++ p.default.toList, Drawn P u := by
    intro bound hbound
    dsimp -zeta only [withBound]
    extract_lets withDefault
    have hdefault' : ∀ default : Option FlowType, (∀ u ∈ default.toList, Drawn P u) →
        Result.Yields (withDefault default) fun p =>
          P p.node ∧ ∀ u ∈ p.bound.toList ++ p.default.toList, Drawn P u :=
      fun default hdefault => .bind (.trivial _ fun variance =>
        .pure ⟨h, List.forall_mem_append.2 ⟨hbound, hdefault⟩⟩)
    match default with
    | none => exact hdefault' none nofun
    | some ⟨part, _⟩ =>
      have hpart := hP (.of_get? (hdefault _ rfl)) h
      exact .bind (.map ((decodeType_drawn part hpart).mono fun t ht =>
        hdefault' (some t) (List.forall_mem_singleton.2 ht)))
  match bound with
  | none => exact hbound' none nofun
  | some ⟨bound, _⟩ =>
    -- The bound stands inside an annotation.
    refine .bind ((required_yields path bound _).mono fun ⟨part, _⟩ hpart => ?_)
    have hpart := hP ((Json.Within.of_get? hpart).trans (.of_get? (hbound _ rfl))) h
    exact .bind (.map ((decodeType_drawn part hpart).mono fun t ht =>
      hbound' (some t) (List.forall_mem_singleton.2 ht)))
termination_by sizeOf n

theorem decodeParam_drawn (n : Json) (h : P n) :
    Result.Yields (decodeParam path n) fun p => P p.node ∧ Drawn P p.type := by
  rw [decodeParam]
  refine .bind (.trivial _ fun name => .bind ((required_yields path n _).mono
    fun ⟨part, _⟩ hpart => ?_))
  exact .bind ((decodeType_drawn part (hP (.of_get? hpart) h)).mono fun t ht => .pure ⟨h, ht⟩)
termination_by sizeOf n

theorem decodeMember_drawn (n : Json) (h : P n) :
    Result.Yields (decodeMember path n) (MemberDrawn P) := by
  rw [decodeMember]
  refine .ite (fun _ => ?_) fun _ => .ite (fun _ => ?_) fun _ => .ite (fun _ => ?_) fun _ =>
    .ite (fun _ => ?_) fun _ => .ite (fun _ => ?_) fun _ => .error _
  · refine .bind ((required_yields path n _).mono fun ⟨key, _⟩ hkey => ?_)
    refine .bind ((required_yields path n _).mono fun ⟨value, _⟩ hvalue => ?_)
    refine .bind ((decodeType_drawn value (hP (.of_get? hvalue) h)).mono fun t ht => ?_)
    refine .bind (.trivial _ fun _ => .pure ⟨?_, List.forall_mem_singleton.2 ht⟩)
    exact List.forall_mem_cons.2 ⟨h, List.forall_mem_singleton.2 (hP (.of_get? hkey) h)⟩
  · refine .bind ((required_yields path n _).mono fun ⟨argument, _⟩ hargument => ?_)
    exact .bind ((decodeType_drawn argument (hP (.of_get? hargument) h)).mono fun t ht =>
      .pure ⟨List.forall_mem_singleton.2 h, List.forall_mem_singleton.2 ht⟩)
  · refine .bind (.trivial _ fun _ => .bind ((required_yields path n _).mono
      fun ⟨key, _⟩ hkey => ?_))
    refine .bind ((decodeType_drawn key (hP (.of_get? hkey) h)).mono fun t ht => ?_)
    refine .bind ((required_yields path n _).mono fun ⟨value, _⟩ hvalue => ?_)
    refine .bind ((decodeType_drawn value (hP (.of_get? hvalue) h)).mono fun u hu => ?_)
    exact .bind (.trivial _ fun _ => .pure ⟨List.forall_mem_singleton.2 h,
      List.forall_mem_cons.2 ⟨ht, List.forall_mem_singleton.2 hu⟩⟩)
  · refine .bind ((required_yields path n _).mono fun ⟨value, _⟩ hvalue => ?_)
    exact .bind ((decodeType_drawn value (hP (.of_get? hvalue) h)).mono fun t ht =>
      .pure ⟨List.forall_mem_singleton.2 h, List.forall_mem_singleton.2 ht⟩)
  · exact .bind (.trivial _ fun _ => .pure ⟨List.forall_mem_singleton.2 h, nofun⟩)
termination_by sizeOf n

end

end Flow

end Retype
