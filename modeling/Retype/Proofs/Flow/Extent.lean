import Retype.Proofs.Flow.Decoding
import Retype.Proofs.Migration.Yields
/-!
# How deep a type lies in its node

A type that is read from a node consists of parts that were read from parts of
the node, so it is no deeper than the node is (`decodeType_spans`). `Spans`
counts the levels of a type, and of the names and the keys in it. A key stays
the node that it was, so what is known of keys is a parameter. Levels are
counted in objects (`Json.nesting`); the lists between them count for nothing.
-/

namespace Retype

/-! ## Nesting -/

namespace Json

mutual

/-- How many objects stand inside each other. -/
def nesting : Json → Nat
  | arr items => nestingItems items
  | obj entries => nestingEntries entries + 1
  | _ => 0

def nestingItems : List Json → Nat
  | [] => 0
  | j :: rest => max (nesting j) (nestingItems rest)

def nestingEntries : List (String × Json) → Nat
  | [] => 0
  | (_, j) :: rest => max (nesting j) (nestingEntries rest)

end

mutual

/-- Lists count for the depth of a value only. -/
theorem nesting_le_depth : ∀ v : Json, v.nesting ≤ v.depth
  | arr items => Nat.le_succ_of_le (nestingItems_le_depth items)
  | obj entries => Nat.succ_le_succ (nestingEntries_le_depth entries)
  | null | bool _ | int _ | double _ | str _ => Nat.le_refl 0

/-- The items of a list nest no deeper than they reach. -/
theorem nestingItems_le_depth : ∀ items : List Json, nestingItems items ≤ depthItems items
  | [] => Nat.le_refl 0
  | j :: rest => by
    rw [nestingItems, depthItems]
    exact Nat.max_le.2 ⟨Nat.le_trans (nesting_le_depth j) (Nat.le_max_left _ _),
      Nat.le_trans (nestingItems_le_depth rest) (Nat.le_max_right _ _)⟩

/-- Nor do the entries of an object. -/
theorem nestingEntries_le_depth :
    ∀ entries : List (String × Json), nestingEntries entries ≤ depthEntries entries
  | [] => Nat.le_refl 0
  | (_, j) :: rest => by
    rw [nestingEntries, depthEntries]
    exact Nat.max_le.2 ⟨Nat.le_trans (nesting_le_depth j) (Nat.le_max_left _ _),
      Nat.le_trans (nestingEntries_le_depth rest) (Nat.le_max_right _ _)⟩

end

/-- A bound on the nesting of a list is one on each item. -/
theorem nestingItems_le_iff {items : List Json} {d : Nat} :
    nestingItems items ≤ d ↔ ∀ v ∈ items, v.nesting ≤ d := by
  induction items with
  | nil => simp [nestingItems]
  | cons first rest ih => rw [nestingItems, Nat.max_le, ih, List.forall_mem_cons]

/-- A bound on the nesting of entries is one on each value. -/
theorem nestingEntries_le_iff {entries : Entries} {d : Nat} :
    nestingEntries entries ≤ d ↔ ∀ entry ∈ entries, entry.2.nesting ≤ d := by
  induction entries with
  | nil => simp [nestingEntries]
  | cons first rest ih =>
    rw [nestingEntries, Nat.max_le, ih, List.forall_mem_cons]

/-- The value of an entry nests less deeply than its object. -/
theorem nesting_lt_of_mem {entries : Entries} {entry : String × Json} (h : entry ∈ entries) :
    entry.2.nesting < (obj entries).nesting :=
  Nat.lt_succ_of_le (nestingEntries_le_iff.1 (Nat.le_refl _) entry h)

/-- One value stands inside another one, which is an object. -/
structure Within (v n : Json) : Prop where
  nesting_lt : v.nesting < n.nesting
  everywhere {p : Json → Bool} : n.everywhere p = true → v.everywhere p = true

/-- A field's value stands within its node. -/
theorem Within.of_get? {n v : Json} {key : String} (h : n.get? key = some v) : Within v n where
  nesting_lt := by
    obtain ⟨entries, rfl⟩ := exists_obj_of_get? h
    exact nesting_lt_of_mem (Entries.mem_of_get? h)
  everywhere hp := everywhere_of_get? hp h

/-- So does an item of a field that is a list. -/
theorem Within.of_item {n v : Json} {key : String} {items : List Json}
    (h : n.get? key = some (arr items)) (hv : v ∈ items) : Within v n where
  nesting_lt :=
    Nat.lt_of_le_of_lt (nestingItems_le_iff.1 (Nat.le_refl _) v hv) (Within.of_get? h).nesting_lt
  everywhere hp := everywhere_of_mem (everywhere_of_get? hp h) hv

/-- What stands within a part stands within the whole. -/
theorem Within.trans {u v n : Json} (h : Within u v) (h' : Within v n) : Within u n where
  nesting_lt := Nat.lt_trans h.nesting_lt h'.nesting_lt
  everywhere hp := h.everywhere (h'.everywhere hp)

end Json

/-! ## What a type consists of -/

/-- How many names a name is made of. -/
def FlowEntity.height : FlowEntity → Nat
  | name _ => 1
  | qualified _ qualification _ => qualification.height + 1

/-- Every name has a height. -/
theorem FlowEntity.height_pos (e : FlowEntity) : 0 < e.height := by
  cases e <;> exact Nat.succ_pos _

/-- The types in a member of an object. -/
def FlowMember.types : FlowMember FlowType → List FlowType
  | property _ _ value _ => [value]
  | spread _ argument => [argument]
  | indexer _ _ key value _ _ => [key, value]
  | callProperty _ value => [value]
  | internalSlot _ _ => []

/-- The key of a member that is a property. -/
def FlowMember.key? : FlowMember FlowType → Option Json
  | property _ key _ _ => some key
  | _ => none

/-- The bounds and defaults of type parameters. -/
def FlowTypeParams.types (params : FlowTypeParams FlowType) : List FlowType :=
  params.params.flatMap fun p => p.bound.toList ++ p.default.toList

namespace FlowType

/-- The types that a type consists of. -/
def parts : FlowType → List FlowType
  | keyword _ _ => []
  | literal _ _ => []
  | array _ element => [element]
  | nullable _ inner => [inner]
  | tuple _ types => types
  | union _ types => types
  | intersection _ types => types
  | typeof _ argument => [argument]
  | indexedAccess _ t index => [t, index]
  | optionalIndexedAccess _ t index => [t, index]
  | generic _ _ args => (args.map (·.params)).getD []
  | function _ params result rest thisParam typeParams =>
    result :: (params ++ rest.toList ++ thisParam.toList).map (·.type)
      ++ (typeParams.map (·.types)).getD []
  | object _ members _ => members.flatMap FlowMember.types

/-- The keys of the properties of an object type. -/
def keys : FlowType → List Json
  | .object _ members _ => members.filterMap FlowMember.key?
  | _ => []

/-- The name that a reference refers to. -/
def name? : FlowType → Option FlowEntity
  | generic _ id _ => some id
  | _ => none

end FlowType

namespace Flow

variable {K : Json → Prop}

/-- A type is so many types deep at most, and so are its names and, one level
further down, its keys, for which a condition holds. -/
inductive Spans (K : Json → Prop) : Nat → FlowType → Prop
  | intro {d : Nat} {t : FlowType} (parts : ∀ u ∈ t.parts, Spans K d u)
      (keys : ∀ key ∈ t.keys, key.nesting < d ∧ K key)
      (name : ∀ e, t.name? = some e → e.height ≤ d + 1) : Spans K (d + 1) t

/-- What spans within a bound spans within a larger one. -/
theorem Spans.mono {d d' : Nat} {t : FlowType} (h : Spans K d t) (hd : d ≤ d') : Spans K d' t := by
  induction h generalizing d' with
  | @intro d t _ keys name ih =>
    obtain ⟨m, rfl⟩ : ∃ m, d' = m + 1 := ⟨d' - 1, by omega⟩
    have hm : d ≤ m := Nat.le_of_succ_le_succ hd
    refine .intro (fun u hu => ih u hu hm) (fun key hkey => ?_) fun e he => ?_
    · exact (keys key hkey).imp_left fun hlt => Nat.lt_of_lt_of_le hlt hm
    · exact Nat.le_trans (name e he) (Nat.succ_le_succ hm)

/-- A type is deeper by one than its parts, and by two than its keys. -/
theorem Spans.of_parts {d : Nat} (hd : 0 < d) {t : FlowType}
    (parts : ∀ u ∈ t.parts, ∃ d' < d, Spans K d' u)
    (keys : ∀ key ∈ t.keys, key.nesting + 1 < d ∧ K key)
    (name : ∀ e, t.name? = some e → e.height ≤ d) : Spans K d t := by
  obtain ⟨m, rfl⟩ : ∃ m, d = m + 1 := ⟨d - 1, by omega⟩
  refine .intro (fun u hu => ?_) (fun key hkey => ?_) name
  · obtain ⟨d', hlt, hspans⟩ := parts u hu
    exact hspans.mono (Nat.le_of_lt_succ hlt)
  · exact (keys key hkey).imp_left Nat.lt_of_succ_lt_succ

/-! ## Parts of a node -/

variable (path : String) {n : Json} {α β : Type} {P : α → Prop} {Q : β → Prop}

/-- A child that is read is the field's value. -/
theorem child_yields (n : Json) (key : String) :
    Result.Yields (child path n key) fun part => ∀ p, part = some p → n.get? key = some p.1 := by
  rw [child]
  split
  next => exact .ok (by rintro _ ⟨⟩)
  next => exact .ok (by rintro _ ⟨⟩)
  next entries hsize hbelow =>
    refine .ok fun p hp => ?_
    obtain rfl := Option.some.inj hp
    exact get?_of_below? hbelow
  next => exact .error _

/-- So is one that may be empty. -/
theorem nonemptyChild_yields (n : Json) (key : String) :
    Result.Yields (nonemptyChild path n key)
      fun part => ∀ p, part = some p → n.get? key = some p.1 := by
  refine .bind ((child_yields path n key).mono fun part hpart => ?_)
  cases part with
  | none => exact .ok nofun
  | some part =>
    refine .pure ?_
    split
    · exact hpart
    · exact nofun

/-- So is one that must be there. -/
theorem required_yields (n : Json) (key : String) :
    Result.Yields (required path n key) fun part => n.get? key = some part.1 := by
  refine .bind ((child_yields path n key).mono fun part hpart => ?_)
  cases part with
  | none => exact .error _
  | some part => exact .pure (hpart part rfl)

/-- Children that are read stand within their node. -/
theorem children_yields (n : Json) (key : String) :
    Result.Yields (children path n key) fun parts => ∀ p ∈ parts, p.1.Within n := by
  rw [children]
  split
  next => exact .ok (List.forall_mem_nil _)
  next => exact .ok (List.forall_mem_nil _)
  next items hsize hbelow =>
    refine .ok fun p hp => ?_
    obtain ⟨⟨item, hmem⟩, -, hitem⟩ := List.mem_filterMap.1 hp
    dsimp only at hitem
    split at hitem
    · obtain rfl := Option.some.inj hitem
      exact Json.Within.of_item (get?_of_below? hbelow) hmem
    · cases hitem
  next => exact .error _

/-- What is read from the objects in a list. -/
theorem children_mapM_yields (n : Json) (key : String) {f : n.Below → Result α}
    {g : List α → Result β}
    (hf : ∀ part : n.Below, part.1.Within n → Result.Yields (f part) P)
    (hg : ∀ xs, (∀ x ∈ xs, P x) → Result.Yields (g xs) Q) :
    Result.Yields (do let parts ← children path n key; g (← parts.mapM f)) Q :=
  .bind ((children_yields path n key).mono fun _ hparts =>
    .bind ((Result.Yields.mapM fun part hmem => hf part (hparts part hmem)).mono hg))

/-- Sorting by place keeps to the members that were read. -/
theorem inSourceOrder_yields {place : α → Result (Int × Int)} (members : List α) :
    Result.Yields (inSourceOrder place members) fun sorted => ∀ m ∈ sorted, m ∈ members := by
  have hplaced : Result.Yields (members.mapM fun m => do return (← place m, m))
      fun placed => ∀ m ∈ placed, m.2 ∈ members :=
    .mapM fun m hm => .bind (.trivial _ fun _ => .pure hm)
  refine .bind (hplaced.mono fun placed hmem => .pure fun m hm => ?_)
  obtain ⟨p, hp, rfl⟩ := List.mem_map.1 hm
  exact hmem p (List.mem_mergeSort.1 hp)

/-! ## Types -/

/-- A node with a text field nests at least once. -/
theorem nesting_pos_of_hasText {key text : String} (h : n.hasText key text = true) :
    0 < n.nesting := by
  cases n with
  | obj entries => exact Nat.succ_pos _
  | _ => cases h

/-- So does a node of a known kind. -/
theorem nesting_pos_of_ofName? {kind : FlowKind} (h : FlowKind.ofName? n.kind = some kind) :
    0 < n.nesting := by
  -- what is no object has no kind, which reads like null
  have hnone : FlowKind.ofName? (Json.text .null) = none := by decide
  cases n with
  | obj entries => exact Nat.succ_pos _
  | _ =>
    rw [show Json.kind _ = Json.text .null from rfl, hnone] at h
    cases h

/-- A name is no higher than its node nests. -/
theorem decodeEntity_height (n : Json) :
    Result.Yields (decodeEntity path n) fun e => e.height ≤ n.nesting := by
  rw [decodeEntity]
  refine .ite (fun h => .ok (nesting_pos_of_hasText h)) fun _ =>
    .ite (fun _ => ?_) fun _ => .error _
  refine .bind ((required_yields path n _).mono fun q hq => ?_)
  obtain ⟨q, _⟩ := q
  refine .bind ((decodeEntity_height q).mono fun e he => ?_)
  refine .bind (.trivial _ fun id => .bind (.trivial _ fun id => ?_))
  cases id with
  | name id => exact .pure (Nat.lt_of_le_of_lt he (Json.Within.of_get? hq).nesting_lt)
  | qualified => exact .error _
termination_by sizeOf n

/-- Every type in a list lies strictly inside a node. -/
def Inside (K : Json → Prop) (n : Json) (ts : List FlowType) : Prop :=
  ∀ u ∈ ts, ∃ d < n.nesting, Spans K d u

namespace Inside

/-- No type stands inside any node. -/
theorem nil : Inside K n [] := nofun

/-- A type that spans a part of a node lies inside the node. -/
theorem single {part : Json} (h : part.Within n) {t : FlowType} (ht : Spans K part.nesting t) :
    Inside K n [t] := by
  intro u hu
  rw [List.mem_singleton.1 hu]
  exact ⟨part.nesting, h.nesting_lt, ht⟩

/-- Types that lie inside one by one lie inside together. -/
theorem all {ts : List FlowType} (h : ∀ t ∈ ts, Inside K n [t]) : Inside K n ts :=
  fun t ht => h t ht t List.mem_cons_self

/-- Two lists of types inside a node are one such list. -/
theorem append {ts us : List FlowType} (hts : Inside K n ts) (hus : Inside K n us) :
    Inside K n (ts ++ us) := fun u hu => (List.mem_append.1 hu).elim (hts u) (hus u)

/-- What lies inside a part lies inside the whole. -/
theorem trans {part : Json} {ts : List FlowType} (hts : Inside K part ts) (h : part.Within n) :
    Inside K n ts := by
  intro u hu
  obtain ⟨d, hd, hspans⟩ := hts u hu
  exact ⟨d, Nat.lt_trans hd h.nesting_lt, hspans⟩

/-- Lists that lie inside one by one lie inside when joined. -/
theorem flatMap {α : Type} {f : α → List FlowType} {xs : List α} (h : ∀ x ∈ xs, Inside K n (f x)) :
    Inside K n (xs.flatMap f) := by
  intro u hu
  obtain ⟨x, hx, hu⟩ := List.mem_flatMap.1 hu
  exact h x hx u hu

/-- The types of parameters lie inside when each one does. -/
theorem map {params : List (FlowParam FlowType)} (h : ∀ p ∈ params, Inside K n [p.type]) :
    Inside K n (params.map (·.type)) :=
  all (List.forall_mem_map.2 h)

end Inside

/-- A type that was read from a node with a kind. -/
theorem Spans.read {kind : FlowKind} (hkind : FlowKind.ofName? n.kind = some kind) {t : FlowType}
    (h : Inside K n t.parts) (keys : ∀ key ∈ t.keys, key.nesting + 1 < n.nesting ∧ K key)
    (name : ∀ e, t.name? = some e → e.height ≤ n.nesting) : Spans K n.nesting t :=
  .of_parts (nesting_pos_of_ofName? hkind) h keys name

/-- What holds of a member that was read from a node. -/
structure MemberInside (K : Json → Prop) (n : Json) (m : FlowMember FlowType) : Prop where
  types : Inside K n m.types
  key : ∀ key, m.key? = some key → key.nesting < n.nesting ∧ K key

/-- Where a test holds everywhere in a node, the keys of properties are as
they should be. -/
def KeyRule (K : Json → Prop) (q : Json → Bool) : Prop :=
  ∀ n key : Json, n.everywhere q = true → n.hasText "type" "ObjectTypeProperty" = true →
    n.get? "key" = some key → K key

variable {q : Json → Bool}

mutual

/-- **A type is no deeper than the node that it was read from.** -/
theorem decodeType_spans (hK : KeyRule K q) (n : Json) (h : n.everywhere q = true) :
    Result.Yields (decodeType path n) (Spans K n.nesting) := by
  rw [decodeType]
  split
  next => exact .error _
  next hkind => exact .ok (.read hkind .nil nofun nofun)
  next hkind => exact .ok (.read hkind .nil nofun nofun)
  next hkind => exact .ok (.read hkind .nil nofun nofun)
  next hkind => exact .ok (.read hkind .nil nofun nofun)
  next hkind =>
    refine .bind ((required_yields path n _).mono fun ⟨part, _⟩ hpart => ?_)
    have hpart := Json.Within.of_get? hpart
    exact .bind ((decodeType_spans hK part (hpart.everywhere h)).mono fun t ht =>
      .pure (.read hkind (.single hpart ht) nofun nofun))
  next hkind =>
    refine .bind ((required_yields path n _).mono fun ⟨part, _⟩ hpart => ?_)
    have hpart := Json.Within.of_get? hpart
    exact .bind ((decodeType_spans hK part (hpart.everywhere h)).mono fun t ht =>
      .pure (.read hkind (.single hpart ht) nofun nofun))
  next hkind =>
    exact children_mapM_yields path n _ (fun ⟨part, _⟩ hpart =>
        (decodeType_spans hK part (hpart.everywhere h)).mono fun t ht => Inside.single hpart ht)
      fun ts hts => .pure (.read hkind (.all hts) nofun nofun)
  next hkind =>
    exact children_mapM_yields path n _ (fun ⟨part, _⟩ hpart =>
        (decodeType_spans hK part (hpart.everywhere h)).mono fun t ht => Inside.single hpart ht)
      fun ts hts => .pure (.read hkind (.all hts) nofun nofun)
  next hkind =>
    exact children_mapM_yields path n _ (fun ⟨part, _⟩ hpart =>
        (decodeType_spans hK part (hpart.everywhere h)).mono fun t ht => Inside.single hpart ht)
      fun ts hts => .pure (.read hkind (.all hts) nofun nofun)
  next hkind =>
    refine .bind ((required_yields path n _).mono fun ⟨part, _⟩ hpart => ?_)
    have hpart := Json.Within.of_get? hpart
    dsimp only
    split
    · refine .bind ((decodeEntity_height path part).mono fun e he => .pure ?_)
      -- the name itself stands in the place of the argument
      have hname : Spans K part.nesting (.generic part e none) := by
        refine .of_parts (Nat.lt_of_lt_of_le e.height_pos he) nofun nofun ?_
        rintro _ ⟨⟩
        exact he
      exact .read hkind (.single hpart hname) nofun nofun
    · exact .bind ((decodeType_spans hK part (hpart.everywhere h)).mono fun t ht =>
        .pure (.read hkind (.single hpart ht) nofun nofun))
  next hkind =>
    refine .bind ((required_yields path n _).mono fun ⟨object, _⟩ hobject => ?_)
    have hobject := Json.Within.of_get? hobject
    refine .bind ((decodeType_spans hK object (hobject.everywhere h)).mono fun t ht => ?_)
    refine .bind ((required_yields path n _).mono fun ⟨index, _⟩ hindex => ?_)
    have hindex := Json.Within.of_get? hindex
    refine .bind ((decodeType_spans hK index (hindex.everywhere h)).mono fun u hu => .pure ?_)
    exact .read hkind (.append (.single hobject ht) (.single hindex hu)) nofun nofun
  next hkind =>
    refine .bind ((required_yields path n _).mono fun ⟨object, _⟩ hobject => ?_)
    have hobject := Json.Within.of_get? hobject
    refine .bind ((decodeType_spans hK object (hobject.everywhere h)).mono fun t ht => ?_)
    refine .bind ((required_yields path n _).mono fun ⟨index, _⟩ hindex => ?_)
    have hindex := Json.Within.of_get? hindex
    refine .bind ((decodeType_spans hK index (hindex.everywhere h)).mono fun u hu => .pure ?_)
    exact .read hkind (.append (.single hobject ht) (.single hindex hu)) nofun nofun
  next hkind =>
    refine .bind ((required_yields path n _).mono fun ⟨id, _⟩ hid => ?_)
    refine .bind ((decodeEntity_height path id).mono fun e he => ?_)
    have hname : ∀ e', some e = some e' → e'.height ≤ n.nesting := by
      rintro _ ⟨⟩
      exact Nat.le_trans he (Nat.le_of_lt (Json.Within.of_get? hid).nesting_lt)
    refine .bind ((child_yields path n _).mono fun args hargs => ?_)
    match args with
    | none => exact .pure (.read hkind .nil nofun hname)
    | some ⟨args, _⟩ =>
      have hpart := Json.Within.of_get? (hargs _ rfl)
      exact .bind ((decodeArgs_inside hK args (hpart.everywhere h)).mono fun as has =>
        .pure (.read hkind (has.trans hpart) nofun hname))
  next hkind =>
    refine .bind ((nonemptyChild_yields path n _).mono fun rest hrest => ?_)
    refine .bind ((nonemptyChild_yields path n _).mono fun thisParam hthis => ?_)
    refine children_mapM_yields path n _ (fun ⟨part, _⟩ hpart =>
      (decodeParam_inside hK part (hpart.everywhere h)).mono fun p hp => hp.trans hpart)
      fun params hparams => ?_
    refine .bind ((required_yields path n _).mono fun ⟨result, _⟩ hresult => ?_)
    have hpart := Json.Within.of_get? hresult
    refine .bind ((decodeType_spans hK result (hpart.everywhere h)).mono fun result hresult => ?_)
    -- What follows the reading of `rest` and of `this` is the same whether they are
    -- there or not, so it is dealt with once.
    extract_lets withRest
    have hrest' : ∀ rest : Option (FlowParam FlowType), Inside K n (rest.toList.map (·.type)) →
        Result.Yields (withRest rest) (Spans K n.nesting) := by
      intro rest hrest
      dsimp -zeta only [withRest]
      extract_lets withThis
      have hthis' : ∀ thisParam : Option (FlowParam FlowType),
          Inside K n (thisParam.toList.map (·.type)) →
          Result.Yields (withThis thisParam) (Spans K n.nesting) := by
        intro thisParam hthis
        have htypes := ((Inside.single hpart hresult).append
          (Inside.map hparams)).append (hrest.append hthis)
        refine .bind ((child_yields path n _).mono fun typeParams htypeParams => ?_)
        match typeParams with
        | none =>
          exact .pure (.read hkind (by simpa [FlowType.parts] using htypes) nofun nofun)
        | some ⟨part, _⟩ =>
          have hpart := Json.Within.of_get? (htypeParams _ rfl)
          have hps := decodeTypeParams_inside hK part (hpart.everywhere h)
          exact .bind (hps.mono fun ps hps => .pure (.read hkind
            (by simpa [FlowType.parts] using htypes.append (hps.trans hpart)) nofun nofun))
      match thisParam with
      | none => exact hthis' none .nil
      | some ⟨part, _⟩ =>
        have hpart := Json.Within.of_get? (hthis _ rfl)
        exact .bind (.map ((decodeParam_inside hK part (hpart.everywhere h)).mono fun q hq =>
          hthis' (some q) (hq.trans hpart)))
    match rest with
    | none => exact hrest' none .nil
    | some ⟨part, _⟩ =>
      have hpart := Json.Within.of_get? (hrest _ rfl)
      exact .bind (.map ((decodeParam_inside hK part (hpart.everywhere h)).mono fun q hq =>
        hrest' (some q) (hq.trans hpart)))
  next hkind =>
    refine .bind ((children_yields path n _).mono fun properties hproperties => ?_)
    refine .bind ((children_yields path n _).mono fun indexers hindexers => ?_)
    refine .bind ((children_yields path n _).mono fun calls hcalls => ?_)
    refine .bind ((children_yields path n _).mono fun slots hslots => ?_)
    have hall : ∀ m ∈ properties ++ indexers ++ calls ++ slots, m.1.Within n := by
      simp only [List.forall_mem_append]
      exact ⟨⟨⟨hproperties, hindexers⟩, hcalls⟩, hslots⟩
    refine .bind ((inSourceOrder_yields _).mono fun sorted hsorted => ?_)
    refine .bind ((Result.Yields.mapM fun ⟨m, _⟩ hmem =>
      have hpart := hall _ (hsorted _ hmem)
      (decodeMember_inside hK m (hpart.everywhere h)).mono fun _ hm =>
        (⟨m, hpart, hm⟩ : ∃ part : Json, part.Within n ∧ MemberInside K part _)).mono
        fun members hmembers => .pure ?_)
    refine .read hkind (.flatMap fun m hm => ?_) (fun key hkey => ?_) nofun
    · obtain ⟨part, hpart, hmember⟩ := hmembers m hm
      exact hmember.types.trans hpart
    · obtain ⟨m, hm, hkey⟩ := List.mem_filterMap.1 hkey
      obtain ⟨part, hpart, hmember⟩ := hmembers m hm
      -- a key stands in its member, which stands in the object
      have hlt := hpart.nesting_lt
      exact (hmember.key key hkey).imp_left fun hlt => by omega
termination_by sizeOf n

/-- The type arguments that are read lie inside their node. -/
theorem decodeArgs_inside (hK : KeyRule K q) (n : Json) (h : n.everywhere q = true) :
    Result.Yields (decodeArgs path n) fun args => Inside K n args.params := by
  rw [decodeArgs]
  exact children_mapM_yields path n _ (fun ⟨part, _⟩ hpart =>
      (decodeType_spans hK part (hpart.everywhere h)).mono fun t ht => Inside.single hpart ht)
    fun ts hts => .pure (.all hts)
termination_by sizeOf n

/-- So do the bounds and defaults of type parameters. -/
theorem decodeTypeParams_inside (hK : KeyRule K q) (n : Json) (h : n.everywhere q = true) :
    Result.Yields (decodeTypeParams path n) fun params => Inside K n params.types := by
  rw [decodeTypeParams]
  exact children_mapM_yields path n _ (fun ⟨part, _⟩ hpart =>
      (decodeTypeParam_inside hK part (hpart.everywhere h)).mono fun p hp => hp.trans hpart)
    fun ps hps => .pure (.flatMap hps)
termination_by sizeOf n

/-- So do those of one type parameter. -/
theorem decodeTypeParam_inside (hK : KeyRule K q) (n : Json) (h : n.everywhere q = true) :
    Result.Yields (decodeTypeParam path n) fun p =>
      Inside K n (p.bound.toList ++ p.default.toList) := by
  rw [decodeTypeParam]
  refine .bind ((nonemptyChild_yields path n _).mono fun bound hbound => ?_)
  refine .bind ((nonemptyChild_yields path n _).mono fun default hdefault => ?_)
  -- As for functions: once for a parameter with a bound and for one without.
  extract_lets withBound
  have hbound' : ∀ bound : Option FlowType, Inside K n bound.toList →
      Result.Yields (withBound bound) fun p => Inside K n (p.bound.toList ++ p.default.toList) := by
    intro bound hbound
    dsimp -zeta only [withBound]
    extract_lets withDefault
    have hdefault' : ∀ default : Option FlowType, Inside K n default.toList →
        Result.Yields (withDefault default)
          fun p => Inside K n (p.bound.toList ++ p.default.toList) :=
      fun default hdefault => .bind (.trivial _ fun variance => .pure (hbound.append hdefault))
    match default with
    | none => exact hdefault' none .nil
    | some ⟨part, _⟩ =>
      have hpart := Json.Within.of_get? (hdefault _ rfl)
      exact .bind (.map ((decodeType_spans hK part (hpart.everywhere h)).mono fun t ht =>
        hdefault' (some t) (.single hpart ht)))
  match bound with
  | none => exact hbound' none .nil
  | some ⟨bound, _⟩ =>
    -- The bound stands inside an annotation.
    refine .bind ((required_yields path bound _).mono fun ⟨part, _⟩ hpart => ?_)
    have hpart := (Json.Within.of_get? hpart).trans (.of_get? (hbound _ rfl))
    exact .bind (.map ((decodeType_spans hK part (hpart.everywhere h)).mono fun t ht =>
      hbound' (some t) (.single hpart ht)))
termination_by sizeOf n

/-- So does the type of a parameter. -/
theorem decodeParam_inside (hK : KeyRule K q) (n : Json) (h : n.everywhere q = true) :
    Result.Yields (decodeParam path n) fun p => Inside K n [p.type] := by
  rw [decodeParam]
  refine .bind (.trivial _ fun name => .bind ((required_yields path n _).mono
    fun ⟨part, _⟩ hpart => ?_))
  have hpart := Json.Within.of_get? hpart
  exact .bind ((decodeType_spans hK part (hpart.everywhere h)).mono fun t ht =>
    .pure (.single hpart ht))
termination_by sizeOf n

/-- So do the types of an object's member. -/
theorem decodeMember_inside (hK : KeyRule K q) (n : Json) (h : n.everywhere q = true) :
    Result.Yields (decodeMember path n) (MemberInside K n) := by
  rw [decodeMember]
  refine .ite (fun hproperty => ?_) fun _ => .ite (fun _ => ?_) fun _ => .ite (fun _ => ?_) fun _ =>
    .ite (fun _ => ?_) fun _ => .ite (fun _ => ?_) fun _ => .error _
  · refine .bind ((required_yields path n _).mono fun ⟨key, _⟩ hkey => ?_)
    refine .bind ((required_yields path n _).mono fun ⟨value, _⟩ hvalue => ?_)
    have hpart := Json.Within.of_get? hvalue
    refine .bind ((decodeType_spans hK value (hpart.everywhere h)).mono fun t ht => ?_)
    refine .bind (.trivial _ fun _ => .pure ⟨.single hpart ht, ?_⟩)
    rintro _ ⟨⟩
    exact ⟨(Json.Within.of_get? hkey).nesting_lt, hK n key h hproperty hkey⟩
  · refine .bind ((required_yields path n _).mono fun ⟨argument, _⟩ hargument => ?_)
    have hpart := Json.Within.of_get? hargument
    exact .bind ((decodeType_spans hK argument (hpart.everywhere h)).mono fun t ht =>
      .pure ⟨.single hpart ht, nofun⟩)
  · refine .bind (.trivial _ fun _ => .bind ((required_yields path n _).mono
      fun ⟨key, _⟩ hkey => ?_))
    have hkey := Json.Within.of_get? hkey
    refine .bind ((decodeType_spans hK key (hkey.everywhere h)).mono fun t ht => ?_)
    refine .bind ((required_yields path n _).mono fun ⟨value, _⟩ hvalue => ?_)
    have hvalue := Json.Within.of_get? hvalue
    refine .bind ((decodeType_spans hK value (hvalue.everywhere h)).mono fun u hu => ?_)
    exact .bind (.trivial _ fun _ =>
      .pure ⟨.append (.single hkey ht) (.single hvalue hu), nofun⟩)
  · refine .bind ((required_yields path n _).mono fun ⟨value, _⟩ hvalue => ?_)
    have hpart := Json.Within.of_get? hvalue
    exact .bind ((decodeType_spans hK value (hpart.everywhere h)).mono fun t ht =>
      .pure ⟨.single hpart ht, nofun⟩)
  · exact .bind (.trivial _ fun _ => .pure ⟨.nil, nofun⟩)
termination_by sizeOf n

end

end Flow

end Retype
