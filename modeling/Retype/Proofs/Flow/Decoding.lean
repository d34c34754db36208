import Retype.Flow.Decode
import Retype.Migration.Type
import Retype.Proofs.TypeScript.Grammar
/-!
# What is read is sound

A node is either read as a type or refused as a construct that is not
supported, if positions are whole numbers and numerals are numbers wherever
they are given (`Given`). What is read is `Sound`: each of its nodes has a
usable place or none, and each of its literals holds a value. The reading
descends into parts of the node, and so does the induction.
-/

namespace Retype

variable {α β : Type} {P Q : α → Prop}

/-! ## Answers -/

/-- Refusals of constructs, as opposed to nodes that are broken. -/
def Refusal.isUnsupported : Refusal → Bool
  | .unsupported .. => true
  | _ => false

/-- A result is as it should be, or a construct is not supported. -/
def Result.Answers (r : Result α) (P : α → Prop) : Prop :=
  match r with
  | .ok a => P a
  | .error e => e.isUnsupported = true

namespace Result.Answers

/-- A value answers what it is to answer. -/
theorem pure {a : α} (h : P a) : Result.Answers (Pure.pure a) P := h

/-- Two steps answer if each does, given what the one before has answered. -/
theorem bind {r : Result α} {f : α → Result β} {Q : β → Prop} (h : Result.Answers r P)
    (hf : ∀ a, P a → Result.Answers (f a) Q) : Result.Answers (r >>= f) Q := by
  cases r with
  | ok a => exact hf a h
  | error e => exact h

/-- A result that is mapped answers what its value is mapped to. -/
theorem map {r : Result α} {f : α → β} {Q : β → Prop} (h : Result.Answers r P)
    (hf : ∀ a, P a → Q (f a)) : Result.Answers (f <$> r) Q := by
  cases r with
  | ok a => exact hf a h
  | error e => exact h

/-- A list of steps answers if each of them does. -/
theorem mapM {f : α → Result β} {Q : β → Prop} {xs : List α}
    (h : ∀ x ∈ xs, Result.Answers (f x) Q) :
    Result.Answers (xs.mapM f) fun ys => ∀ y ∈ ys, Q y := by
  induction xs with
  | nil => exact pure nofun
  | cons x xs ih =>
    rw [List.forall_mem_cons] at h
    rw [List.mapM_cons]
    refine bind h.1 fun y hy => bind (ih h.2) fun ys hys => pure ?_
    exact List.forall_mem_cons.2 ⟨hy, hys⟩

end Result.Answers

/-! ## Positions -/

/-- The positions of a node are whole numbers wherever they are given. -/
def positionsWhole (n : Json) : Bool :=
  ["start", "end"].all fun edge => ["line", "column"].all fun field =>
    match ((n.get? "loc").bind (·.get? edge)).bind (·.get? field) with
    | some (.int _) => true
    | some _ => false
    | none => true

/-- A position with whole numbers is read. -/
theorem Position.exists_ofJson {j : Json}
    (h : ∀ field ∈ ["line", "column"], ∀ v, j.get? field = some v → ∃ i, v = .int i) :
    ∃ p, Position.ofJson j = .ok p := by
  have hfield : ∀ field ∈ ["line", "column"], ∃ i, Position.field j field = .ok i := by
    intro field hmem
    rw [Position.field]
    split
    next v hv =>
      obtain ⟨i, rfl⟩ := h field hmem v hv
      exact ⟨i, rfl⟩
    next => exact ⟨0, rfl⟩
  obtain ⟨line, hline⟩ := hfield "line" (by simp)
  obtain ⟨column, hcolumn⟩ := hfield "column" (by simp)
  exact ⟨⟨line, column⟩, by rw [Position.ofJson, hline, hcolumn]; rfl⟩

/-- An object that is found under a key stands there. -/
theorem Location.eq_of_objectAt? {j v : Json} {key : String} (h : objectAt? j key = some v) :
    j.get? key = some v := by
  rw [objectAt?] at h
  split at h
  next hget => rwa [← Option.some.inj h]
  next => cases h

/-- A node whose positions are whole numbers has a location, or none. -/
theorem Location.exists_ofNode? {n : Json} (h : positionsWhole n = true) (path : String) :
    ∃ l, Location.ofNode? path n = .ok l := by
  rw [Location.ofNode?]
  split
  next => exact ⟨none, rfl⟩
  next loc hloc =>
    split
    next start stop hstart hstop =>
      have hedge : ∀ edge ∈ ["start", "end"], ∀ j, objectAt? loc edge = some j →
          ∃ p, Position.ofJson j = .ok p := by
        intro edge hedge j hj
        refine Position.exists_ofJson fun field hfield v hv => ?_
        have hwhole := List.all_eq_true.1 (List.all_eq_true.1 h edge hedge) field hfield
        rw [eq_of_objectAt? hloc, Option.bind_some, eq_of_objectAt? hj, Option.bind_some, hv]
          at hwhole
        cases v with
        | int i => exact ⟨i, rfl⟩
        | _ => cases hwhole
      obtain ⟨p, hp⟩ := hedge "start" (by simp) start hstart
      obtain ⟨q, hq⟩ := hedge "end" (by simp) stop hstop
      exact ⟨some ⟨path, p, q⟩, by rw [hp, hq]; rfl⟩
    next => exact ⟨none, rfl⟩

/-- A refusal at a node with whole positions says that something is unsupported. -/
theorem Refusal.isUnsupported_at {n : Json} (h : positionsWhole n = true) (path detail : String) :
    (Refusal.at path n detail).isUnsupported = true := by
  obtain ⟨l, hl⟩ := Location.exists_ofNode? h path
  rw [Refusal.at, hl]
  rfl

/-! ## Everywhere in a value -/

namespace Json

variable (p : Json → Bool)

mutual

/-- A test holds of a value and of everything inside it. -/
def everywhere : Json → Bool
  | arr items => p (arr items) && everywhereItems items
  | obj entries => p (obj entries) && everywhereEntries entries
  | j => p j

def everywhereItems : List Json → Bool
  | [] => true
  | j :: rest => everywhere j && everywhereItems rest

def everywhereEntries : List (String × Json) → Bool
  | [] => true
  | (_, j) :: rest => everywhere j && everywhereEntries rest

end

variable {p}

/-- What holds everywhere in a value holds of it. -/
theorem everywhere_self {j : Json} (h : j.everywhere p = true) : p j = true := by
  cases j with
  | arr _ | obj _ => exact (Bool.and_eq_true_iff.1 h).1
  | _ => exact h

/-- What holds everywhere in a list holds everywhere in its items. -/
theorem everywhere_of_mem {items : List Json} {j : Json} (h : (arr items).everywhere p = true)
    (hj : j ∈ items) : j.everywhere p = true := by
  replace h := (Bool.and_eq_true_iff.1 h).2
  induction items with
  | nil => cases hj
  | cons first rest ih =>
    obtain ⟨hfirst, hrest⟩ := Bool.and_eq_true_iff.1 h
    rcases List.mem_cons.1 hj with rfl | hj
    · exact hfirst
    · exact ih hj hrest

/-- What holds everywhere in an object holds everywhere in its entries. -/
theorem everywhere_of_entry {entries : Entries} {entry : String × Json}
    (h : (obj entries).everywhere p = true) (hmem : entry ∈ entries) :
    entry.2.everywhere p = true := by
  replace h := (Bool.and_eq_true_iff.1 h).2
  induction entries with
  | nil => cases hmem
  | cons first rest ih =>
    obtain ⟨hfirst, hrest⟩ := Bool.and_eq_true_iff.1 h
    rcases List.mem_cons.1 hmem with rfl | hmem
    · exact hfirst
    · exact ih hmem hrest

/-- What holds everywhere in a value holds everywhere in what stands under its keys. -/
theorem everywhere_of_get? {j v : Json} {key : String} (h : j.everywhere p = true)
    (hv : j.get? key = some v) : v.everywhere p = true := by
  obtain ⟨entries, rfl⟩ := exists_obj_of_get? hv
  exact everywhere_of_entry h (Entries.mem_of_get? hv)

variable {q : Json → Bool}

theorem everywhere_obj_iff {entries : Entries} :
    (obj entries).everywhere q = true ↔ q (obj entries) = true ∧
      ∀ entry ∈ entries, entry.2.everywhere q = true := by
  have hentries : everywhereEntries q entries = true ↔
      ∀ entry ∈ entries, entry.2.everywhere q = true := by
    induction entries with
    | nil => simp [everywhereEntries]
    | cons entry rest ih => simp [everywhereEntries, ih]
  rw [everywhere, Bool.and_eq_true, hentries]

theorem everywhere_arr_iff {items : List Json} :
    (arr items).everywhere q = true ↔ q (arr items) = true ∧
      ∀ v ∈ items, v.everywhere q = true := by
  have hitems : everywhereItems q items = true ↔ ∀ v ∈ items, v.everywhere q = true := by
    induction items with
    | nil => simp [everywhereItems]
    | cons item rest ih => simp [everywhereItems, ih]
  rw [everywhere, Bool.and_eq_true, hitems]

/-- A test holds everywhere in a value of which something is known that it
implies, and that is known of the parts as well. -/
theorem everywhere_of_hereditary {P : Json → Prop} (self : ∀ v, P v → q v = true)
    (item : ∀ items v, P (arr items) → v ∈ items → P v)
    (entry : ∀ entries entry, P (obj entries) → entry ∈ entries → P entry.2) :
    ∀ v : Json, P v → v.everywhere q = true
  | arr items, h => everywhere_arr_iff.2 ⟨self _ h, fun v hv =>
      everywhere_of_hereditary self item entry v (item items v h hv)⟩
  | obj entries, h => everywhere_obj_iff.2 ⟨self _ h, fun (key, v) hentry =>
      everywhere_of_hereditary self item entry v (entry entries (key, v) h hentry)⟩
  | null, h | bool _, h | int _, h | double _, h | str _, h => self _ h
termination_by v => sizeOf v
decreasing_by
  · have := List.sizeOf_lt_of_mem hv
    simp only [arr.sizeOf_spec]
    omega
  · have := List.sizeOf_lt_of_mem hentry
    simp only [Prod.mk.sizeOf_spec] at this
    simp only [obj.sizeOf_spec]
    omega

/-- A test that follows from what holds everywhere holds everywhere. -/
theorem everywhere_of_everywhere (hpq : ∀ v, v.everywhere p = true → q v = true) {v : Json}
    (h : v.everywhere p = true) : v.everywhere q = true :=
  everywhere_of_hereditary hpq (fun _ _ h hv => everywhere_of_mem h hv)
    (fun _ _ h hentry => everywhere_of_entry h hentry) v h

/-- What holds of all values holds everywhere. -/
theorem everywhere_of_forall (h : ∀ v, q v = true) (v : Json) : v.everywhere q = true :=
  everywhere_of_hereditary (P := fun _ => True) (fun v _ => h v) (fun _ _ _ _ => trivial)
    (fun _ _ _ _ => trivial) v trivial

end Json

namespace Flow

/-- The value of a number literal is a number. -/
def numeralGiven (n : Json) : Bool :=
  n.kind != "NumberLiteralTypeAnnotation" ||
    match n.get? "value" with
    | some (.int _) => true
    | some (.double _) => true
    | _ => false

/-- Positions and numerals are numbers, everywhere in a node. -/
def Given (n : Json) : Prop := n.everywhere (fun n => positionsWhole n && numeralGiven n) = true

namespace Given

variable {n v : Json} {key : String}

/-- Positions are whole in what is given. -/
theorem placed (h : Given n) : positionsWhole n = true :=
  (Bool.and_eq_true_iff.1 (Json.everywhere_self h)).1

/-- A number literal has a value in what is given. -/
theorem numeral (h : Given n) : numeralGiven n = true :=
  (Bool.and_eq_true_iff.1 (Json.everywhere_self h)).2

/-- What stands under a key is given too. -/
theorem get? (h : Given n) (hv : n.get? key = some v) : Given v := Json.everywhere_of_get? h hv

/-- **A refusal at a given node is an answer.** -/
theorem refused (h : Given n) (path detail : String) :
    Result.Answers (.error (Refusal.at path n detail) : Result α) P :=
  Refusal.isUnsupported_at h.placed path detail

end Given

/-! ## Sound types -/

mutual

/-- Every node of a type has a usable place or none, and every literal holds a
value. -/
inductive Sound : FlowType → Prop
  | keyword {node : Json} (word : FlowKeyword) :
      positionsWhole node = true → Sound (.keyword node word)
  | literal {node : Json} {value : FlowLiteral} :
      positionsWhole node = true → TypeScript.isScalar (Migration.literalValue value) = true →
      Sound (.literal node value)
  | array {node : Json} {t : FlowType} :
      positionsWhole node = true → Sound t → Sound (.array node t)
  | nullable {node : Json} {t : FlowType} :
      positionsWhole node = true → Sound t → Sound (.nullable node t)
  | tuple {node : Json} {ts : List FlowType} :
      positionsWhole node = true → (∀ t ∈ ts, Sound t) → Sound (.tuple node ts)
  | union {node : Json} {ts : List FlowType} :
      positionsWhole node = true → (∀ t ∈ ts, Sound t) → Sound (.union node ts)
  | intersection {node : Json} {ts : List FlowType} :
      positionsWhole node = true → (∀ t ∈ ts, Sound t) → Sound (.intersection node ts)
  | typeof {node : Json} {t : FlowType} :
      positionsWhole node = true → Sound t → Sound (.typeof node t)
  | indexedAccess {node : Json} {object index : FlowType} :
      positionsWhole node = true → Sound object → Sound index →
      Sound (.indexedAccess node object index)
  | optionalIndexedAccess {node : Json} {object index : FlowType} :
      positionsWhole node = true → Sound (.optionalIndexedAccess node object index)
  | generic {node : Json} (id : FlowEntity) {args : Option (FlowArgs FlowType)} :
      positionsWhole node = true → (∀ as, args = some as → SoundArgs as) →
      Sound (.generic node id args)
  | function {node : Json} {params : List (FlowParam FlowType)} {result : FlowType}
      {rest thisParam : Option (FlowParam FlowType)}
      {typeParams : Option (FlowTypeParams FlowType)} :
      positionsWhole node = true → (∀ p ∈ params, Sound p.type) → Sound result →
      (∀ p, rest = some p → Sound p.type) → (∀ p, thisParam = some p → Sound p.type) →
      (∀ ps, typeParams = some ps → SoundTypeParams ps) →
      Sound (.function node params result rest thisParam typeParams)
  | object {node : Json} {members : List (FlowMember FlowType)} (exact : Bool) :
      positionsWhole node = true → (∀ m ∈ members, SoundMember m) →
      Sound (.object node members exact)

inductive SoundArgs : FlowArgs FlowType → Prop
  | intro (node : Json) {params : List FlowType} :
      (∀ t ∈ params, Sound t) → SoundArgs ⟨node, params⟩

inductive SoundTypeParam : FlowTypeParam FlowType → Prop
  | intro {node : Json} (name : String) {bound default : Option FlowType}
      (variance : Option Variance) :
      positionsWhole node = true → (∀ t, bound = some t → Sound t) →
      (∀ t, default = some t → Sound t) → SoundTypeParam ⟨node, name, bound, default, variance⟩

inductive SoundTypeParams : FlowTypeParams FlowType → Prop
  | intro (node : Json) {params : List (FlowTypeParam FlowType)} :
      (∀ p ∈ params, SoundTypeParam p) → SoundTypeParams ⟨node, params⟩

inductive SoundMember : FlowMember FlowType → Prop
  | property {node : Json} (key : Json) {value : FlowType} (traits : PropertyTraits) :
      positionsWhole node = true → Sound value → SoundMember (.property node key value traits)
  | spread (node : Json) {argument : FlowType} :
      Sound argument → SoundMember (.spread node argument)
  | indexer {node : Json} (id : Option String) {key value : FlowType} (variance : Option Variance)
      (isStatic : Bool) :
      positionsWhole node = true → Sound key → Sound value →
      SoundMember (.indexer node id key value variance isStatic)
  | callProperty {node : Json} (value : FlowType) :
      positionsWhole node = true → SoundMember (.callProperty node value)
  | internalSlot {node : Json} (id : String) :
      positionsWhole node = true → SoundMember (.internalSlot node id)

end

theorem Sound.placed {t : FlowType} (h : Sound t) : positionsWhole t.node = true := by
  cases h <;> assumption

/-! ## Parts of a node -/

variable {n : Json} (path : String)

/-- What is below a node stands under a key of it. -/
theorem get?_of_below? {key : String} {part : n.Below} (h : n.below? key = some part) :
    n.get? key = some part.1 := by
  rw [Json.below?] at h
  split at h
  next v hv =>
    obtain rfl := Option.some.inj h
    exact hv
  next => cases h

theorem get?_of_below?_none {key : String} (h : n.below? key = none) : n.get? key = none := by
  rw [Json.below?] at h
  split at h
  · cases h
  · assumption

/-- A child is given, or none is there. -/
theorem child_answers (h : Given n) (key : String) :
    Result.Answers (child path n key) fun part => ∀ p, part = some p → Given p.1 := by
  rw [child]
  split
  next => exact nofun
  next => exact nofun
  next entries hsize hbelow =>
    rintro p hp
    obtain rfl := Option.some.inj hp
    exact h.get? (get?_of_below? hbelow)
  next => exact h.refused path _

theorem nonemptyChild_answers (h : Given n) (key : String) :
    Result.Answers (nonemptyChild path n key) fun part => ∀ p, part = some p → Given p.1 := by
  refine .bind (child_answers path h key) fun part hpart => ?_
  cases part with
  | none => exact nofun
  | some part =>
    dsimp only
    split
    · exact hpart
    · exact nofun

/-- A child that has to be there is given, or the node is refused. -/
theorem required_answers (h : Given n) (key : String) :
    Result.Answers (required path n key) fun part => Given part.1 := by
  refine .bind (child_answers path h key) fun part hpart => ?_
  cases part with
  | none => exact h.refused path _
  | some part => exact hpart part rfl

/-- The children under a key are given. -/
theorem children_answers (h : Given n) (key : String) :
    Result.Answers (children path n key) fun parts => ∀ p ∈ parts, Given p.1 := by
  rw [children]
  split
  next => exact nofun
  next => exact nofun
  next items hsize hbelow =>
    intro p hp
    obtain ⟨⟨item, hmem⟩, -, hitem⟩ := List.mem_filterMap.1 hp
    dsimp only at hitem
    split at hitem
    · obtain rfl := Option.some.inj hitem
      exact Json.everywhere_of_mem (h.get? (get?_of_below? hbelow)) hmem
    · cases hitem
  next => exact h.refused path _

/-- Where every object in a list is read, all that is read is as it should be. -/
theorem children_mapM_answers (h : Given n) (key : String) {f : n.Below → Result α}
    {g : List α → Result β} {Q : β → Prop}
    (hf : ∀ part, Given part.1 → Result.Answers (f part) P)
    (hg : ∀ xs, (∀ x ∈ xs, P x) → Result.Answers (g xs) Q) :
    Result.Answers (do let parts ← children path n key; g (← parts.mapM f)) Q :=
  .bind (children_answers path h key) fun _ hparts =>
    .bind (.mapM fun part hmem => hf part (hparts part hmem)) hg

/-- A variance is read, or the node is refused. -/
theorem variance_answers (h : Given n) : Result.Answers (variance path n) fun _ => True := by
  refine .bind (child_answers path h _) fun part hpart => ?_
  cases part with
  | none => trivial
  | some part =>
    obtain ⟨mark, hsize⟩ := part
    dsimp only
    split
    · trivial
    · trivial
    · exact (hpart _ rfl).refused path _

/-- Members can be put in the order of the source, if their positions can be read. -/
theorem inSourceOrder_answers {place : α → Result (Int × Int)} {members : List α}
    (h : ∀ m ∈ members, ∃ spot, place m = .ok spot) :
    Result.Answers (inSourceOrder place members) fun sorted => ∀ m ∈ sorted, m ∈ members := by
  have hplaced : Result.Answers (members.mapM fun m => do return (← place m, m))
      fun placed => ∀ m ∈ placed, m.2 ∈ members := by
    refine .mapM fun m hm => ?_
    obtain ⟨spot, hspot⟩ := h m hm
    rw [hspot]
    exact hm
  refine .bind hplaced fun placed hmem => .pure fun m hm => ?_
  obtain ⟨p, hp, rfl⟩ := List.mem_map.1 hm
  exact hmem p (List.mem_mergeSort.1 hp)

/-- Whole positions can be read. -/
theorem exists_sourceOrder (h : positionsWhole n = true) : ∃ spot, sourceOrder n = .ok spot := by
  obtain ⟨l, hl⟩ := Location.exists_ofNode? h ""
  rw [sourceOrder, hl]
  cases l with
  | none => exact ⟨(0, 0), rfl⟩
  | some l => exact ⟨(l.start.line, l.start.column), rfl⟩

/-! ## Types -/

/-- A name is read, or the node is refused. -/
theorem decodeEntity_answers (n : Json) (h : Given n) :
    Result.Answers (decodeEntity path n) fun _ => True := by
  rw [decodeEntity]
  split
  · trivial
  · split
    · refine .bind (required_answers path h _) fun ⟨q, _⟩ hq => ?_
      refine .bind (decodeEntity_answers q hq) fun _ _ => ?_
      refine .bind (required_answers path h _) fun ⟨id, _⟩ hid => ?_
      refine .bind (decodeEntity_answers id hid) fun e _ => ?_
      cases e with
      | name => trivial
      | qualified => exact h.refused path _
    · exact h.refused path _
termination_by sizeOf n

/-- A kind is found by its own name. -/
theorem name_of_ofName? {kind : FlowKind} {s : String} (h : FlowKind.ofName? s = some kind) :
    kind.name = s := by
  simpa using List.find?_some h

/-- The value of a number literal is no list and no object. -/
theorem numeral_isScalar (h : Given n) (hkind : n.kind = "NumberLiteralTypeAnnotation") :
    TypeScript.isScalar ((n.get? "value").getD .null) = true := by
  have hnumeral := h.numeral
  rw [numeralGiven, hkind] at hnumeral
  simp only [bne_self_eq_false, Bool.false_or] at hnumeral
  split at hnumeral
  next hv => rw [hv]; rfl
  next hv => rw [hv]; rfl
  next => cases hnumeral

mutual

/-- **Every given node is read as a sound type, or refused.** -/
theorem decodeType_answers (n : Json) (h : Given n) :
    Result.Answers (decodeType path n) Sound := by
  rw [decodeType]
  split
  next => exact h.refused path _
  next word _ => exact .keyword word h.placed
  next => exact .literal h.placed rfl
  next hkind => exact .literal h.placed (numeral_isScalar h (name_of_ofName? hkind).symm)
  next => exact .literal h.placed rfl
  next =>
    refine .bind (required_answers path h _) fun ⟨part, _⟩ hpart => ?_
    exact .bind (decodeType_answers part hpart) fun t ht => .array h.placed ht
  next =>
    refine .bind (required_answers path h _) fun ⟨part, _⟩ hpart => ?_
    exact .bind (decodeType_answers part hpart) fun t ht => .nullable h.placed ht
  next =>
    exact children_mapM_answers path h _ (fun ⟨part, _⟩ hpart => decodeType_answers part hpart)
      fun ts hts => .tuple h.placed hts
  next =>
    exact children_mapM_answers path h _ (fun ⟨part, _⟩ hpart => decodeType_answers part hpart)
      fun ts hts => .union h.placed hts
  next =>
    exact children_mapM_answers path h _ (fun ⟨part, _⟩ hpart => decodeType_answers part hpart)
      fun ts hts => .intersection h.placed hts
  next =>
    refine .bind (required_answers path h _) fun ⟨part, _⟩ hpart => ?_
    dsimp only
    split
    · refine .bind (decodeEntity_answers path part hpart) fun e _ => ?_
      exact .typeof h.placed (.generic e hpart.placed nofun)
    · exact .bind (decodeType_answers part hpart) fun t ht => .typeof h.placed ht
  next =>
    refine .bind (required_answers path h _) fun ⟨object, _⟩ hobject => ?_
    refine .bind (decodeType_answers object hobject) fun object hobject => ?_
    refine .bind (required_answers path h _) fun ⟨index, _⟩ hindex => ?_
    refine .bind (decodeType_answers index hindex) fun index hindex => ?_
    exact .indexedAccess h.placed hobject hindex
  next =>
    refine .bind (required_answers path h _) fun ⟨object, _⟩ hobject => ?_
    refine .bind (decodeType_answers object hobject) fun object _ => ?_
    refine .bind (required_answers path h _) fun ⟨index, _⟩ hindex => ?_
    exact .bind (decodeType_answers index hindex) fun index _ => .optionalIndexedAccess h.placed
  next =>
    refine .bind (required_answers path h _) fun ⟨id, _⟩ hid => ?_
    refine .bind (decodeEntity_answers path id hid) fun id _ => ?_
    refine .bind (child_answers path h _) fun args hargs => ?_
    match args with
    | none => exact .generic id h.placed nofun
    | some ⟨args, _⟩ =>
      refine .bind (decodeArgs_answers args (hargs _ rfl)) fun as has => ?_
      exact .generic id h.placed fun _ heq => Option.some.inj heq ▸ has
  next =>
    refine .bind (nonemptyChild_answers path h _) fun rest hrest => ?_
    refine .bind (nonemptyChild_answers path h _) fun thisParam hthis => ?_
    refine children_mapM_answers path h _
      (fun ⟨part, _⟩ hpart => decodeParam_answers part hpart) fun params hparams => ?_
    refine .bind (required_answers path h _) fun ⟨result, _⟩ hresult => ?_
    refine .bind (decodeType_answers result hresult) fun result hresult => ?_
    -- What follows the reading of `rest` and of `this` is the same whether they are
    -- there or not, so it is dealt with once.
    extract_lets withRest
    have hrest' : ∀ rest, (∀ p, rest = some p → Sound p.type) →
        Result.Answers (withRest rest) Sound := by
      intro rest hrest
      dsimp -zeta only [withRest]
      extract_lets withThis
      have hthis' : ∀ thisParam, (∀ p, thisParam = some p → Sound p.type) →
          Result.Answers (withThis thisParam) Sound := by
        intro thisParam hthis
        refine .bind (child_answers path h _) fun typeParams htypeParams => ?_
        match typeParams with
        | none => exact .function h.placed hparams hresult hrest hthis nofun
        | some ⟨part, _⟩ =>
          refine .bind (decodeTypeParams_answers part (htypeParams _ rfl)) fun ps hps => ?_
          exact .function h.placed hparams hresult hrest hthis
            fun _ heq => Option.some.inj heq ▸ hps
      match thisParam with
      | none => exact hthis' none nofun
      | some ⟨part, _⟩ =>
        refine .bind (.map (decodeParam_answers part (hthis _ rfl)) fun q hq => ?_) hthis'
        exact fun _ heq => Option.some.inj heq ▸ hq
    match rest with
    | none => exact hrest' none nofun
    | some ⟨part, _⟩ =>
      refine .bind (.map (decodeParam_answers part (hrest _ rfl)) fun q hq => ?_) hrest'
      exact fun _ heq => Option.some.inj heq ▸ hq
  next =>
    refine .bind (children_answers path h _) fun properties hproperties => ?_
    refine .bind (children_answers path h _) fun indexers hindexers => ?_
    refine .bind (children_answers path h _) fun calls hcalls => ?_
    refine .bind (children_answers path h _) fun slots hslots => ?_
    have hall : ∀ m ∈ properties ++ indexers ++ calls ++ slots, Given m.1 := by
      simp only [List.forall_mem_append]
      exact ⟨⟨⟨hproperties, hindexers⟩, hcalls⟩, hslots⟩
    -- Sorting asks for the place of every member, which is where positions matter.
    refine .bind (inSourceOrder_answers fun m hm => exists_sourceOrder (hall m hm).placed)
      fun sorted hsorted => ?_
    refine .bind (.mapM fun ⟨m, _⟩ hmem => decodeMember_answers m (hall _ (hsorted _ hmem)))
      fun members hmembers => ?_
    exact .object _ h.placed hmembers
termination_by sizeOf n

/-- So are type arguments. -/
theorem decodeArgs_answers (n : Json) (h : Given n) :
    Result.Answers (decodeArgs path n) SoundArgs := by
  rw [decodeArgs]
  exact children_mapM_answers path h _ (fun ⟨part, _⟩ hpart => decodeType_answers part hpart)
    fun ts hts => .intro n hts
termination_by sizeOf n

/-- So are lists of type parameters. -/
theorem decodeTypeParams_answers (n : Json) (h : Given n) :
    Result.Answers (decodeTypeParams path n) SoundTypeParams := by
  rw [decodeTypeParams]
  exact children_mapM_answers path h _
    (fun ⟨part, _⟩ hpart => decodeTypeParam_answers part hpart) fun ps hps => .intro n hps
termination_by sizeOf n

/-- So are type parameters. -/
theorem decodeTypeParam_answers (n : Json) (h : Given n) :
    Result.Answers (decodeTypeParam path n) SoundTypeParam := by
  rw [decodeTypeParam]
  refine .bind (nonemptyChild_answers path h _) fun bound hbound => ?_
  refine .bind (nonemptyChild_answers path h _) fun default hdefault => ?_
  -- As for functions: once for a parameter with a bound and for one without.
  extract_lets withBound
  have hbound' : ∀ bound, (∀ t, bound = some t → Sound t) →
      Result.Answers (withBound bound) SoundTypeParam := by
    intro bound hbound
    dsimp -zeta only [withBound]
    extract_lets withDefault
    have hdefault' : ∀ default, (∀ t, default = some t → Sound t) →
        Result.Answers (withDefault default) SoundTypeParam := fun default hdefault =>
      .bind (variance_answers path h) fun variance _ =>
        .intro _ variance h.placed hbound hdefault
    match default with
    | none => exact hdefault' none nofun
    | some ⟨part, _⟩ =>
      refine .bind (.map (decodeType_answers part (hdefault _ rfl)) fun t ht => ?_) hdefault'
      exact fun _ heq => Option.some.inj heq ▸ ht
  match bound with
  | none => exact hbound' none nofun
  | some ⟨bound, _⟩ =>
    -- The bound stands inside an annotation.
    refine .bind (required_answers path (hbound _ rfl) _) fun ⟨part, _⟩ hpart => ?_
    refine .bind (.map (decodeType_answers part hpart) fun t ht => ?_) hbound'
    exact fun _ heq => Option.some.inj heq ▸ ht
termination_by sizeOf n

/-- So are parameters. -/
theorem decodeParam_answers (n : Json) (h : Given n) :
    Result.Answers (decodeParam path n) fun p => Sound p.type := by
  rw [decodeParam]
  refine .bind (nonemptyChild_answers path h _) fun name _ => ?_
  refine .bind (required_answers path h _) fun ⟨part, _⟩ hpart => ?_
  exact .bind (decodeType_answers part hpart) fun t ht => ht
termination_by sizeOf n

/-- So are members of an object type. -/
theorem decodeMember_answers (n : Json) (h : Given n) :
    Result.Answers (decodeMember path n) SoundMember := by
  rw [decodeMember]
  split
  · refine .bind (required_answers path h _) fun ⟨key, _⟩ _ => ?_
    refine .bind (required_answers path h _) fun ⟨value, _⟩ hvalue => ?_
    refine .bind (decodeType_answers value hvalue) fun value hvalue => ?_
    exact .bind (variance_answers path h) fun _ _ => .property key _ h.placed hvalue
  split
  · refine .bind (required_answers path h _) fun ⟨argument, _⟩ hargument => ?_
    exact .bind (decodeType_answers argument hargument) fun _ ht => .spread n ht
  split
  · refine .bind (nonemptyChild_answers path h _) fun id _ => ?_
    refine .bind (required_answers path h _) fun ⟨key, _⟩ hkey => ?_
    refine .bind (decodeType_answers key hkey) fun key hkey => ?_
    refine .bind (required_answers path h _) fun ⟨value, _⟩ hvalue => ?_
    refine .bind (decodeType_answers value hvalue) fun value hvalue => ?_
    exact .bind (variance_answers path h) fun variance _ =>
      .indexer _ variance _ h.placed hkey hvalue
  split
  · refine .bind (required_answers path h _) fun ⟨value, _⟩ hvalue => ?_
    exact .bind (decodeType_answers value hvalue) fun value _ => .callProperty value h.placed
  split
  · exact .bind (required_answers path h _) fun ⟨id, _⟩ _ => .internalSlot _ h.placed
  · exact h.refused path _
termination_by sizeOf n

end

end Flow

end Retype
