import Retype.Proofs.Flow.Order
import Retype.Proofs.Migration.Absorbing
import Retype.Proofs.Migration.Due
/-!
# The members of an object type

What an object type becomes can be read back as what its members become, one
each and in their order (`objectParts`). A spread and an indexer with another
key than a string or a number interrupt a literal; between two interruptions
there is one literal with all the members that stand there (`Gathered`).
Together with the order in which members are read, this is the order of the
source (`object_in_source_order`). The read-only marker of a member is on what
is written for it, unless that is a helper type (`read_only_kept`).
-/

namespace Retype

/-- Whether a member is a property, other than a method, or an indexer, and may
only be read. -/
def FlowMember.isReadOnly {τ : Type} : FlowMember τ → Bool
  | property _ _ _ traits => !traits.method && traits.variance = some .plus
  | indexer _ _ _ _ variance _ => variance = some .plus
  | _ => false

namespace Migration

open TypeScript (node encode encodeMember encodeMembers)

variable (c : TypeContext)

/-! ## What a member becomes -/

/-- What a member becomes: a member of a literal, or a type of its own if it is
a spread or an indexer whose key is neither a string nor a number. -/
inductive MemberBecomes : FlowMember FlowType → ObjectPart → Prop
  | property {n key : Json} {value : FlowType} {traits : PropertyTraits} {u : TsType}
      (plain : traits.method = false) (value' : (migrate c value).result = .ok u) :
      MemberBecomes (.property n key value traits)
        (.member (.property (some n) key u (!key.hasText "type" "Identifier") traits.optional
          (traits.variance = some .plus)))
  | method {n key : Json} {value : FlowType} {traits : PropertyTraits} {origin : Option Json}
      {signature : TsSignature TsType} (method : traits.method = true)
      (value' : (migrate c value).result = .ok (.function origin signature)) :
      MemberBecomes (.property n key value traits)
        (.member (.method (some n) key signature (!key.hasText "type" "Identifier")
          traits.optional))
  | spread {n : Json} {argument : FlowType} {u : TsType}
      (argument' : (migrate c argument).result = .ok u) :
      MemberBecomes (.spread n argument) (.type (.parenthesized (some n) u))
  | index {n : Json} {name : Option String} {key value : FlowType} {variance : Option Variance}
      {isStatic : Bool} {k u : TsType} (key' : (migrate c key).result = .ok k)
      (value' : (migrate c value).result = .ok u) (indexable : isIndexable k = true) :
      MemberBecomes (.indexer n name key value variance isStatic)
        (.member (.index (some n) (paramName name "key") k u (variance = some .plus)))
  | map {n : Json} {name : Option String} {key value : FlowType} {variance : Option Variance}
      {isStatic : Bool} {k u : TsType} (key' : (migrate c key).result = .ok k)
      (value' : (migrate c value).result = .ok u) (other : isIndexable k = false) :
      MemberBecomes (.indexer n name key value variance isStatic)
        (.type (helperType c "ObjectMap" (some ⟨none, [k, u]⟩)))

/-- **What each kind of member becomes.** -/
theorem migrateMember_becomes (m : FlowMember FlowType) :
    (migrateMember c m).Yields (MemberBecomes c m) := by
  cases m with
  | property n key value traits =>
    refine .bind (.trivial _ fun _ => .bind fun u hu => .bind ?_)
    unfold propertyMember
    refine .ite (fun hmethod => ?_) fun hplain =>
      .pure (.pure (.property (by simpa using hplain) hu))
    split
    next => exact .pure (.pure (.method hmethod hu))
    next => exact .refuse _
  | spread n argument => exact .bind fun u hu => .pure (.spread hu)
  | indexer n id key value variance isStatic =>
    refine .first (.first (.bind fun k hk => .bind fun u hu => .pure ?_))
    rw [indexerPart]
    split
    next hindexable => exact .index hk hu hindexable
    next hother => exact .map hk hu (by simpa using hother)
  | callProperty n value => exact .refuse _
  | internalSlot n id => exact .refuse _

/-- A member becomes a single part. -/
theorem MemberBecomes.isSingle {m : FlowMember FlowType} {p : ObjectPart}
    (h : MemberBecomes c m p) : p.IsSingle := by
  cases h with
  | property | method | index => trivial
  | spread | map => exact ⟨rfl, rfl⟩

/-- A relation of each member to its part is one of the lists. -/
theorem migrateMembers_related {R : FlowMember FlowType → ObjectPart → Prop}
    {members : List (FlowMember FlowType)} (h : ∀ m ∈ members, (migrateMember c m).Yields (R m)) :
    (migrateMembers c members).Yields (List.Forall₂ R members) := by
  induction members with
  | nil => exact .pure .nil
  | cons m rest ih =>
    rw [List.forall_mem_cons] at h
    exact .bind (h.1.mono fun p hp => .bind ((ih h.2).mono fun ps hps => .pure (.cons hp hps)))

/-- An object type becomes what its members become, gathered. -/
theorem migrate_object (n : Json) (members : List (FlowMember FlowType)) (exact : Bool) :
    (migrate c (.object n members exact)).Yields fun u => ∃ parts t,
      List.Forall₂ (MemberBecomes c) members parts ∧ Gathered parts t ∧ u = t.withOrigin n := by
  refine .bind ((migrateMembers_related c fun m _ => migrateMember_becomes c m).mono
    fun parts hparts => .pure ⟨parts, objectOfParts parts, hparts, ?_, rfl⟩)
  refine objectOfParts_gathered fun p hp => ?_
  obtain ⟨m, -, hm⟩ := Entries.exists_of_forall₂ hparts hp
  exact hm.isSingle

/-- **Object types keep their members in the order of the source.** The members
that are read are those that are stored, sorted by line and column, and in the
order of the four lists where these are the same. What the type becomes can be
read back as what the members become, one each and in that order. -/
theorem object_in_source_order {n : Json} (hkind : n.kind = "ObjectTypeAnnotation") :
    Result.Yields (Flow.decodeType c.path n) fun t => ∃ members exact,
      t = .object n members exact ∧ Flow.MembersRead c.path n members ∧
        (migrate c t).Yields fun u => ∃ parts v,
          List.Forall₂ (MemberBecomes c) members parts ∧ Gathered parts v ∧
            u = v.withOrigin n := by
  have hobject : FlowKind.ofName? n.kind = some .object := by
    rw [hkind]
    decide
  refine (Flow.decodeType_members c.path hobject).mono ?_
  rintro _ ⟨members, exact, rfl, hread⟩
  exact ⟨members, exact, rfl, hread, migrate_object c n members exact⟩

/-- A node with some fields, at the beginning of a line. -/
def nodeOnLine (line : Int) (kind : String) (fields : Entries) : Json :=
  let spot := Json.obj [("line", .int line), ("column", .int 0)]
  node kind (("loc", .obj [("start", spot), ("end", spot)]) :: fields)

/-- `a: string`, on the second line. -/
def laterProperty : Json :=
  nodeOnLine 2 "ObjectTypeProperty"
    [("key", TypeScript.identifier "a" []), ("value", node "StringTypeAnnotation" [])]

/-- `[symbol]: string`, on the first line. -/
def earlierIndexer : Json :=
  nodeOnLine 1 "ObjectTypeIndexer"
    [("key", node "SymbolTypeAnnotation" []), ("value", node "StringTypeAnnotation" [])]

/-- An object type whose indexer stands before its property. -/
def mixedObject : Json :=
  node "ObjectTypeAnnotation"
    [("properties", .arr [laterProperty]), ("indexers", .arr [earlierIndexer])]

def mixedMembers : List (FlowMember FlowType) :=
  [.indexer earlierIndexer none (.keyword (node "SymbolTypeAnnotation" []) .symbol)
      (.keyword (node "StringTypeAnnotation" []) .string) none false,
    .property laterProperty (TypeScript.identifier "a" [])
      (.keyword (node "StringTypeAnnotation" []) .string)
        ⟨false, none, false, "init", false, false⟩]

/-- Two members in the wrong order are exchanged. -/
theorem inSourceOrder_swapped {α : Type} {f : α → Result (Int × Int)} {p q : α}
    (hp : f p = .ok (2, 0)) (hq : f q = .ok (1, 0)) :
    Flow.inSourceOrder f [p, q] = .ok [q, p] := by
  simp [Flow.inSourceOrder, hp, hq, List.mergeSort, List.MergeSort.Internal.splitInTwo, pure, bind,
    Except.bind, Except.pure]

/-- An object with a property and an indexer is read as such. -/
theorem decodeType_mixedObject :
    Flow.decodeType "a.js" mixedObject = .ok (.object mixedObject mixedMembers false) := by
  have hkind : FlowKind.ofName? mixedObject.kind = some .object := by decide +kernel
  have hproperties : Flow.children "a.js" mixedObject "properties" =
      .ok [⟨laterProperty, by decide⟩] := by with_unfolding_all rfl
  have hindexers : Flow.children "a.js" mixedObject "indexers" =
      .ok [⟨earlierIndexer, by decide⟩] := by with_unfolding_all rfl
  have hcalls : Flow.children "a.js" mixedObject "callProperties" = .ok [] := by
    with_unfolding_all rfl
  have hslots : Flow.children "a.js" mixedObject "internalSlots" = .ok [] := by
    with_unfolding_all rfl
  have hspot (line : Int) (kind : String) (fields : Entries) :
      Flow.sourceOrder (nodeOnLine line kind fields) = .ok (line, 0) := by with_unfolding_all rfl
  -- the sort does not evaluate, all else does
  have hsorted := inSourceOrder_swapped (f := fun m : mixedObject.Below => Flow.sourceOrder m.1)
    (p := ⟨laterProperty, by decide⟩) (q := ⟨earlierIndexer, by decide⟩) (hspot ..) (hspot ..)
  rw [Flow.decodeType, hkind]
  simp only [hproperties, hindexers, hcalls, hslots, Result.ok_bind, List.cons_append,
    List.nil_append, List.append_nil]
  rw [hsorted]
  with_unfolding_all rfl

/-- Its parts stand in the order of the source. -/
theorem object_in_source_order_mixed : mixedObject.kind = "ObjectTypeAnnotation" ∧
    Flow.decodeType "a.js" mixedObject = .ok (.object mixedObject mixedMembers false) ∧
    Flow.MembersRead "a.js" mixedObject mixedMembers ∧
    ∃ u, (migrate ⟨"a.js", "h"⟩ (.object mixedObject mixedMembers false)).result = .ok u ∧
      ∃ parts v, List.Forall₂ (MemberBecomes ⟨"a.js", "h"⟩) mixedMembers parts ∧
        Gathered parts v ∧ u = v.withOrigin mixedObject := by
  have hkind : mixedObject.kind = "ObjectTypeAnnotation" := by decide
  have hread := decodeType_mixedObject
  obtain ⟨members, exact, heq, hmembers, hbecomes⟩ :=
    object_in_source_order ⟨"a.js", "h"⟩ hkind _ hread
  obtain ⟨-, rfl, rfl⟩ := FlowType.object.inj heq
  exact ⟨hkind, hread, hmembers, _, rfl, hbecomes _ rfl⟩

/-! ## What is written for a member -/

/-- What is written for a part. -/
def encodePart : ObjectPart → Json
  | .member m => encodeMember m
  | .type t => encode t

/-- The nodes that are written for the members of an object type, given the
node of the type. -/
def writtenMembers (n : Json) : List Json :=
  (if n.hasText "type" "TSIntersectionType" then n.itemsAt "types" else [n]).flatMap fun part =>
    if part.hasText "type" "TSTypeLiteral" then part.itemsAt "members" else [part]

/-- Members are written one by one. -/
theorem encodeMembers_eq_map (ms : List (TsMember TsType)) :
    encodeMembers ms = ms.map encodeMember := by
  induction ms with
  | nil => rfl
  | cons m ms ih => rw [encodeMembers, ih, List.map_cons]

/-- The conjuncts of a type are written one by one. -/
theorem written_conjuncts (t : TsType) :
    (if (encode t).hasText "type" "TSIntersectionType" then (encode t).itemsAt "types"
      else [encode t]) = t.conjuncts.map encode := by
  cases t with
  | intersection origin types =>
    have hitems : (encode (.intersection origin types)).itemsAt "types" = types.map encode := by
      rw [encode, Json.itemsAt, get?_inheritOption_ne (by decide), ← TypeScript.encodeAll_eq_map]
      rfl
    rw [hitems, encode, hasText_of_kind (get?_type_inheritOption ..)]
    rfl
  | keyword origin word =>
    rw [encode, hasText_of_kind (get?_type_inheritOption ..)]
    cases word <;> rfl
  | _ =>
    rw [encode, hasText_of_kind (get?_type_inheritOption ..)]
    rfl

/-- So are the parts of an object. -/
theorem written_laidOut (t : TsType) :
    (if (encode t).hasText "type" "TSTypeLiteral" then (encode t).itemsAt "members"
      else [encode t]) = (laidOut t).map encodePart := by
  cases t with
  | typeLiteral origin members =>
    have hitems : (encode (.typeLiteral origin members)).itemsAt "members" =
        members.map encodeMember := by
      rw [encode, Json.itemsAt, get?_inheritOption_ne (by decide), ← encodeMembers_eq_map]
      rfl
    rw [hitems, encode, hasText_of_kind (get?_type_inheritOption ..), laidOut, List.map_map]
    rfl
  | keyword origin word =>
    rw [encode, hasText_of_kind (get?_type_inheritOption ..)]
    cases word <;> rfl
  | _ =>
    rw [encode, hasText_of_kind (get?_type_inheritOption ..)]
    rfl

/-- What is written for the members is what is written for the parts. -/
theorem writtenMembers_encode (t : TsType) :
    writtenMembers (encode t) = (objectParts t).map encodePart := by
  rw [writtenMembers, written_conjuncts, objectParts, List.flatMap_map, List.map_flatMap]
  exact congrArg (t.conjuncts.flatMap ·) (funext written_laidOut)

/-- What is written for a member of an object type. A type that is all that
the members became takes the place of the object type, and comes from another
node then. -/
inductive MemberWritten (members : List (FlowMember FlowType)) : FlowMember FlowType → Json → Prop
  | part {m : FlowMember FlowType} {p : ObjectPart} (becomes : MemberBecomes c m p) :
      MemberWritten members m (encodePart p)
  | alone {m : FlowMember FlowType} {t : TsType} (becomes : MemberBecomes c m (.type t))
      (only : members = [m]) (origin : Json) :
      MemberWritten members m (encode (t.withOrigin origin))

/-- A type with another origin has the same parts, unless it is a part itself. -/
theorem objectParts_withOrigin (t : TsType) (n : Json) :
    objectParts (t.withOrigin n) = objectParts t ∨
      objectParts t = [.type t] ∧ objectParts (t.withOrigin n) = [.type (t.withOrigin n)] := by
  cases t with
  | intersection | typeLiteral => exact .inl rfl
  | _ => exact .inr ⟨rfl, rfl⟩

/-- What is written for an object type, whichever node it comes from. -/
theorem Gathered.written {members : List (FlowMember FlowType)} {parts : List ObjectPart}
    {t : TsType} (hparts : List.Forall₂ (MemberBecomes c) members parts) (h : Gathered parts t)
    (n : Json) :
    List.Forall₂ (MemberWritten c members) members (writtenMembers (encode (t.withOrigin n))) := by
  rw [writtenMembers_encode]
  rcases objectParts_withOrigin t n with hsame | ⟨hone, halone⟩
  · rw [hsame, h.reading, List.forall₂_map_right_iff]
    exact hparts.imp fun _ _ hbecomes => .part hbecomes
  · rw [halone]
    rw [← h.reading, hone, List.forall₂_cons_right_iff] at hparts
    obtain ⟨m, rest, hm, hrest, rfl⟩ := hparts
    obtain rfl := List.forall₂_nil_right_iff.1 hrest
    exact .cons (.alone hm rfl n) .nil

/-! ## The read-only marker -/

/-- A member is an indexer whose key becomes neither a string nor a number. -/
inductive HasOtherKey : FlowMember FlowType → Prop
  | intro {n : Json} {name : Option String} {key value : FlowType} {variance : Option Variance}
      {isStatic : Bool} {k : TsType} (key' : (migrate c key).result = .ok k)
      (other : isIndexable k = false) : HasOtherKey (.indexer n name key value variance isStatic)

/-- Whether a node is marked as one that may only be read. -/
def isMarkedReadOnly (n : Json) : Prop := n.get? "readonly" = some (.bool true)

/-- A part is marked `readonly` when its member is and its key can say so. -/
theorem isMarkedReadOnly_part {m : FlowMember FlowType} {p : ObjectPart}
    (h : MemberBecomes c m p) :
    isMarkedReadOnly (encodePart p) ↔ m.isReadOnly = true ∧ ¬ HasOtherKey c m := by
  cases h with
  | @property n key value traits u plain value' =>
    have hkey : ¬ HasOtherKey c (.property n key value traits) := nofun
    rw [isMarkedReadOnly, encodePart, encodeMember, get?_inheritOption_ne (by decide)]
    by_cases hplus : traits.variance = some .plus <;>
      simp [FlowMember.isReadOnly, plain, hplus, hkey, node, Json.get?, Entries.get?]
  | @method n key value traits origin signature method value' =>
    obtain ⟨params, result, typeParams⟩ := signature
    rw [isMarkedReadOnly, encodePart, encodeMember, get?_inheritOption_ne (by decide)]
    simp [FlowMember.isReadOnly, method, node, Json.get?, Entries.get?]
  | spread argument' =>
    rw [isMarkedReadOnly, encodePart, encode, get?_inheritOption_ne (by decide)]
    simp [FlowMember.isReadOnly, node, Json.get?, Entries.get?]
  | @index n name key value variance isStatic k u key' value' indexable =>
    have hkey : ¬ HasOtherKey c (.indexer n name key value variance isStatic) := by
      rintro ⟨hk, hother⟩
      obtain rfl := Except.ok.inj (key'.symm.trans hk)
      rw [indexable] at hother
      cases hother
    rw [isMarkedReadOnly, encodePart, encodeMember, get?_inheritOption_ne (by decide)]
    rw [iff_true_intro hkey, and_true]
    by_cases hplus : variance = some .plus <;>
      simp [FlowMember.isReadOnly, hplus, node, Json.get?, Entries.get?]
  | @map n name key value variance isStatic k u key' value' other =>
    have hkey : HasOtherKey c (.indexer n name key value variance isStatic) := .intro key' other
    rw [isMarkedReadOnly, encodePart, helperType, encode, get?_inheritOption_ne (by decide)]
    simp [hkey, node, Json.get?, Entries.get?]

/-- An origin changes no key but the inherited ones. -/
theorem get?_encode_withOrigin (t : TsType) (origin : Json) {key : String}
    (hkey : key ∉ Json.inheritedKeys) :
    (encode (t.withOrigin origin)).get? key = (encode t).get? key := by
  cases t with
  | function o s =>
    obtain ⟨params, result, typeParams⟩ := s
    simp only [TsType.withOrigin, encode, get?_inheritOption_ne hkey]
  | _ => simp only [TsType.withOrigin, encode, get?_inheritOption_ne hkey]

/-- **The read-only marker is kept** on what is written for each member, and on
nothing else, unless the member becomes a helper type. -/
theorem read_only_kept (n : Json) (members : List (FlowMember FlowType)) (exact : Bool) :
    (migrate c (.object n members exact)).Yields fun u =>
      List.Forall₂ (fun m written => isMarkedReadOnly written ↔
        m.isReadOnly = true ∧ ¬ HasOtherKey c m) members (writtenMembers (encode u)) := by
  refine (migrate_object c n members exact).mono ?_
  rintro _ ⟨parts, t, hparts, hgathered, rfl⟩
  refine (hgathered.written c hparts n).imp fun m written hwritten => ?_
  cases hwritten with
  | part becomes => exact isMarkedReadOnly_part c becomes
  | alone becomes only origin =>
    rw [← isMarkedReadOnly_part c becomes, isMarkedReadOnly, isMarkedReadOnly, encodePart,
      get?_encode_withOrigin _ _ (by decide)]

/-- `+[UserId]: string` -/
def readOnlyIndexer : FlowMember FlowType :=
  .indexer .null none (.generic .null (.name ⟨.null, "UserId"⟩) none) (.keyword .null .string)
    (some .plus) false

/-- The helper type for a read-only indexer is not marked, and nothing is found. -/
theorem read_only_marker_lost : readOnlyIndexer.isReadOnly = true ∧
    ∃ u, migrate ⟨"a.js", "h"⟩ (.object .null [readOnlyIndexer] false) = ⟨[], .ok u⟩ ∧
      (writtenMembers (encode u)).map (·.get? "readonly") = [none] :=
  ⟨rfl, _, rfl, rfl⟩

end Migration

end Retype
