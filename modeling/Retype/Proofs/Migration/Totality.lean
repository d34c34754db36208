import Retype.Migration.Part
import Retype.Migration.Tree
import Retype.Proofs.Flow.Decoding
import Retype.Proofs.Migration.Gathering
/-!
# The rewriting of types is total

Every sound type becomes a type whose literals hold values, or is refused as a
construct that is not supported; there is one lemma for each way of building a
type. With what holds of reading and of writing, a node of a type becomes a
node that the grammar generates, or is refused so (`rewritten_generated`).
-/

namespace Retype

variable {α β : Type} {P Q : α → Prop}

/-- A recorded result is as it should be, or a construct is not supported. -/
def Recorded.Answers (x : Recorded α) (P : α → Prop) : Prop := Result.Answers x.result P

namespace Recorded.Answers

/-- A value that has the property is an answer with it. -/
theorem pure {a : α} (h : P a) : Recorded.Answers (Pure.pure a) P := h

/-- A result that answers is a recorded step that answers. -/
theorem ofResult {r : Result α} (h : Result.Answers r P) :
    Recorded.Answers (Recorded.ofResult r) P := h

/-- Noting a finding always answers. -/
theorem note (f : Finding) : Recorded.Answers (Recorded.note f) fun _ => True := trivial

/-- Steps that answer one after the other answer together. -/
theorem bind {x : Recorded α} {f : α → Recorded β} {Q : β → Prop} (h : Recorded.Answers x P)
    (hf : ∀ a, P a → Recorded.Answers (f a) Q) : Recorded.Answers (x >>= f) Q := by
  obtain ⟨findings, result⟩ := x
  cases result with
  | ok a => exact hf a h
  | error e => exact h

/-- The image of an answer is an answer. -/
theorem map {x : Recorded α} {f : α → β} {Q : β → Prop} (h : Recorded.Answers x P)
    (hf : ∀ a, P a → Q (f a)) : Recorded.Answers (f <$> x) Q := by
  rw [map_eq_pure_bind]
  exact bind h fun a ha => pure (hf a ha)

/-- A choice between two steps that answer answers. -/
theorem ite {c : Prop} [Decidable c] {x y : Recorded α} (hx : x.Answers P) (hy : y.Answers P) :
    Recorded.Answers (if c then x else y) P := by
  split
  · exact hx
  · exact hy

/-- What is done first only under a condition. -/
theorem first {c : Prop} [Decidable c] {x : Recorded Unit} {f : Unit → Recorded α}
    (hx : x.Answers fun _ => True) (hf : (f ()).Answers P) :
    Recorded.Answers (if c then x >>= f else f ()) P :=
  ite (bind hx fun _ _ => hf) hf

end Recorded.Answers

namespace Migration

open Retype.Flow (Sound SoundArgs SoundTypeParam SoundTypeParams SoundMember Given)
open TypeScript (Valued ValuedArgs ValuedTypeParam ValuedTypeParams ValuedSignature ValuedMember)

variable (c : TypeContext)

/-! ## Findings and refusals -/

/-- Noting a place answers when the node's positions are whole numbers. -/
theorem notePlace_answers (category : PlaceCategory) {node : Json}
    (h : positionsWhole node = true) : (notePlace c category node).Answers fun _ => True := by
  obtain ⟨l, hl⟩ := Location.exists_ofNode? h c.path
  refine .bind (P := fun _ => True) (.ofResult ?_) fun location _ => .note _
  rw [Location.ofNodeOrRefuse, Location.ofNode, hl]
  trivial

/-- A refusal at a node whose positions are whole is `Unsupported`, which is an answer
too. -/
theorem refuseAt_answers {node : Json} (h : positionsWhole node = true) (detail : String) :
    (refuseAt c node detail : Recorded α).Answers P :=
  Refusal.isUnsupported_at h c.path detail

/-! ## References and unions -/

/-- An alias of `any` carries the arguments it was given. -/
theorem anyAlias_answers (a : AnyAlias) {args : Option (TsArgs TsType)}
    (h : ∀ as, args = some as → ValuedArgs as) : (anyAlias a args).Answers Valued :=
  .bind (.note _) fun _ _ => .pure (.reference none _ h)

/-- One valued type is a valued list of arguments. -/
theorem valuedArgs_singleton {t : TsType} (h : Valued t) : ValuedArgs ⟨none, [t]⟩ :=
  .intro none (by simpa using h)

/-- A reference with valued arguments becomes a valued type. -/
theorem migrateReference_answers (name : TsEntity) {args : Option (TsArgs TsType)}
    (h : ∀ as, args = some as → ValuedArgs as) : (migrateReference c name args).Answers Valued := by
  -- The rules that replace a reference by its arguments take them from here.
  have hparams : ∀ t ∈ (args.map (·.params)).getD [], Valued t := by
    cases args with
    | none => exact nofun
    | some as =>
      cases h as rfl with
      | intro _ hts => exact hts
  rw [migrateReference]
  split
  next => exact anyAlias_answers .object nofun
  next => exact anyAlias_answers .function nofun
  next => exact .pure (.reference none _ h)
  next => exact .pure (.reference none _ h)
  next t _ heq => exact .pure (.operator none _ (hparams t (by simp [heq])))
  next => exact .pure (.reference none _ h)
  next => exact .pure (.reference none _ h)
  next t _ heq => exact .pure (hparams t (by simp [heq]))
  next => exact anyAlias_answers .subtype h
  next heq =>
    exact .pure (.indexedAccess none (hparams _ (by simp [heq])) (hparams _ (by simp [heq])))
  next heq =>
    exact .pure (.indexedAccess none (hparams _ (by simp [heq])) (hparams _ (by simp [heq])))
  next => exact .pure (.reference none _ nofun)
  next =>
    refine .ite (.pure (.reference none _ h)) (.pure (.reference none _ ?_))
    rintro _ ⟨⟩
    exact valuedArgs_singleton (.reference none _ h)
  next => exact .first (.note _) (.pure (.reference none _ h))

/-- The union of valued members is valued. -/
theorem unionOf_valued {ts : List TsType} (h : ∀ t ∈ ts, Valued t) : Valued (unionOf ts) := by
  rw [unionOf]
  split
  next t ht => exact h t (List.mem_of_find?_eq_some ht)
  next => exact .union none h

/-- Parentheses around a function type change no member's value. -/
theorem parenthesized_valued {ts : List TsType} (h : ∀ t ∈ ts, Valued t) :
    ∀ t ∈ ts.map TsType.parenthesizeFunction, Valued t :=
  List.forall_mem_map.2 fun t ht => (h t ht).parenthesizeFunction

/-- `typeof` of a sound type always has an answer. -/
theorem migrateTypeof_answers {t : FlowType} (h : Sound t) :
    (migrateTypeof c t).Answers Valued := by
  unfold migrateTypeof
  split
  next =>
    split
    · exact refuseAt_answers c h.placed _
    · exact .pure (.query none _)
  next => exact refuseAt_answers c h.placed _

/-! ## Objects -/

/-- A part of an object whose literals hold values. -/
def ValuedPart : ObjectPart → Prop
  | .member m => ValuedMember m
  | .type t => Valued t

/-- The object built from valued parts is valued. -/
theorem objectOfParts_valued {parts : List ObjectPart} (h : ∀ p ∈ parts, ValuedPart p) :
    Valued (objectOfParts parts) := by
  have hts : ∀ t ∈ gatherParts [] parts, Valued t := by
    refine gatherParts_each (fun _ hms => .typeLiteral none hms) (List.forall_mem_nil _) ?_
    intro p hp
    cases p with
    | member m => exact h _ hp
    | type t => exact h _ hp
  rw [objectOfParts]
  split
  next => exact .typeLiteral none (List.forall_mem_nil _)
  next t heq => exact hts t (by simp [heq])
  next => exact .intersection none hts

/-- Checking a property answers whatever its key and traits. -/
theorem checkProperty_answers {node : Json} (h : positionsWhole node = true) (key : Json)
    (traits : PropertyTraits) : (checkProperty c node key traits).Answers fun _ => True := by
  refine .first (notePlace_answers c _ h) ?_
  refine .first (notePlace_answers c _ h) ?_
  refine .first (refuseAt_answers c h _) ?_
  refine .first (refuseAt_answers c h _) ?_
  exact .ite (refuseAt_answers c h _) (.pure trivial)

/-- A property with a valued type becomes a valued member. -/
theorem propertyMember_answers {node : Json} (h : positionsWhole node = true) (key : Json)
    (traits : PropertyTraits) {value : TsType} (hvalue : Valued value) :
    (propertyMember c node key traits value).Answers ValuedMember := by
  unfold propertyMember
  refine .ite ?_ (.pure (.property _ key _ _ _ hvalue))
  cases hvalue with
  | function _ hs => exact .pure (.method _ key _ _ hs)
  | _ => exact refuseAt_answers c h _

/-- An indexer of valued types is a valued part. -/
theorem indexerPart_valued (node : Json) (name : Option String) {key value : TsType}
    (hkey : Valued key) (hvalue : Valued value) (variance : Option Variance) :
    ValuedPart (indexerPart c node name key value variance) := by
  rw [indexerPart]
  split
  · exact ValuedMember.index _ _ _ hkey hvalue
  · refine Valued.reference none _ ?_
    rintro _ ⟨⟩
    exact .intro none (by simpa using ⟨hkey, hvalue⟩)

/-! ## Lists of parts -/

/-- A list whose types all answer answers as a whole. -/
theorem migrateAll_answers {ts : List FlowType} (h : ∀ t ∈ ts, (migrate c t).Answers Valued) :
    (migrateAll c ts).Answers fun us => ∀ u ∈ us, Valued u := by
  induction ts with
  | nil => exact .pure nofun
  | cons t ts ih =>
    rw [List.forall_mem_cons] at h
    refine .bind h.1 fun u hu => .bind (ih h.2) fun us hus => .pure ?_
    exact List.forall_mem_cons.2 ⟨hu, hus⟩

/-- An optional type answers when the type it may hold does. -/
theorem migrateOption_answers {t : Option FlowType}
    (h : ∀ u, t = some u → (migrate c u).Answers Valued) :
    (migrateOption c t).Answers fun t => ∀ u, t = some u → Valued u := by
  cases t with
  | none => exact .pure nofun
  | some t =>
    refine .bind (h t rfl) fun u hu => .pure ?_
    exact fun _ heq => Option.some.inj heq ▸ hu

/-- An empty list of arguments counts as none. -/
theorem migrateArgsOption_answers {args : Option (FlowArgs FlowType)}
    (h : ∀ as, args = some as → (migrateArgs c as).Answers ValuedArgs) :
    (migrateArgsOption c args).Answers fun args => ∀ as, args = some as → ValuedArgs as := by
  match args with
  | none => exact .pure nofun
  | some ⟨_, []⟩ => exact .pure nofun
  | some ⟨node, t :: ts⟩ =>
    refine .bind (h _ rfl) fun as has => .pure ?_
    exact fun _ heq => Option.some.inj heq ▸ has

/-- Optional type parameters answer when those they may hold do. -/
theorem migrateTypeParamsOption_answers {params : Option (FlowTypeParams FlowType)}
    (h : ∀ ps, params = some ps → (migrateTypeParams c ps).Answers ValuedTypeParams) :
    (migrateTypeParamsOption c params).Answers
      fun params => ∀ ps, params = some ps → ValuedTypeParams ps := by
  cases params with
  | none => exact .pure nofun
  | some ps =>
    refine .bind (h ps rfl) fun qs hqs => .pure ?_
    exact fun _ heq => Option.some.inj heq ▸ hqs

/-- What the migration of type parameters needs of each of them. -/
structure TypeParamAnswers (p : FlowTypeParam FlowType) : Prop where
  placed : positionsWhole p.node = true
  bound : (migrateOption c p.bound).Answers fun t => ∀ u, t = some u → Valued u
  default : (migrateOption c p.default).Answers fun t => ∀ u, t = some u → Valued u

/-- Type parameters answer as a list when each one does. -/
theorem migrateTypeParamList_answers {params : List (FlowTypeParam FlowType)}
    (h : ∀ p ∈ params, TypeParamAnswers c p) :
    (migrateTypeParamList c params).Answers fun ps => ∀ p ∈ ps, ValuedTypeParam p := by
  induction params with
  | nil => exact .pure nofun
  | cons p rest ih =>
    obtain ⟨node, name, bound, default, variance⟩ := p
    rw [List.forall_mem_cons] at h
    refine .first (notePlace_answers c _ h.1.placed) ?_
    refine .bind h.1.bound fun bound hbound => .bind h.1.default fun default hdefault => ?_
    refine .bind (ih h.2) fun ps hps => .pure ?_
    exact List.forall_mem_cons.2 ⟨.intro _ name hbound hdefault, hps⟩

/-- The parameters of a function, whether they have a name or are the rest. -/
def ValuedParams (params : List (TsParam TsType)) : Prop := ∀ p ∈ params, Valued p.type

/-- Parameters answer from any number on when each of their types does. -/
theorem migrateParams_answers {params : List (FlowParam FlowType)}
    (h : ∀ p ∈ params, (migrate c p.type).Answers Valued) (number : Nat) :
    (migrateParams c number params).Answers ValuedParams := by
  induction params generalizing number with
  | nil => exact .pure nofun
  | cons p rest ih =>
    rw [List.forall_mem_cons] at h
    refine .bind h.1 fun u hu => .bind (ih h.2 _) fun us hus => .pure ?_
    exact List.forall_mem_cons.2 ⟨hu, hus⟩

/-- The `this` parameter answers when its type does. -/
theorem migrateThis_answers {param : Option (FlowParam FlowType)}
    (h : ∀ p, param = some p → (migrate c p.type).Answers Valued) :
    (migrateThis c param).Answers ValuedParams := by
  cases param with
  | none => exact .pure nofun
  | some p => exact .bind (h p rfl) fun u hu => .pure (List.forall_mem_singleton.2 hu)

/-- The rest parameter answers when its type does. -/
theorem migrateRest_answers {param : Option (FlowParam FlowType)}
    (h : ∀ p, param = some p → (migrate c p.type).Answers Valued) :
    (migrateRest c param).Answers ValuedParams := by
  cases param with
  | none => exact .pure nofun
  | some p => exact .bind (h p rfl) fun u hu => .pure (List.forall_mem_singleton.2 hu)

/-- An object's members answer as a list when each one does. -/
theorem migrateMembers_answers {members : List (FlowMember FlowType)}
    (h : ∀ m ∈ members, (migrateMember c m).Answers ValuedPart) :
    (migrateMembers c members).Answers fun ps => ∀ p ∈ ps, ValuedPart p := by
  induction members with
  | nil => exact .pure nofun
  | cons m rest ih =>
    rw [List.forall_mem_cons] at h
    refine .bind h.1 fun p hp => .bind (ih h.2) fun ps hps => .pure ?_
    exact List.forall_mem_cons.2 ⟨hp, hps⟩

/-- Every keyword has an answer, findings included. -/
theorem migrateKeyword_answers {node : Json} (h : positionsWhole node = true) (word : FlowKeyword) :
    (migrate c (.keyword node word)).Answers Valued := by
  cases word with
  | existential => exact .map (anyAlias_answers _ nofun) fun t ht => ht.withOrigin node
  | this => exact .pure (.this _)
  | interface => exact refuseAt_answers c h _
  | _ => exact .pure (.keyword _ _)

mutual

/-- **A sound type becomes a type whose literals hold values**, or is not
supported. -/
theorem migrate_answers : ∀ {t : FlowType}, Sound t → (migrate c t).Answers Valued
  | _, .keyword word hnode => migrateKeyword_answers c hnode word
  | _, .literal _ hvalue => .pure (.literal _ hvalue)
  | _, .array _ ht => .bind (migrate_answers ht) fun _ hu => .pure (.array _ hu)
  | _, .nullable _ ht => by
    refine .bind (migrate_answers ht) fun u hu => .pure (.union _ ?_)
    simp only [List.forall_mem_cons]
    exact ⟨hu, .keyword _ _, .keyword _ _, nofun⟩
  | _, .tuple _ hts =>
    .bind (migrateAll_answers c fun t ht => migrate_answers (hts t ht)) fun _ hus =>
      .pure (.tuple _ hus)
  | _, .union _ hts =>
    .bind (migrateAll_answers c fun t ht => migrate_answers (hts t ht)) fun _ hus =>
      .pure ((unionOf_valued (parenthesized_valued hus)).withOrigin _)
  | _, .intersection _ hts =>
    .bind (migrateAll_answers c fun t ht => migrate_answers (hts t ht)) fun _ hus =>
      .pure (.intersection _ (parenthesized_valued hus))
  | _, .typeof _ ht => .map (migrateTypeof_answers c ht) fun _ hu => hu.withOrigin _
  | _, .indexedAccess _ hobject hindex =>
    .bind (migrate_answers hobject) fun _ hobject =>
      .bind (migrate_answers hindex) fun _ hindex => .pure (.indexedAccess _ hobject hindex)
  | _, .optionalIndexedAccess hnode => refuseAt_answers c hnode _
  | _, .generic id _ hargs =>
    .bind (migrateArgsOption_answers c fun as has => migrateArgs_answers (hargs as has))
      fun _ hargs => .map (migrateReference_answers c _ hargs) fun _ hu => hu.withOrigin _
  | _, .function _ hparams hresult hrest hthis htypeParams =>
    .bind (migrateThis_answers c fun p hp => migrate_answers (hthis p hp)) fun _ hthis =>
    .bind (migrateParams_answers c (fun p hp => migrate_answers (hparams p hp)) 1) fun _ hparams =>
    .bind (migrateRest_answers c fun p hp => migrate_answers (hrest p hp)) fun _ hrest =>
    .bind (migrate_answers hresult) fun _ hresult =>
    .bind (migrateTypeParamsOption_answers c fun ps hps =>
        migrateTypeParams_answers (htypeParams ps hps)) fun _ htypeParams =>
    .pure (.function _ (.intro
      (List.forall_mem_append.2 ⟨List.forall_mem_append.2 ⟨hthis, hparams⟩, hrest⟩)
      hresult htypeParams))
  | _, .object _ _ hmembers =>
    .bind (migrateMembers_answers c fun m hm => migrateMember_answers (hmembers m hm))
      fun _ hparts => .pure ((objectOfParts_valued hparts).withOrigin _)

/-- Sound type arguments answer. -/
theorem migrateArgs_answers : ∀ {args : FlowArgs FlowType}, SoundArgs args →
    (migrateArgs c args).Answers ValuedArgs
  | _, .intro _ hts =>
    .bind (migrateAll_answers c fun t ht => migrate_answers (hts t ht)) fun _ hus =>
      .pure (.intro _ hus)

/-- Sound type parameters answer. -/
theorem migrateTypeParams_answers : ∀ {params : FlowTypeParams FlowType}, SoundTypeParams params →
    (migrateTypeParams c params).Answers ValuedTypeParams
  | _, .intro _ hps =>
    .bind (migrateTypeParamList_answers c fun p hp => typeParamAnswers (hps p hp)) fun _ hqs =>
      .pure (.intro _ hqs)

/-- A sound type parameter answers in its bound and its default. -/
theorem typeParamAnswers : ∀ {p : FlowTypeParam FlowType}, SoundTypeParam p → TypeParamAnswers c p
  | _, .intro _ _ hnode hbound hdefault =>
    ⟨hnode, migrateOption_answers c fun t ht => migrate_answers (hbound t ht),
      migrateOption_answers c fun t ht => migrate_answers (hdefault t ht)⟩

/-- A sound member becomes a valued part. -/
theorem migrateMember_answers : ∀ {m : FlowMember FlowType}, SoundMember m →
    (migrateMember c m).Answers ValuedPart
  | _, .property key traits hnode hvalue =>
    .bind (checkProperty_answers c hnode key traits) fun _ _ =>
    .bind (migrate_answers hvalue) fun _ hvalue =>
    .bind (propertyMember_answers c hnode key traits hvalue) fun _ hm => .pure hm
  | _, .spread node hargument =>
    .bind (migrate_answers hargument) fun _ hu => .pure (Valued.parenthesized _ hu)
  | _, .indexer id variance isStatic hnode hkey hvalue =>
    .first (notePlace_answers c _ hnode) <| .first (refuseAt_answers c hnode _) <|
    .bind (migrate_answers hkey) fun _ hkey =>
    .bind (migrate_answers hvalue) fun _ hvalue =>
    .pure (indexerPart_valued c _ id hkey hvalue variance)
  | _, .callProperty _ hnode => refuseAt_answers c hnode _
  | _, .internalSlot _ hnode => refuseAt_answers c hnode _

end

/-! ## Nodes -/

/-- **The rewriting of types is total.** Let the positions and the numerals of a
node be numbers wherever they are given. Then the node becomes a node that the
grammar generates from the types, or a construct in it is not supported. -/
theorem rewritten_generated {node : Json} (h : Given node) :
    match (migratePartNode c .type node).result with
    | .ok written => TypeScript.Generated .type written
    | .error refusal => ∃ kind location detail, refusal = .unsupported kind location detail := by
  have hanswers : (migratePartNode c .type node).Answers (TypeScript.Generated .type) :=
    .bind (.ofResult (.map (Flow.decodeType_answers c.path node h) (Q := fun part =>
      ∃ t, part = .type t ∧ Sound t) fun t ht => ⟨t, rfl, ht⟩)) fun part hpart => by
        obtain ⟨t, rfl, ht⟩ := hpart
        exact .bind (migrate_answers c ht) fun u hu => .pure (TypeScript.encode_generated hu)
  rw [Recorded.Answers] at hanswers
  split <;> rename_i heq <;> rw [heq] at hanswers
  · exact hanswers
  next refusal =>
    cases refusal with
    | unsupported kind location detail => exact ⟨kind, location, detail, rfl⟩
    | _ => cases hanswers

/-- `{+f: (?string, ...-1) => $ReadOnlyArray<T.U>}` -/
def objectTypeNode : Json :=
  let node := TypeScript.node
  let name (text : String) : Json := TypeScript.identifier text []
  let qualified := node "QualifiedTypeIdentifier" [("qualification", name "T"), ("id", name "U")]
  let generic (id : Json) (args : List Json) : Json := node "GenericTypeAnnotation"
    [("id", id), ("typeParameters", node "TypeParameterInstantiation" [("params", .arr args)])]
  let param (type : Json) : Json := node "FunctionTypeParam" [("typeAnnotation", type)]
  let place : String × Json := ("loc", .obj [
    ("start", .obj [("line", .int 1), ("column", .int 2)]), ("end", .obj [])])
  node "ObjectTypeAnnotation" [
    ("properties", .arr [node "ObjectTypeProperty" [
      ("key", name "f"), ("variance", node "Variance" [("kind", .str "plus")]), place,
      ("value", node "FunctionTypeAnnotation" [
        ("params", .arr [param (node "NullableTypeAnnotation"
          [("typeAnnotation", node "StringTypeAnnotation" [])])]),
        ("rest", param (node "NumberLiteralTypeAnnotation" [("value", .int (-1))])),
        ("returnType", generic (name "$ReadOnlyArray") [generic qualified []])])]])]

/-- An object type with a property becomes a literal type. -/
theorem rewritten_generated_object : Given objectTypeNode ∧ ∃ written,
    (migratePartNode ⟨"a.js", "h"⟩ .type objectTypeNode).result = .ok written ∧
      written.kind = "TSTypeLiteral" ∧ TypeScript.Generated .type written := by
  have hgiven : Given objectTypeNode := by
    rw [Given]
    decide +kernel
  have hkind : (migratePartNode ⟨"a.js", "h"⟩ .type objectTypeNode).result.toOption.map Json.kind =
      some "TSTypeLiteral" := by
    decide +kernel
  have h := rewritten_generated ⟨"a.js", "h"⟩ hgiven
  match hresult : (migratePartNode ⟨"a.js", "h"⟩ .type objectTypeNode).result with
  | .ok written =>
    rw [hresult] at h hkind
    exact ⟨hgiven, written, rfl, Option.some.inj hkind, h⟩
  | .error e =>
    rw [hresult] at hkind
    cases hkind

/-! ## Inferred types -/

/-- **Every Babel type node with whole positions has an answer.** -/
theorem migrateNode_answers {node : Json} (h : Given node) : (migrateNode c node).Answers Valued :=
  .bind (P := Sound) (.ofResult (Flow.decodeType_answers c.path node h)) fun _ ht =>
    migrate_answers c ht

/-- **An inferred type becomes an annotation**, or leaves its parameter without
one, if its numerals are numbers. Its positions are dropped before. -/
theorem annotationInferred_total (o : FileOptions) (location : Location) {inferred : Option Json}
    (h : ∀ type, inferred = some type → Given type.stripPositions) : ∃ annotation,
    (annotationInferred o location inferred).result = .ok annotation := by
  cases inferred with
  | none => exact ⟨none, rfl⟩
  | some type =>
    have hmigrated : (migrateInferred o type).Answers Valued :=
      .ite (.pure (.keyword none .any)) (migrateNode_answers o.types (h type rfl))
    unfold annotationInferred
    rw [Recorded.Answers] at hmigrated
    dsimp only
    cases hresult : (migrateInferred o type).result with
    | ok t =>
      show ∃ annotation, (annotationOf t).result = .ok annotation
      unfold annotationOf
      split <;> exact ⟨_, rfl⟩
    | error e =>
      rw [hresult] at hmigrated
      cases e with
      | unsupported => exact ⟨none, rfl⟩
      | _ => cases hmigrated

end Migration

end Retype
