import Retype.Proofs.Migration.Becoming
import Retype.Proofs.Migration.Nodes
/-!
# The comments on the members of an object type

What is written for a member has the position and the comments of the member's
node, unless the member becomes a helper type, or is a spread that is all there
is (`comments_kept`). This is so at any depth: an object type stands in what the
types around it become, unless one of them amounts to `any`.
-/

namespace Retype

/-- One type stands in another one, and in no part of it that amounts to `any`
by itself. -/
inductive FlowType.SurvivesIn : FlowType → FlowType → Prop
  | refl (t : FlowType) : SurvivesIn t t
  | part {o p t : FlowType} (mem : p ∈ t.parts) (kept : ¬ Migration.AmountsToAny t)
      (survives : SurvivesIn o p) : SurvivesIn o t

/-- A node inherits what another one has under a key, if it has nothing there itself. -/
theorem Json.get?_inherit {origin : Json} {l : Entries} {key : String}
    (hkey : key ∈ inheritedKeys) (hnone : l.get? key = none) :
    (inherit origin (.obj l)).get? key = origin.get? key := by
  rw [inherit]
  generalize inheritedKeys = keys at hkey
  induction keys generalizing l with
  | nil => cases hkey
  | cons first keys ih =>
    rw [List.foldl_cons]
    by_cases hfirst : first = key
    · -- it is there from now on, and stays as it is
      subst hfirst
      refine List.foldlRecOn (motive := fun n : Json => n.get? first = origin.get? first) _ _ ?_ ?_
      · split
        next v hv _ => rw [hv]; exact Entries.get?_set_self l first v
        next h =>
          cases horigin : origin.get? first with
          | none => exact hnone
          | some v => exact absurd hnone (h v horigin)
      · intro n hn k _
        split
        next v hv hmissing =>
          by_cases hk : first = k
          · subst hk
            rw [hn, hv] at hmissing
            cases hmissing
          · rw [get?_set_ne hk, hn]
        next => exact hn
    · replace hkey := (List.mem_cons.1 hkey).resolve_left (Ne.symm hfirst)
      split
      next v _ _ => exact ih ((Entries.get?_set_ne (Ne.symm hfirst) v).trans hnone) hkey
      next => exact ih hnone hkey

namespace TsType

@[simp] theorem isFunction_withOrigin (t : TsType) (n : Json) :
    (t.withOrigin n).isFunction = t.isFunction := by cases t <;> rfl

@[simp] theorem withOrigin_withOrigin (t : TsType) (m n : Json) :
    (t.withOrigin m).withOrigin n = t.withOrigin n := by cases t <;> rfl

theorem Within.trans {u v w : TsType} (h : u.Within v) (h' : v.Within w) : u.Within w := by
  induction h' with
  | refl => exact h
  | part mem _ ih => exact .part mem ih

/-- Whatever stands in one type stands in another one too. The type itself may
come from another node there, and a function may have been taken apart. -/
def Keeps (u v : TsType) : Prop :=
  ∀ x : TsType, x.Within v → x.isFunction = false →
    ∃ y : TsType, y.Within u ∧ (y = x ∨ ∃ n, y = x.withOrigin n)

namespace Keeps

theorem of_within {u v : TsType} (h : v.Within u) : Keeps u v :=
  fun x hx _ => ⟨x, hx.trans h, .inl rfl⟩

theorem of_mem {u v : TsType} (h : v ∈ u.parts) : Keeps u v := of_within (.part h (.refl v))

/-- What stands in a part of a type. -/
theorem part {u p v : TsType} (mem : p ∈ u.parts) (h : Keeps p v) : Keeps u v := by
  intro x hx hfunction
  obtain ⟨y, hy, hsame⟩ := h x hx hfunction
  exact ⟨y, .part mem hy, hsame⟩

/-- Where a type comes from makes no difference. -/
theorem withOrigin {u v : TsType} (h : Keeps u v) (n : Json) : Keeps (u.withOrigin n) v := by
  intro x hx hfunction
  obtain ⟨y, hy, hsame⟩ := h x hx hfunction
  cases hy with
  | refl =>
    refine ⟨u.withOrigin n, .refl _, .inr ?_⟩
    rcases hsame with rfl | ⟨m, rfl⟩
    · exact ⟨n, rfl⟩
    · exact ⟨n, withOrigin_withOrigin x m n⟩
  | part mem within => exact ⟨y, .part (by simpa using mem) within, hsame⟩

theorem refl (u : TsType) : Keeps u u := of_within (.refl u)

theorem parenthesizeFunction {us : List TsType} {v : TsType} (hv : v ∈ us) {u : TsType}
    (hu : u.parts = us.map TsType.parenthesizeFunction) : Keeps u v := by
  refine part (hu ▸ List.mem_map_of_mem hv) (of_within ?_)
  cases v with
  | function origin s => exact .part List.mem_cons_self (.refl _)
  | _ => exact .refl _

/-- A function that was taken apart. -/
theorem signature {u : TsType} {origin : Option Json} {s : TsSignature TsType}
    (h : ∀ v ∈ s.types, v ∈ u.parts) : Keeps u (.function origin s) := by
  intro x hx hfunction
  cases hx with
  | refl => cases hfunction
  | part mem within => exact ⟨x, .part (h _ mem) within, .inl rfl⟩

end Keeps

end TsType

namespace Migration

open TypeScript (node encode encodeMember encodeMembers)
open Json (nodesIn)
open TsType (Keeps)

variable (c : TypeContext)

/-! ## What is kept of the parts of a type -/

/-- What some types become is kept in another type. -/
def KeepsAll (u : TsType) (ts : List FlowType) : Prop :=
  ∀ t ∈ ts, ∃ v, (migrate c t).result = .ok v ∧ Keeps u v

variable {c}

theorem KeepsAll.withOrigin {u : TsType} {ts : List FlowType} (h : KeepsAll c u ts) (n : Json) :
    KeepsAll c (u.withOrigin n) ts := by
  intro t ht
  obtain ⟨v, hv, hkeeps⟩ := h t ht
  exact ⟨v, hv, hkeeps.withOrigin n⟩

theorem Became.keepsAll {ts : List FlowType} {fs : List Finding} {us : List TsType}
    (h : Became c ts fs us) {u : TsType} (hu : ∀ v ∈ us, Keeps u v) : KeepsAll c u ts := by
  intro t ht
  obtain ⟨v, hv, hresult⟩ := Entries.exists_of_forall₂ h.types.flip ht
  exact ⟨v, hresult, hu v hv⟩

theorem Became.kept_parts {ts : List FlowType} {fs : List Finding} {us : List TsType}
    (h : Became c ts fs us) {u : TsType} (hu : u.parts = us) : KeepsAll c u ts :=
  h.keepsAll fun _ hv => .of_mem (hu ▸ hv)

variable (c)

/-- A type that a list of arguments becomes part of. -/
theorem migrateReference_keeps (name : TsEntity) (args : Option (TsArgs TsType)) :
    (migrateReference c name args).Yields fun u =>
      ∀ v ∈ (args.map (·.params)).getD [], Keeps u v := by
  have hargs {name' : TsEntity} : ∀ v ∈ (args.map (·.params)).getD [],
      Keeps (.reference none name' args) v := fun v hv => .of_mem hv
  rw [migrateReference]
  split
  next hparams => exact .bind (.trivial _ fun _ => .pure (by simp [hparams]))
  next hparams => exact .bind (.trivial _ fun _ => .pure (by simp [hparams]))
  next => exact .pure hargs
  next => exact .pure hargs
  next t _ hparams =>
    rw [hparams]
    exact .pure fun v hv => .of_mem hv
  next => exact .pure hargs
  next => exact .pure hargs
  next t _ hparams =>
    rw [hparams]
    exact .pure (List.forall_mem_singleton.2 (.refl t))
  next => exact .bind (.trivial _ fun _ => .pure hargs)
  next hparams =>
    rw [hparams]
    exact .pure fun v hv => .of_mem hv
  next hparams =>
    rw [hparams]
    exact .pure fun v hv => .of_mem hv
  next hparams => exact .pure (by simp [hparams])
  next =>
    refine .ite (fun _ => .pure hargs) fun _ => .pure fun v hv => ?_
    exact .part List.mem_cons_self (hargs v hv)
  next => exact .first (.pure hargs)

theorem types_of_member_mem {t : TsType} {m : TsMember TsType} (h : .member m ∈ laidOut t) :
    ∀ u ∈ m.types, u ∈ t.parts := by
  cases t with
  | typeLiteral origin members =>
    obtain ⟨m', hm, ⟨⟩⟩ := List.mem_map.1 h
    exact fun u hu => List.mem_flatMap.2 ⟨m, hm, hu⟩
  | _ => simp [laidOut] at h

theorem eq_of_type_mem {t u : TsType} (h : .type u ∈ laidOut t) : u = t := by
  cases t with
  | typeLiteral origin members => simp [laidOut] at h
  | _ => exact ObjectPart.type.inj (List.mem_singleton.1 h)

/-- The types in a member are kept in the type that its part was laid out from. -/
theorem MemberBecomes.keepsAll {m : FlowMember FlowType} {p : ObjectPart} {t : TsType}
    (h : MemberBecomes c m p) (hp : p ∈ laidOut t) : KeepsAll c t m.types := by
  cases h with
  | property plain value' =>
    refine List.forall_mem_singleton.2 ⟨_, value', .of_mem ?_⟩
    exact types_of_member_mem hp _ List.mem_cons_self
  | method method value' =>
    exact List.forall_mem_singleton.2 ⟨_, value', .signature (types_of_member_mem hp)⟩
  | spread argument' =>
    obtain rfl := eq_of_type_mem hp
    exact List.forall_mem_singleton.2 ⟨_, argument', .of_mem List.mem_cons_self⟩
  | index key' value' indexable =>
    have hmem := types_of_member_mem hp
    refine List.forall_mem_cons.2 ⟨⟨_, key', .of_mem (hmem _ ?_)⟩,
      List.forall_mem_singleton.2 ⟨_, value', .of_mem (hmem _ ?_)⟩⟩
    · exact List.mem_cons_self
    · exact List.mem_cons_of_mem _ List.mem_cons_self
  | map key' value' other =>
    obtain rfl := eq_of_type_mem hp
    refine List.forall_mem_cons.2 ⟨⟨_, key', .of_mem List.mem_cons_self⟩,
      List.forall_mem_singleton.2 ⟨_, value', .of_mem ?_⟩⟩
    exact List.mem_cons_of_mem _ List.mem_cons_self

/-- A part that an object type was made of stands in the type. -/
theorem keeps_of_mem_objectParts {t v : TsType} {p : ObjectPart} (hp : p ∈ objectParts t)
    (h : ∀ w, p ∈ laidOut w → Keeps w v) : Keeps t v := by
  obtain ⟨w, hw, hpart⟩ := List.mem_flatMap.1 hp
  cases t with
  | intersection origin types => exact .part hw (h w hpart)
  | _ =>
    rw [List.mem_singleton.1 hw] at hpart
    exact h _ hpart

theorem migrate_object_keeps (n : Json) (members : List (FlowMember FlowType)) (exact : Bool) :
    (migrate c (.object n members exact)).Yields fun u =>
      KeepsAll c u (members.flatMap FlowMember.types) := by
  refine (migrate_object c n members exact).mono ?_
  rintro _ ⟨parts, t, hparts, hgathered, rfl⟩
  refine KeepsAll.withOrigin (fun t' ht' => ?_) n
  obtain ⟨m, hm, ht'⟩ := List.mem_flatMap.1 ht'
  obtain ⟨p, hp, hbecomes⟩ := Entries.exists_of_forall₂ hparts.flip hm
  rw [← hgathered.reading] at hp
  obtain ⟨w, -, hpart⟩ := List.mem_flatMap.1 hp
  obtain ⟨v, hv, -⟩ := hbecomes.keepsAll c hpart t' ht'
  refine ⟨v, hv, keeps_of_mem_objectParts hp fun w' hw' => ?_⟩
  obtain ⟨v', hv', hkeeps⟩ := hbecomes.keepsAll c hw' t' ht'
  obtain rfl := Except.ok.inj (hv.symm.trans hv')
  exact hkeeps

/-- A type that does not amount to `any` keeps what its parts become, but for the
name in a `typeof`. -/
theorem migrate_keeps (t : FlowType) : (migrate c t).Yields fun u => ¬ AmountsToAny t →
    ∀ p ∈ t.parts, IsBareName p ∨ ∃ v, (migrate c p).result = .ok v ∧ Keeps u v := by
  have hall {x : Recorded TsType} {ts : List FlowType}
      (hx : x.Gives fun _ u => KeepsAll c u ts) : x.Yields fun u => ¬ AmountsToAny t → ∀ p ∈ ts,
        IsBareName p ∨ ∃ v, (migrate c p).result = .ok v ∧ Keeps u v :=
    fun u hu _ p hp => .inr (hx u hu p hp)
  cases t with
  | keyword | literal => exact .trivial _ fun _ _ => List.forall_mem_nil _
  | array node t =>
    refine hall (Recorded.Gives.last ?_)
    exact (migrate_became c t).mono fun fs u hu => hu.kept_parts rfl
  | nullable node t =>
    refine hall (Recorded.Gives.last ?_)
    exact (migrate_became c t).mono fun fs u hu =>
      hu.keepsAll (List.forall_mem_singleton.2 (.of_mem List.mem_cons_self))
  | tuple node ts =>
    refine hall (Recorded.Gives.last ?_)
    exact (migrateAll_became c ts).mono fun fs us hus => hus.kept_parts rfl
  | union node ts =>
    intro u hu hopen p hp
    obtain ⟨us, hus, hunion⟩ := migrate_union_became c node ts u hu
    obtain rfl := hunion hopen
    exact .inr (hus.keepsAll (fun v hv => .parenthesizeFunction hv rfl) p hp)
  | intersection node ts =>
    refine hall (Recorded.Gives.last ?_)
    exact (migrateAll_became c ts).mono fun fs us hus =>
      hus.keepsAll fun v hv => .parenthesizeFunction hv rfl
  | typeof node t =>
    refine .map fun u hu _ => List.forall_mem_singleton.2 (.inl ?_)
    exact (migrateTypeof_bare c t u hu).1
  | indexedAccess node object index =>
    refine hall (Recorded.Gives.bind ?_)
    refine (migrate_became c object).mono fun fs u hu => .last ?_
    exact (migrate_became c index).mono fun gs v hv => (hu.append hv).kept_parts rfl
  | optionalIndexedAccess node object index => exact .refuse _
  | generic node id args =>
    refine hall (.bind ((migrateArgsOption_became c args).mono fun fs args' hargs => .map ?_))
    exact fun u hu => (hargs.keepsAll (migrateReference_keeps c _ args' u hu)).withOrigin node
  | function node params result rest thisParam typeParams =>
    refine hall ((migrate_function_became c node params result rest thisParam typeParams).mono ?_)
    rintro fs _ ⟨s, rfl, hs⟩ p hp
    exact hs.kept_parts rfl p (mem_signatureTypes.2 hp)
  | object node members exact => exact hall (migrate_object_keeps c node members exact)

/-- An object type becomes no function. -/
theorem migrate_object_notFunction (n : Json)
    (members : List (FlowMember FlowType)) (exact : Bool) :
    (migrate c (.object n members exact)).Yields fun u => u.isFunction = false := by
  refine (migrate_object c n members exact).mono ?_
  rintro _ ⟨parts, t, hparts, hgathered, rfl⟩
  rw [TsType.isFunction_withOrigin]
  have hreading := hgathered.reading
  cases t with
  | function origin s =>
    -- no member becomes a function
    have hmem : ObjectPart.type (.function origin s) ∈ parts := hreading ▸ List.mem_singleton_self _
    obtain ⟨m, -, hbecomes⟩ := Entries.exists_of_forall₂ hparts hmem
    cases hbecomes
  | _ => rfl

/-- **An object type stands in what the types around it become**, if none of
them amounts to `any`; it may have got its place from one of them. -/
theorem migrate_survivor (t : FlowType) : (migrate c t).Yields fun u =>
    ∀ n members exact, (FlowType.object n members exact).SurvivesIn t →
      ∃ v w : TsType, (migrate c (.object n members exact)).result = .ok v ∧ w.Within u ∧
        (w = v ∨ ∃ m, w = v.withOrigin m) := by
  induction t using FlowType.induction_on_parts with
  | h t ih =>
    intro u hu n members exact hsurvives
    cases hsurvives with
    | refl => exact ⟨u, u, hu, .refl u, .inl rfl⟩
    | part mem kept survives =>
      rcases migrate_keeps c t u hu kept _ mem with ⟨node, id, args, rfl, hparts⟩ | ⟨v, hv, hkeeps⟩
      · cases survives with
        | part mem' => simp [hparts] at mem'
      · obtain ⟨v', w, hv', hwithin, hsame⟩ := ih _ mem v hv n members exact survives
        -- a method takes a function apart, but never an object type
        have hfunction : w.isFunction = false := by
          rcases hsame with rfl | ⟨m, rfl⟩
          · exact migrate_object_notFunction c n members exact _ hv'
          · rw [TsType.isFunction_withOrigin]
            exact migrate_object_notFunction c n members exact _ hv'
        obtain ⟨y, hy, hsame'⟩ := hkeeps w hwithin hfunction
        refine ⟨v', y, hv', hy, ?_⟩
        rcases hsame with rfl | ⟨m, rfl⟩
        · exact hsame'
        · rcases hsame' with rfl | ⟨m', rfl⟩
          · exact .inr ⟨m, rfl⟩
          · exact .inr ⟨m', by rw [TsType.withOrigin_withOrigin]⟩

/-! ## Positions and comments -/

/-- A member becomes a type by itself: it is a spread, or an indexer whose key
becomes neither a string nor a number. -/
def StandsAlone (m : FlowMember FlowType) : Prop := ∃ t, MemberBecomes c m (.type t)

/-- What a node that is written for a member has of the position and the
comments of the member. -/
inductive PlaceOf (members : List (FlowMember FlowType))
    (m : FlowMember FlowType) (written : Json) :
    Prop
  | kept (place : ∀ key ∈ Json.inheritedKeys, written.get? key = m.node.get? key)
  | lost (helper : HasOtherKey c m) (place : ∀ key ∈ Json.inheritedKeys, written.get? key = none)
  | replaced (apart : StandsAlone c m) (only : members = [m]) (origin : Json)
      (place : ∀ key ∈ Json.inheritedKeys, written.get? key = origin.get? key)

/-- A node that is written has no position and no comments of its own. -/
theorem get?_node_none {kind : String} {fields : Entries} {key : String}
    (hkey : key ∈ Json.inheritedKeys)
    (hfields : ("type" :: fields.map (·.1)).all (!Json.inheritedKeys.contains ·) = true) :
    Entries.get? (("type", .str kind) :: fields) key = none := by
  refine Option.eq_none_iff_forall_not_mem.2 fun v hv => ?_
  have hmem := List.mem_map_of_mem (f := Prod.fst) (Entries.mem_of_get? hv)
  simpa [hkey] using List.all_eq_true.1 hfields key hmem

theorem get?_written (n : Json) {kind : String} {fields : Entries} {key : String}
    (hkey : key ∈ Json.inheritedKeys)
    (hfields : ("type" :: fields.map (·.1)).all (!Json.inheritedKeys.contains ·) = true) :
    (Json.inheritOption (some n) (node kind fields)).get? key = n.get? key :=
  Json.get?_inherit hkey (get?_node_none hkey hfields)

variable {c}

theorem placeOf_part {members : List (FlowMember FlowType)} {m : FlowMember FlowType}
    {p : ObjectPart} (h : MemberBecomes c m p) : PlaceOf c members m (encodePart p) := by
  cases h with
  | @property n key value traits u plain value' =>
    refine .kept fun key hkey => ?_
    rw [encodePart, encodeMember, get?_written n hkey]
    · rfl
    · cases decide (traits.variance = some .plus) <;> rfl
  | @method n key value traits origin s method value' =>
    obtain ⟨params, result, typeParams⟩ := s
    refine .kept fun key hkey => ?_
    rw [encodePart, encodeMember, get?_written n hkey]
    · rfl
    · rfl
  | @spread n argument u argument' =>
    refine .kept fun key hkey => ?_
    rw [encodePart, encode, get?_written n hkey]
    · rfl
    · rfl
  | @index n name key value variance isStatic k u key' value' indexable =>
    refine .kept fun key hkey => ?_
    rw [encodePart, encodeMember, get?_written n hkey]
    · rfl
    · cases decide (variance = some .plus) <;> rfl
  | @map n name key value variance isStatic k u key' value' other =>
    refine .lost (.intro key' other) fun key hkey => ?_
    rw [encodePart, helperType, encode]
    exact get?_node_none hkey rfl

theorem MemberWritten.placeOf {members : List (FlowMember FlowType)} {m : FlowMember FlowType}
    {written : Json} (h : MemberWritten c members m written) : PlaceOf c members m written := by
  cases h with
  | part becomes => exact placeOf_part becomes
  | alone becomes only origin =>
    refine .replaced ⟨_, becomes⟩ only origin fun key hkey => ?_
    cases becomes with
    | spread argument' =>
      rw [TsType.withOrigin, encode, get?_written origin hkey]
      rfl
    | map key' value' other =>
      rw [helperType, TsType.withOrigin, encode, get?_written origin hkey]
      rfl

variable (c)

/-- **The position and the comments of each member are kept**, in every object
type and at any depth, unless the member becomes a helper type or is a spread
that is the only member. What is written for the object type is what it becomes by
itself, at its own place or at that of a type around it. -/
theorem comments_kept (t : FlowType) : (migrate c t).Yields fun u =>
    ∀ n members exact, (FlowType.object n members exact).SurvivesIn t →
      ∃ v, (migrate c (.object n members exact)).result = .ok v ∧
        ∃ w : TsType, (w = v ∨ ∃ m, w = v.withOrigin m) ∧ w.Within u ∧
          encode w ∈ nodesIn (encode u) ∧
          List.Forall₂ (PlaceOf c members) members (writtenMembers (encode w)) := by
  intro u hu n members exact hsurvives
  obtain ⟨v, w, hv, hwithin, hsame⟩ := migrate_survivor c t u hu n members exact hsurvives
  refine ⟨v, hv, w, hsame, hwithin, mem_nodesIn_encode hwithin, ?_⟩
  obtain ⟨parts, t', hparts, hgathered, rfl⟩ := migrate_object c n members exact v hv
  obtain ⟨m, rfl⟩ : ∃ m, w = t'.withOrigin m := by
    rcases hsame with rfl | ⟨m, rfl⟩
    · exact ⟨n, rfl⟩
    · exact ⟨m, TsType.withOrigin_withOrigin t' n m⟩
  exact (hgathered.written c hparts m).imp fun _ _ h => h.placeOf

/-- `[symbol]: string`, after a comment. -/
def commentedIndexer : FlowMember FlowType :=
  .indexer (node "ObjectTypeIndexer"
      [("leadingComments", .arr [node "CommentLine" [("value", .str " by symbol")]])])
    none (.keyword .null .symbol) (.keyword .null .string) none false

/-- The comment is on nothing that is written for the two members. -/
theorem indexer_comment_lost : (commentedIndexer.node.get? "leadingComments").isSome = true ∧
    ∃ u, (migrate ⟨"a.js", "h"⟩
        (.object .null [commentedIndexer, commentedIndexer] false)).result = .ok u ∧
      (writtenMembers (encode u)).map (·.get? "leadingComments") = [none, none] :=
  ⟨rfl, _, rfl, rfl⟩

end Migration

end Retype
