import Retype.Proofs.Migration.Casting
/-!
# Casts are accounted for

What a walk has met accounts for the casts of a file: each cast that was met
became what it may become, the expressions of the helper calls that were put in
are the casts that were recorded, in the order of the walk (`Accounts`), and
the casts of the source are those that were met, each with the cast inside it
if that was unsound (`walk_notes`).
-/

namespace Retype

namespace Syntax.Meeting

open Migration (isCast nestedCast?)

/-- The expression that is checked where a cast was met, if one is. -/
def checked? (m : Meeting) : Option Json :=
  if isCast m.node then Migration.checked? m.entered else none

/-- The casts that a meeting accounts for: a cast, and the one inside it that is
not met because it was unsound already. -/
def casts (m : Meeting) : List Json :=
  if isCast m.node then m.node :: (nestedCast? m.node).toList else []

end Syntax.Meeting

namespace Migration

open Syntax (Place Frame Visit Visitor Walked Meeting)

variable {o : FileOptions} {met : List Meeting} {p : Progress} {n m e : Json}

/-! ## What was recorded -/

/-- What was recorded about casts goes by what was met. -/
structure Accounts (o : FileOptions) (met : List Meeting) (p : Progress) : Prop where
  recast : ∀ m ∈ met, isCast m.node = true →
    ∃ new, m.entered = Json.inherit m.node new ∧ Recast o m.node new
  places : castPlaces p.findings = (met.filterMap (·.checked?)).map (placeOf o.path)
  helper : p.usesHelper = met.any (·.checked?.isSome)

/-- The helper is used when a cast that was met is checked at run time. -/
theorem Accounts.usesHelper_iff (h : Accounts o met p) :
    p.usesHelper = true ↔ ∃ m ∈ met, m.checked?.isSome = true := by
  rw [h.helper, List.any_eq_true]

/-- The account does not change while parameters wait. -/
theorem Accounts.patient (o : FileOptions) (met : List Meeting) : Patient o (Accounts o met) where
  finds hp hfs := by
    refine ⟨hp.recast, ?_, hp.helper⟩
    rw [castPlaces_append, castPlaces_of_ordinary hfs, List.append_nil]
    exact hp.places
  waits _ hp := ⟨hp.recast, hp.places, hp.helper⟩

/-- Nor does it when types make findings. -/
theorem Accounts.unbroken (o : FileOptions) (met : List Meeting) : Unbroken o (Accounts o met) where
  finds hp hfs := (Accounts.patient o met).finds hp fun f hf => (hfs f hf).toIsOrdinary
  markup hp := ⟨hp.recast, hp.places, hp.helper⟩

/-- A cast is entered by the rule for casts. -/
theorem enterRule?_of_isCast (h : isCast n = true) : enterRule? n.kind = some .typeCast := by
  rw [eq_of_beq h]
  rfl

/-- That rule enters nothing else. -/
theorem isCast_iff_typeCast {rule : EnterRule} (h : enterRule? n.kind = some rule) :
    isCast n = true ↔ rule = .typeCast := by
  refine ⟨fun hcast => ?_, ?_⟩
  · exact Option.some.inj (h.symm.trans (enterRule?_of_isCast hcast))
  · rintro rfl
    have hmem := mem_of_enterRule h
    have hkind : n.kind = "TypeCastExpression" := by simpa [enterRules, flowOnlyKinds] using hmem
    rw [isCast, hkind]
    rfl

/-- A meeting with a node that is not a cast. -/
theorem Accounts.snoc_other (h : Accounts o met p) {m : Meeting} (hm : isCast m.node = false) :
    Accounts o (met ++ [m]) p := by
  have hchecked : m.checked? = none := by rw [Meeting.checked?, hm]; rfl
  refine ⟨List.forall_mem_append.2 ⟨h.recast, List.forall_mem_singleton.2 fun hcast => ?_⟩, ?_, ?_⟩
  · rw [hm] at hcast
    cases hcast
  · rw [List.filterMap_append, List.filterMap_cons_none hchecked, List.filterMap_nil,
      List.append_nil]
    exact h.places
  · rw [List.any_append, List.any_cons, hchecked, h.helper]
    exact (Bool.or_false _).symm

/-- What a rule does to a cast, and what it records. -/
theorem enterCast_runs (place : Place) (n : Json) (p : Progress) :
    (enterCast o place n).Runs p fun visit p' => ∃ new, visit.node = Json.inherit n new ∧
      Recast o n new ∧
      castPlaces p'.findings = castPlaces p.findings ++ (checked? new).toList.map (placeOf o.path) ∧
      p'.usesHelper = (p.usesHelper || (checked? new).isSome) := by
  refine .bind (.ofResult fun strategy hstrategy => ?_)
  refine .bind (.bind (.ofRecorded ((rewriteCast_gives hstrategy).mono fun fs new hnew => ?_)))
  obtain ⟨hrecast, hplaces, hhelper⟩ := hnew
  refine .pure ?_
  have hfound : castPlaces (p.findings ++ fs) =
      castPlaces p.findings ++ (checked? new).toList.map (placeOf o.path) := by
    rw [castPlaces_append, hplaces]
  split
  next hsafe =>
    refine .bind (.modify (.pure ⟨new, rfl, hrecast, hfound, ?_⟩))
    rw [hhelper, decide_eq_true hsafe, Bool.or_true]
  next hsafe =>
    refine .pure ⟨new, rfl, hrecast, hfound, ?_⟩
    rw [hhelper, decide_eq_false hsafe, Bool.or_false]

/-- What a node is entered as is accounted for. -/
theorem enter_accounts (place : Place) (n : Json) :
    Noting.Keeps (Accounts o) ((rewriter o).noting.enter place n) := by
  intro met p h
  rw [run_noting_enter]
  refine .map ?_
  cases hcast : isCast n with
  | true =>
    rw [rewriter]
    dsimp only
    rw [enterRule?_of_isCast hcast]
    refine (enterCast_runs place n p).mono fun visit p' hvisit => ?_
    obtain ⟨new, hnode, hrecast, hplaces, hhelper⟩ := hvisit
    have hchecked : Meeting.checked? ⟨place, n, visit.node⟩ = checked? new := by
      rw [Meeting.checked?, if_pos hcast, hnode, checked?_inherit]
    refine ⟨List.forall_mem_append.2 ⟨h.recast, List.forall_mem_singleton.2 fun _ =>
      ⟨new, hnode, hrecast⟩⟩, ?_, ?_⟩
    · rw [hplaces, h.places, List.filterMap_append, List.map_append, List.filterMap_cons, hchecked]
      cases checked? new <;> rfl
    · rw [hhelper, h.helper, List.any_append, List.any_cons, hchecked, List.any_nil, Bool.or_false]
  | false =>
    have hkeeps : ((rewriter o).enter place n).Keeps (Accounts o met) := by
      rw [rewriter]
      dsimp only
      split
      next rule hrule =>
        refine applyEnter_keeps (Accounts.unbroken o met) place n (fun htype => ?_) fun _ =>
          awaitTypes_keeps (Accounts.patient o met) n
        rw [(isCast_iff_typeCast hrule).2 htype] at hcast
        cases hcast
      next => exact .pure _
    exact (Rewrite.Runs.of_keeps hkeeps h).mono fun _ _ h => h.snoc_other hcast

/-- Leaving a node keeps the account. -/
theorem leave_accounts (place : Place) (n : Json) :
    Noting.Keeps (Accounts o) ((rewriter o).noting.leave place n) := by
  intro met p h
  rw [run_noting_leave]
  refine .map (.of_keeps (I := Accounts o met) ?_ h)
  rw [rewriter]
  dsimp only
  split
  · exact applyLeave_keeps n _
  · exact .pure _

/-- **What was recorded about casts goes by what was met.** -/
theorem rewriteNoting_accounts {tree rewritten : Json}
    (h : rewriteNoting o tree = (.ok (rewritten, met), p)) : Accounts o met p :=
  Syntax.walkTree_closed (Noting.Keeps.closed (Accounts o)) enter_accounts leave_accounts
    (walkFuel tree) tree [] {} ⟨List.forall_mem_nil _, rfl, rfl⟩ (rewritten, met) p h

/-! ## The casts of a cast -/

/-- A cast is a node. -/
theorem isNode_of_isCast (h : isCast n = true) : n.isNode = true := by
  rw [Erasure.isNode_eq, Option.isSome_iff_ne_none]
  intro hnone
  have hkind : n.kind = "TypeCastExpression" := eq_of_beq h
  simp [Json.kind, Json.textAt, hnone, Json.text, Json.quoted] at hkind

/-- The casts in a cast are itself and those below it. -/
theorem castsIn_of_cast (h : isCast n = true) : castsIn n = n :: castsBelow n := by
  rw [castsIn_eq, if_pos h]
  rfl

/-- A cast holds other casts in its expression only. -/
theorem castless_of_cast (hplace : castsInPlace n = true) (hcast : isCast n = true)
    {entry : String × Json} (hentry : entry ∈ entriesOf n) (hkey : entry.1 ≠ "expression") :
    castless entry.2 = true := by
  refine castless_of_castsInPlace hplace hentry ?_
  rw [holdsNoExpression, hcast, bne_iff_ne.2 hkey]
  exact Bool.or_true _

/-- The casts below a cast are those in its expression. -/
theorem castsBelow_of_cast (hplace : castsInPlace n = true) (hcast : isCast n = true)
    (he : castExpression n = .ok e) : castsBelow n = castsAt e := by
  have hget := field_yields n "expression" e he
  obtain ⟨l, rfl⟩ := Json.exists_obj_of_get? hget
  exact castsAmong_eq (nodup_of_castsInPlace hplace) hget fun entry hentry hkey =>
    castsAt_of_castless (castless_of_cast hplace hcast hentry hkey)

/-- There are none in its type. -/
theorem castless_castType {type : Json} (hplace : castsInPlace n = true) (hcast : isCast n = true)
    (htype : castType n = .ok type) : castless type = true := by
  have hyields : Result.Yields (castType n) fun type => castless type = true := by
    refine .bind ((field_yields n "typeAnnotation").mono fun typed htyped => ?_)
    obtain ⟨l, rfl⟩ := Json.exists_obj_of_get? htyped
    have hfree : castless typed = true :=
      castless_of_cast hplace hcast (Entries.mem_of_get? htyped) (by simp)
    exact (field_yields typed "typeAnnotation").mono fun _ hget =>
      Json.everywhere_of_get? hfree hget
  exact hyields type htype

/-- A value is laid out without a cast. -/
def LaidFree (v : Json) : Prop := ∃ k, Due True (Everywhere (!isCast ·)) k v

/-- A value that is laid out without a cast has none. -/
theorem LaidFree.casts {v : Json} : LaidFree v → castsAt v = [] := fun h =>
  h.elim fun _ hdue => castsAt_of_due hdue

/-- The target of a cast whose type has no cast has none either. -/
theorem Target.laidFree {c : TypeContext} {type target : Json} (h : Target c e type target)
    (htype : castless type = true) : LaidFree target := by
  cases h with
  | becomes rewritten =>
    exact ⟨_, (migrateNode_laid c (everywhere_keyPasses htype) _ rewritten).due⟩
  | const =>
    exact ⟨2, .node (List.forall_mem_singleton.2 (.name "const" none)) (by decide) (by simp)⟩

/-- A node whose casts are those of one value in it. -/
structure Wraps (new v : Json) : Prop where
  casts : castsBelow new = castsAt v
  unmarked : AllInside Unmarked v → AllBelow Unmarked new

/-- What wraps a value still does with another node's positions. -/
theorem Wraps.inherit {new v : Json} (h : Wraps new v) (origin : Json) :
    Wraps (Json.inherit origin new) v := by
  refine ⟨(castsBelow_inherit origin new).trans h.casts, fun hunmarked => .intro ?_ ?_⟩
  · intro w hget
    rw [Json.get?_inherit_ne (by decide)] at hget
    exact (h.unmarked hunmarked).self w hget
  · intro key w hmeta hget
    rw [Json.get?_inherit_ne fun hmem => hmeta (mem_metadataKeys hmem)] at hget
    exact (h.unmarked hunmarked).get? hmeta hget

/-- A node of which one entry alone has casts. -/
theorem wraps_of_entries (key : String) {l : Entries} {v : Json} (hkeys : (l.map (·.1)).Nodup)
    (hget : l.get? key = some v) (hkey : key ∉ "optional" :: Json.metadataKeys)
    (h : ∀ entry ∈ l, entry.1 ≠ key → castsAt entry.2 = []) : Wraps (.obj l) v := by
  obtain ⟨hmarker, hmeta⟩ := not_or.1 (List.mem_cons.not.1 hkey)
  refine ⟨(castsAmong_eq hkeys hget h).trans (if_neg (by simpa using hmeta)), fun hunmarked => ?_⟩
  refine .of_entries (fun w hw => h _ (Entries.mem_of_get? hw) (Ne.symm hmarker)) ?_
  intro entry hentry _
  by_cases hsame : entry.1 = key
  · obtain rfl : v = entry.2 := by
      rw [← hsame] at hget
      exact Option.some.inj (hget.symm.trans (Entries.get?_of_mem hkeys hentry))
    exact hunmarked
  · exact unmarkedInside_of_castsAt (h entry hentry hsame)

/-- An `as` expression holds the casts of its expression. -/
theorem asExpression_wraps {target : Json} (h : LaidFree target) :
    Wraps (asExpression e target) e := by
  refine wraps_of_entries "expression" (by simp) rfl (by decide) ?_
  simp only [List.forall_mem_cons]
  exact ⟨fun _ => rfl, fun hkey => absurd rfl hkey, fun _ => h.casts, fun _ => rfl,
    List.forall_mem_nil _⟩

/-- The casts in an `as` are those in its expression. -/
theorem castsAt_asExpression {target : Json} (h : LaidFree target) :
    castsAt (asExpression e target) = castsAt e := by
  rw [castsAt_of_isNode rfl, castsIn_of_not_cast rfl, (asExpression_wraps h).casts]

/-- So does a call of the helper. -/
theorem safeCastCall_wraps {binding : String} {target : Json} (he : e.isObject = true)
    (h : LaidFree target) : Wraps (safeCastCall binding e target) e := by
  obtain ⟨l, rfl⟩ := exists_obj_of_isObject he
  have hwraps : Wraps (safeCastCall binding (.obj l) target) (.arr [.obj l]) := by
    have hcallee : LaidFree (TypeScript.node "MemberExpression"
        [("object", TypeScript.identifier binding []),
          ("property", TypeScript.identifier "cast" []),
          ("computed", .bool false)]) := by
      refine ⟨2, .node ?_ (by decide) (by simp)⟩
      simp only [List.forall_mem_cons]
      exact ⟨.name binding none, .name "cast" none, .bool _, List.forall_mem_nil _⟩
    obtain ⟨k, htarget⟩ := h
    have htypes : LaidFree (TypeScript.node "TSTypeParameterInstantiation"
        [("params", .arr [target])]) :=
      ⟨k + 1, .node (List.forall_mem_singleton.2 (.arr (List.forall_mem_singleton.2 htarget)))
        (by decide) (by simp)⟩
    refine wraps_of_entries "arguments" (by simp) rfl (by decide) ?_
    simp only [List.forall_mem_cons]
    exact ⟨fun _ => rfl, fun _ => hcallee.casts, fun hkey => absurd rfl hkey,
      fun _ => htypes.casts, List.forall_mem_nil _⟩
  have hnodes : (Json.arr [.obj l]).nodes = (Json.obj l).nodes := by
    rw [Json.nodes, Json.nodes, List.filter_singleton]
    · cases (Json.obj l).isNode <;> rfl
    · rintro _ ⟨⟩
  refine ⟨hwraps.casts.trans (congrArg (List.flatMap castsIn) hnodes), fun hunmarked => ?_⟩
  exact hwraps.unmarked (by rwa [AllInside, hnodes])

/-- **What a cast becomes has the casts of its expression**, and the cast
accounts for itself and the one inside it. -/
theorem Recast.casts_eq {new : Json} (h : Recast o n new) (hcast : isCast n = true)
    (hplace : n.everywhere castsInPlace = true) :
    ∃ e, Wraps new e ∧ e.everywhere castsInPlace = true ∧
      castsIn n = n :: (nestedCast? n).toList ++ castsAt e := by
  have hself := Json.everywhere_self hplace
  have single {e type : Json} (hparts : CastParts n e type) (hsingle : nestedCast? n = none) :
      e.everywhere castsInPlace = true ∧ castsIn n = n :: (nestedCast? n).toList ++ castsAt e := by
    have hget := field_yields n "expression" e hparts.expression
    refine ⟨Json.everywhere_of_get? hplace hget, ?_⟩
    rw [castsIn_of_cast hcast, castsBelow_of_cast hself hcast hparts.expression, hsingle]
    rfl
  have nested {inner e type type' : Json} (hparts : CastParts n inner type)
      (hnested : nestedCast? n = some inner) (hinside : CastParts inner e type') :
      e.everywhere castsInPlace = true ∧ castsIn n = n :: (nestedCast? n).toList ++ castsAt e ∧
        castless type' = true := by
    have hget := field_yields n "expression" inner hparts.expression
    have hinner := Json.everywhere_of_get? hplace hget
    have hinnerSelf := Json.everywhere_self hinner
    have hinnerCast : isCast inner = true := by
      have hkind := kind_of_kind (get?_of_hasText
        (unsound_of_nestedCast? hparts.expression hnested).1)
      rw [isCast, hkind]
      rfl
    refine ⟨Json.everywhere_of_get? hinner (field_yields inner "expression" e hinside.expression),
      ?_, castless_castType hinnerSelf hinnerCast hinside.type⟩
    rw [castsIn_of_cast hcast, castsBelow_of_cast hself hcast hparts.expression, hnested,
      castsAt_of_isNode (isNode_of_isCast hinnerCast), castsIn_of_cast hinnerCast,
      castsBelow_of_cast hinnerSelf hinnerCast hinside.expression]
    rfl
  cases h with
  | @asserted e type target hparts hsingle _ hbecomes =>
    have htarget := hbecomes.laidFree (castless_castType hself hcast hparts.type)
    exact ⟨e, asExpression_wraps htarget, single hparts hsingle⟩
  | @unwrapped inner e type type' target hparts hnested hinside _ hbecomes =>
    have htarget := hbecomes.laidFree (castless_castType hself hcast hparts.type)
    obtain ⟨hsource, hcasts, -⟩ := nested hparts hnested hinside
    exact ⟨e, asExpression_wraps htarget, hsource, hcasts⟩
  | @doubled inner e type type' target target' hparts hnested hinside _ hbecomes hbecomes' =>
    have htarget := hbecomes.laidFree (castless_castType hself hcast hparts.type)
    obtain ⟨hsource, hcasts, hfree⟩ := nested hparts hnested hinside
    have htarget' := hbecomes'.laidFree hfree
    refine ⟨e, ⟨?_, fun hunmarked => ?_⟩, hsource, hcasts⟩
    · rw [(asExpression_wraps htarget).casts, castsAt_asExpression htarget']
    · exact (asExpression_wraps htarget).unmarked
        (((asExpression_wraps htarget').unmarked hunmarked).value rfl)
  | @called e type target hparts hsingle hbecomes =>
    have htarget := hbecomes.laidFree (castless_castType hself hcast hparts.type)
    have hobject := isObject_of_field hparts.expression
    exact ⟨e, safeCastCall_wraps hobject htarget, single hparts hsingle⟩

/-! ## What a walk meets -/

variable {place : Place} {k : Nat}

/-- A node with its casts in place has each key once. -/
theorem orderly : True → ∀ l : Entries, castsInPlace (.obj l) = true → (l.map (·.1)).Nodup :=
  fun _ _ => nodup_of_castsInPlace

/-- A node that belongs to a type has no casts. -/
theorem castless_of_flowType (hplace : n.everywhere castsInPlace = true) (hn : n.isNode = true)
    (hkind : n.kind ∈ flowTypeKinds) : castless n = true := by
  obtain ⟨l, rfl⟩ := exists_obj_of_isObject (isObject_of_isNode hn)
  have hall : ∀ kind ∈ flowTypeKinds, (!(kind == "TypeCastExpression")) = true := by decide
  refine Json.everywhere_obj_iff.2 ⟨hall _ hkind, fun entry hentry => ?_⟩
  refine castless_of_castsInPlace (Json.everywhere_self hplace) hentry ?_
  rw [holdsNoExpression, List.contains_iff_mem.2 hkind, Bool.or_true, Bool.true_or]

/-- What is known of a node that was entered: the casts of the node are those
that it accounts for and those below what took its place. -/
structure EnteredAs (k : Nat) (place : Place) (n m : Json) : Prop where
  isNode : m.isNode = true
  casts : castsIn n = Meeting.casts ⟨place, n, m⟩ ++ castsBelow m
  unmarked : AllBelow Unmarked m
  keys : ((entriesOf m).map (·.1)).Nodup
  parts : DueParts True (Everywhere castsInPlace) k m

/-- What was entered of a node that is not a cast has the casts of the node. -/
theorem Enters.castsBelow_eq {site : Site} {mark : Bool}
    (h : Enters True castsInPlace o site n m mark) (hn : n.isNode = true)
    (hcast : isCast n = false) (hunmarked : AllBelow Unmarked n)
    (hfree : castless n = true → castsBelow m = []) :
    castsBelow m = castsIn n ∧ AllBelow Unmarked m := by
  cases h with
  | free => exact ⟨(castsIn_of_not_cast hcast).symm, hunmarked⟩
  | @kept rule _ _ source _ =>
    have hkept : UnmovedBelow n (keptAs o site n rule) :=
      keptAs_unmoved (Json.everywhere_self source)
    exact ⟨hkept.casts.trans (castsIn_of_not_cast hcast).symm, hkept.unmarked hunmarked⟩
  | @replaced rule new mark k rules gives source replaced =>
    -- all other nodes that lose their place belong to types
    have hkinds : ∀ entry ∈ enterRules, entry.2.keepsPlace = false →
        entry.2 = .typeCast ∨ entry.2 = .flowOnly ∨ entry.1 ∈ flowTypeKinds := by decide
    have hcastless : castless n = true := by
      rcases hkinds _ (mem_of_enterRule rules) gives with htype | hflow | hkind
      · rw [(isCast_iff_typeCast rules).2 htype] at hcast
        cases hcast
      · obtain rfl : rule = .flowOnly := hflow
        have hparts : ∀ part ∈ partKinds, part.1 ≠ .flowOnly := by decide
        cases replaced.replaces with
        | part hpart => exact absurd rfl (hparts _ hpart)
      · exact castless_of_flowType source hn hkind
    have hnil := hfree hcastless
    exact ⟨hnil.trans (castsIn_of_castless hcastless).symm, unmarkedBelow_of_castsBelow hnil⟩

/-- A node without a cast becomes one without a cast below. -/
theorem enter_castless (hn : n.isNode = true)
    (hdue : Due True (Everywhere castsInPlace) (k + 1) n) : ((rewriter o).enter place n).Yields
      fun visit => castless n = true → castsBelow visit.node = [] := by
  cases hfree : castless n with
  | false => exact .trivial _ fun _ htrue => absurd htrue Bool.false_ne_true
  | true =>
    obtain ⟨-, -, hsource⟩ := hdue.visited orderly hn
    rcases hsource with hruleless | ⟨-, hnesting⟩
    · rw [rewriter]
      dsimp only
      rw [hruleless.1]
      exact .pure fun _ => (castsIn_eq_nil.1 (castsIn_of_castless hfree)).2
    · have hdue' : Due False (Everywhere (!isCast ·)) (k + 1) n := .source hnesting hfree
      refine (enter_visited (fun h => h.elim) hn hdue').mono fun visit hvisit _ => ?_
      obtain ⟨mark, -, -, hparts⟩ := hvisit
      exact castsBelow_of_dueParts hparts

/-- **What becomes of a cast**, with the reason. -/
theorem enter_recast (hcast : isCast n = true) : ((rewriter o).enter place n).Yields
    fun visit => ∃ new, visit.node = Json.inherit n new ∧ Recast o n new := by
  rw [rewriter]
  dsimp only
  rw [enterRule?_of_isCast hcast]
  refine fun p => (enterCast_runs place n p).mono fun visit _ hvisit => ?_
  obtain ⟨new, hnode, hrecast, -⟩ := hvisit
  exact ⟨new, hnode, hrecast⟩

/-- Each field is a marker. -/
def OnlyMarkers (fields : Entries) : Prop := ∀ field ∈ fields, field.1 = "optional"

/-- No field is a field that is no marker. -/
theorem OnlyMarkers.nil : OnlyMarkers [] := List.forall_mem_nil _

/-- The fields a marker gives are markers. -/
theorem OnlyMarkers.markers (mark : Bool) : OnlyMarkers (Migration.markers mark) := by
  cases mark with
  | true => exact List.forall_mem_singleton.2 rfl
  | false => exact .nil

/-- Markers joined are markers. -/
theorem OnlyMarkers.append {fields fields' : Entries} (h : OnlyMarkers fields)
    (h' : OnlyMarkers fields') : OnlyMarkers (fields ++ fields') :=
  List.forall_mem_append.2 ⟨h, h'⟩

/-- **What a node is entered as accounts for its casts.** -/
theorem enter_casts (hn : n.isNode = true) (hdue : Due True (Everywhere castsInPlace) (k + 1) n)
    (hunmarked : AllBelow Unmarked n) : ((rewriter o).enter place n).Yields fun visit =>
      EnteredAs k place n visit.node ∧ OnlyMarkers visit.parentFields := by
  cases hcast : isCast n with
  | true =>
    refine ((enter_visited orderly hn hdue).and (enter_recast hcast)).mono fun visit hvisit => ?_
    obtain ⟨⟨mark, henters, hfields, hparts⟩, new, hnode, hrecast⟩ := hvisit
    have hsource := henters.source (by rw [enterRule?_of_isCast hcast]; exact Option.some_ne_none _)
    obtain ⟨e, hwraps, he, hcasts⟩ := hrecast.casts_eq hcast hsource
    have hinherits := hwraps.inherit n
    rw [← hnode] at hinherits
    refine ⟨⟨henters.isNode hn, ?_, hinherits.unmarked (unmarkedInside_of_source he),
      henters.keys_nodup (orderly trivial) trivial, hparts⟩, hfields ▸ .markers mark⟩
    rw [hcasts, hinherits.casts, Meeting.casts, if_pos hcast]
  | false =>
    refine ((enter_visited orderly hn hdue).and (enter_castless hn hdue)).mono
      fun visit hvisit => ?_
    obtain ⟨⟨mark, henters, hfields, hparts⟩, hfree⟩ := hvisit
    obtain ⟨hcasts, hbelow⟩ := henters.castsBelow_eq hn hcast hunmarked hfree
    refine ⟨⟨henters.isNode hn, ?_, hbelow, henters.keys_nodup (orderly trivial) trivial, hparts⟩,
      hfields ▸ .markers mark⟩
    rw [hcasts, Meeting.casts, hcast]
    rfl

/-! ## The casts that were met -/

/-- The casts that some meetings account for. -/
def metCasts (met : List Meeting) : List Json := met.flatMap Meeting.casts

/-- The casts that were met are listed in the order of the meetings. -/
theorem metCasts_append (met more : List Meeting) :
    metCasts (met ++ more) = metCasts met ++ metCasts more := List.flatMap_append

section
variable {visit : Place → Json → Noting (Walked Json)}
  (hvisit : ∀ place n, n.isNode = true → Due True (Everywhere castsInPlace) k n →
    AllBelow Unmarked n → Noting.Notes (visit place n) fun new w =>
      castsIn n = metCasts new ∧ OnlyMarkers w.parentFields)
include hvisit

/-- **The walk of a list meets its casts, once each and in order.** -/
theorem walkItems_notes (frame : List Json → List Json → Frame) (up : Place)
    (done : Walked (List Json)) (items : List Json) (hdone : OnlyMarkers done.parentFields)
    (hdue : ∀ item ∈ items, Due True (Everywhere castsInPlace) k item)
    (hunmarked : AllInside Unmarked (.arr items)) :
    Noting.Notes (Syntax.walkItems visit frame up done items) fun new w =>
      castsAt (.arr items) = metCasts new ∧ OnlyMarkers w.parentFields := by
  induction items generalizing done with
  | nil => exact .pure ⟨rfl, hdone⟩
  | cons item rest ih =>
    rw [List.forall_mem_cons] at hdue
    have hbelow := allInside_arr_iff.1 hunmarked
    rw [List.forall_mem_cons] at hbelow
    have hrest : AllInside Unmarked (.arr rest) := allInside_arr_iff.2 hbelow.2
    rw [Syntax.walkItems]
    refine .ite (fun hn => .bind ?_) fun hn => .bind (.pure ?_)
    · refine (hvisit _ _ hn hdue.1 (hbelow.1 hn)).mono fun new w hw => ?_
      refine (ih (done.snoc w) (hdone.append hw.2) hdue.2 hrest).mono fun more w' hw' => ⟨?_, hw'.2⟩
      rw [metCasts_append, ← hw.1, ← hw'.1]
      simp [castsAt, Json.nodes, hn]
    · refine (ih (done.snoc (Walked.same item)) (hdone.append .nil) hdue.2 hrest).mono
        fun more w' hw' => ⟨?_, hw'.2⟩
      rw [List.nil_append, ← hw'.1]
      simp [castsAt, Json.nodes, hn]

/-- So does the walk of an entry. -/
theorem walkEntry_notes (up : Place) (before : Entries) (key : String) (after : Entries) (v : Json)
    (hdue : Due True (Everywhere castsInPlace) k v) (hunmarked : AllInside Unmarked v) :
    Noting.Notes (Syntax.walkEntry visit up before key after v) fun new w =>
      castsAt v = metCasts new ∧ OnlyMarkers w.parentFields := by
  unfold Syntax.walkEntry
  split
  next items =>
    refine .bind ((walkItems_notes hvisit _ _ _ items .nil hdue.items hunmarked).mono
      fun new w hw => .pure ?_)
    rw [List.append_nil]
    exact hw
  next hlist =>
    refine .ite (fun hn => ?_) fun hn => .pure ⟨?_, .nil⟩
    · rw [castsAt_of_isNode hn]
      exact hvisit _ _ hn hdue (hunmarked.node hn)
    · refine castsAt_of_not_isNode (by simpa using hn) ?_
      cases v with
      | arr items => exact absurd rfl (hlist items)
      | _ => rfl

/-- What is known of an entry that is to be walked. -/
structure EntryDue (k : Nat) (key : String) (v : Json) : Prop where
  due (h : key ∉ Json.metadataKeys) : Due True (Everywhere castsInPlace) k v
  unmarked (h : key ∉ Json.metadataKeys) : AllInside Unmarked v
  marker (h : key = "optional") : castsAt v = []

/-- So does the walk of all entries. -/
theorem walkEntries_notes (up : Place) (done : Walked Entries) (entries : Entries)
    (hdone : OnlyMarkers done.parentFields)
    (hentries : ∀ entry ∈ entries, EntryDue k entry.1 entry.2) :
    Noting.Notes (Syntax.walkEntries visit up done entries) fun new w =>
      castsAmong entries = metCasts new ∧ OnlyMarkers w.parentFields := by
  induction entries generalizing done with
  | nil => exact .pure ⟨rfl, hdone⟩
  | cons entry rest ih =>
    obtain ⟨key, v⟩ := entry
    rw [List.forall_mem_cons] at hentries
    rw [Syntax.walkEntries]
    refine .ite (fun hskip => .bind (.pure ?_)) fun hwalk => .bind ?_
    · have hnone : castsUnder key v = [] := by
        refine castsUnder_eq_nil.2 fun hmeta => hentries.1.marker ?_
        -- what is skipped and holds no metadata was given by a child
        rw [Bool.or_eq_true, List.contains_iff_mem] at hskip
        obtain ⟨field, hfield, hkey⟩ := List.any_eq_true.1 (hskip.resolve_left hmeta)
        exact (of_decide_eq_true hkey).symm.trans (hdone field hfield)
      refine (ih _ (hdone.append .nil) hentries.2).mono fun more w hw => ⟨?_, hw.2⟩
      rw [castsAmong_cons, hnone]
      exact hw.1
    · have hmeta : key ∉ Json.metadataKeys := fun hmem => by simp [hmem] at hwalk
      refine (walkEntry_notes hvisit _ _ _ _ v (hentries.1.due hmeta)
        (hentries.1.unmarked hmeta)).mono fun new w hw => ?_
      refine (ih _ (hdone.append hw.2) hentries.2).mono fun more w' hw' => ⟨?_, hw'.2⟩
      rw [castsAmong_cons, metCasts_append, ← hw.1, ← hw'.1, castsUnder]
      simp [hmeta]

/-- So does the walk below a node. -/
theorem walkChildren_notes (up : Place) (h : EnteredAs k place n m) :
    Noting.Notes (Syntax.walkChildren visit up m) fun new w =>
      castsBelow m = metCasts new ∧ OnlyMarkers w.parentFields := by
  obtain ⟨l, rfl⟩ := exists_obj_of_isObject (isObject_of_isNode h.isNode)
  rw [Syntax.walkChildren]
  refine .bind ((walkEntries_notes hvisit up (Walked.same []) l .nil fun entry hentry => ?_).mono
    fun new w hw => .pure ?_)
  · have hget : (Json.obj l).get? entry.1 = some entry.2 := Entries.get?_of_mem h.keys hentry
    exact ⟨h.parts entry hentry, fun hmeta => h.unmarked.get? hmeta hget,
      fun hkey => h.unmarked.self _ (hkey ▸ hget)⟩
  · rw [List.append_nil]
    exact ⟨hw.1, .nil⟩

end

/-- **The casts of the source are those that were met**, each with the cast
inside it that is not met. -/
theorem walk_notes (fuel : Nat) : ∀ (place : Place) (n : Json), n.isNode = true →
    Due True (Everywhere castsInPlace) fuel n → AllBelow Unmarked n →
    Noting.Notes (Syntax.walk (rewriter o).noting fuel place n) fun new w =>
      castsIn n = metCasts new ∧ OnlyMarkers w.parentFields := by
  induction fuel with
  | zero => exact fun _ _ hn hdue => absurd hdue (Due.not_zero hn)
  | succ fuel ih =>
    intro place n hn hdue hunmarked
    rw [Syntax.walk]
    refine .bind ((enter_notes (enter_casts hn hdue hunmarked)).mono fun new entered hentered => ?_)
    obtain ⟨rfl, hcasts, hfields⟩ := hentered
    refine .bind ((walkChildren_notes ih place hcasts).mono fun more inside hinside => ?_)
    refine .bind (leave_notes.mono fun none left hnone => .pure ⟨?_, hfields⟩)
    rw [hnone, List.append_nil, List.append_nil, metCasts_append, ← hinside.1, hcasts.casts]
    simp [metCasts]

/-- **Casts are accounted for.** Let a file or a program be rewritten. Each cast
that the walk meets becomes an `as`, for a reason, or one call of the helper. The
casts that are recorded are those of the expressions of the calls, one each, in
the order of the walk; inferring types for parameters records none. Where casts
stand in expressions only, as in every tree that Babel parses, the casts of the
source are those that were met, each with the cast inside it that was unsound
already and is not met. -/
theorem casts_accounted {tree rewritten : Json} (hroot : tree.kind ∈ rootKinds)
    (h : rewriteTree o tree = (.ok rewritten, p)) :
    ∃ met, rewriteNoting o tree = (.ok (rewritten, met), p) ∧
      (∀ m ∈ met, isCast m.node = true →
        ∃ new, m.entered = Json.inherit m.node new ∧ Recast o m.node new) ∧
      (Report.ofFindings p.findings).places .unsupportedTypeCast =
        (met.filterMap (·.checked?)).map (placeOf o.path) ∧
      (∀ location inferred, location.path = o.path →
        (Report.ofFindings (annotationInferred o location inferred).findings).places
          .unsupportedTypeCast = []) ∧
      (tree.everywhere castsInPlace = true → castsIn tree = met.flatMap Meeting.casts) := by
  obtain ⟨met, hmet⟩ := exists_rewriteNoting h
  have haccounts := rewriteNoting_accounts hmet
  refine ⟨met, hmet, haccounts.recast, haccounts.places, fun location inferred hpath => ?_,
    fun hplace => ?_⟩
  · exact castPlaces_of_ordinary (annotationInferred_finds o inferred hpath)
  · have hn := isNode_of_root hroot
    have hdue : Due True (Everywhere castsInPlace) (walkFuel tree) tree := by
      refine .source ?_ hplace
      have hle := Json.nesting_le_depth tree
      rw [walkFuel]
      omega
    have hwalk : Noting.Notes (Syntax.walkTree (rewriter o).noting (walkFuel tree) tree)
        fun new _ => castsIn tree = metCasts new :=
      .bind ((walk_notes _ [] tree hn hdue ((unmarkedInside_of_source hplace).node hn)).mono
        fun new w hw => .pure (by rw [List.append_nil]; exact hw.1))
    obtain ⟨new, hnew, hcasts⟩ := hwalk [] {} (rewritten, met) p hmet
    obtain rfl : met = new := hnew
    exact hcasts

open TypeScript (node identifier) in
/-- `((a: any): string); (b: string); (1: number);` -/
def castsFile : Json :=
  let cast (e : Json) (kind : String) : Json :=
    node "TypeCastExpression" [("expression", e),
      ("typeAnnotation", node "TypeAnnotation" [("typeAnnotation", node kind [])])]
  let statement (e : Json) : Json := node "ExpressionStatement" [("expression", e)]
  node "Program" [("body", .arr [
    statement (cast (cast (identifier "a" []) "AnyTypeAnnotation") "StringTypeAnnotation"),
    statement (cast (identifier "b" []) "StringTypeAnnotation"),
    statement (cast (node "NumericLiteral" [("value", .int 1)]) "NumberTypeAnnotation")])]

/-- A file with casts of each kind. -/
theorem casts_accounted_castsFile : castsFile.kind ∈ rootKinds ∧
    castsFile.everywhere castsInPlace = true ∧ ∃ rewritten p, ∃ met : List Meeting,
      rewriteTree { path := "a.js" } castsFile = (.ok rewritten, p) ∧
      p.findings = [.place .unsupportedTypeCast (Location.unknown "a.js")] ∧
      (Report.ofFindings p.findings).places .unsupportedTypeCast =
        (met.filterMap (·.checked?)).map (placeOf "a.js") ∧
      castsIn castsFile = met.flatMap Meeting.casts := by
  have hplace : castsFile.everywhere castsInPlace = true := by decide +kernel
  have hok : (rewriteTree { path := "a.js" } castsFile).1.toOption.isSome = true ∧
      (rewriteTree { path := "a.js" } castsFile).2.findings =
        [.place .unsupportedTypeCast (Location.unknown "a.js")] := by
    decide +kernel
  obtain ⟨rewritten, hrun⟩ := exists_rewritten hok.1
  obtain ⟨met, -, -, hplaces, -, hcasts⟩ := casts_accounted (by decide) hrun
  exact ⟨by decide, hplace, rewritten, _, met, hrun, hok.2, hplaces, hcasts hplace⟩

end Migration

end Retype
