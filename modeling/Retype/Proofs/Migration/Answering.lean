import Retype.Proofs.Migration.Origin
import Retype.Proofs.Migration.Settling
/-!
# What an answer does to a parameter

An answer gives a parameter an annotation, or the parameter is recorded where
it stands; never both, and one of them always (`annotationInferred_answers`).
So, once both stages are over, the open parameters of the outcome are those
that no answer has given an annotation (`Settles.left_open`), and the others have
one of TypeScript (`Settles.fates`).
-/

namespace Retype.Migration

variable {o : FileOptions} {location : Location} {a : Option Json} {fs : List Finding}
  {param param' : Json} {s s' : List (Option Json)} {L L' : List Json} {v : Json}
  {kinds : List String}

/-! ## What was inferred -/

theorem plainKind_stripPositions (v : Json) : v.stripPositions.plainKind = v.plainKind := by
  rw [Json.plainKind, Json.plainKind, get?_stripPositions (by decide)]
  cases v.get? "type" with
  | none => rfl
  | some w => cases w <;> rfl

/-- What has no node of some kinds has none without its positions. -/
theorem without_stripPositions (hproper : ∀ kind ∈ kinds, isProper kind = true)
    (h : without kinds v = true) : without kinds v.stripPositions = true := by
  refine everywhere_stripPositions (fun w hw => ?_) h
  rw [Bool.not_eq_true', ← Bool.not_eq_true, List.contains_iff_mem] at hw ⊢
  refine fun hmem => hw ?_
  have hkind := (plainKind_eq_iff (hproper _ hmem)).2 rfl
  rw [plainKind_stripPositions, plainKind_eq_iff (hproper _ hmem)] at hkind
  rwa [hkind]

theorem keyPasses_stripPositions (hproper : ∀ kind ∈ kinds, isProper kind = true)
    (h : keyPasses (fun n => !kinds.contains n.kind) v = true) :
    keyPasses (fun n => !kinds.contains n.kind) v.stripPositions = true := by
  rw [keyPasses, hasText_stripPositions, get?_stripPositions (by decide)]
  rw [keyPasses] at h
  cases hkey : v.get? "key" with
  | none => simp
  | some key =>
    rw [hkey, Bool.or_eq_true] at h
    rw [Bool.or_eq_true]
    exact h.imp_right fun hpasses => without_stripPositions hproper hpasses

/-- An annotation of TypeScript in which nothing is asked about. -/
structure Typing (o : FileOptions) (given : Json) : Prop where
  kind : given.hasText "type" "TSTypeAnnotation" = true
  blank : Blank (ownParams o) given

/-- If an annotation was given, it is such a one. -/
def GivesTyping (o : FileOptions) (a : Option Json) : Prop :=
  ∀ annotation, a = some annotation → Typing o annotation

/-- **What an answer gives**: an annotation, or a record of the place. -/
structure Answers (o : FileOptions) (location : Location) (a : Option Json) (fs : List Finding) :
    Prop where
  typing : GivesTyping o a
  places : openPlaces fs = if a.isNone then [location] else []

theorem openPlaces_of_types {path : String} (h : ∀ f ∈ fs, f.IsOfType path) : openPlaces fs = [] :=
  openPlaces_eq_nil fun f hf => (h f hf).annotated

/-- An inferred type without functions becomes such an annotation. -/
theorem annotationInferred_typing {inferred : Option Json}
    (h : ∀ type, inferred = some type → without askingKinds type = true) :
    (annotationInferred o location inferred).Yields (GivesTyping o) := by
  have hproper : ∀ kind ∈ askingKinds, isProper kind = true := by decide
  refine ( annotationInferred_laid keyRule_keyPasses
    (fun _ => keyPasses_stripPositions hproper) fun type htype =>
      everywhere_keyPasses (h type htype)).mono fun a ha annotation hsome => ?_
  obtain ⟨k, u, hu, rfl⟩ := ha annotation hsome
  exact ⟨rfl, .of_due (ownParams_markerFree o).ofKinds (D := True)
    (Due.annotated hu.due)⟩

/-- An answer that is of no use, or whose type has no counterpart, records the
place; any other one gives an annotation. -/
theorem annotationInferred_places {inferred : Option Json}
    (hresult : (annotationInferred o location inferred).result = .ok a) :
    openPlaces (annotationInferred o location inferred).findings =
      if a.isNone then [location] else [] := by
  cases inferred with
  | none =>
    obtain rfl : none = a := Except.ok.inj hresult
    rfl
  | some type =>
    have hmigrated : (migrateInferred o type).Finds (Finding.IsOfType o.path) :=
      .ite (.pure _) (migrateNode_finds o.types _)
    have hgiven (t : TsType) : (annotationOf t).Finds (Finding.IsOfType o.path) := by
      rw [annotationOf]
      exact .ite (.bind (anyAlias_finds .inferred none) fun _ => .pure _)
        (.bind (.pure _) fun _ => .pure _)
    have hsome (t : TsType) : (annotationOf t).Yields fun a => a.isNone = false := by
      rw [annotationOf]
      exact .ite (fun _ => .bind (.trivial _ fun _ => .pure rfl)) fun _ => .bind (.pure (.pure rfl))
    dsimp only [annotationInferred] at hresult ⊢
    rw [openPlaces_append, openPlaces_of_types hmigrated, List.nil_append]
    split at hresult
    · obtain rfl : none = a := Except.ok.inj hresult
      rfl
    · cases hresult
    next t _ =>
      rw [hsome t a hresult]
      exact openPlaces_of_types (hgiven t)

/-- **An answer gives an annotation, or the place is recorded.** -/
theorem annotationInferred_answers {inferred : Option Json}
    (h : ∀ type, inferred = some type → without askingKinds type = true)
    (hresult : (annotationInferred o location inferred).result = .ok a) :
    Answers o location a (annotationInferred o location inferred).findings :=
  ⟨annotationInferred_typing h a hresult, annotationInferred_places hresult⟩

/-! ## What becomes of the parameters -/

/-- **What becomes of a parameter in both stages.** One that was open has an
annotation of TypeScript, or is still open; it is called as before and stands
where it stood. No other one is open. -/
structure Fate (param param' : Json) : Prop where
  closed (h : isUnannotated param = false) : isUnannotated param' = false
  typed (h : isUnannotated param = true) : isUnannotated param' = true ∨
    ∃ annotation, param'.get? "typeAnnotation" = some annotation ∧
      annotation.hasText "type" "TSTypeAnnotation" = true
  loc (h : isUnannotated param = true) : param'.get? "loc" = param.get? "loc"
  name (h : isUnannotated param = true) (text : String) :
    param'.hasText "name" text = param.hasText "name" text

theorem SameParam.fate (h : SameParam param param') : Fate param param' :=
  ⟨h.unannotated.trans, fun hun => .inl (h.unannotated.trans hun), h.loc, h.name⟩

/-- A parameter that has been open, and then got a type. -/
theorem Typing.isUnannotated_set {given : Json} (h : Typing o given)
    (hun : isUnannotated param = true) :
    isUnannotated (param.set "typeAnnotation" given) = false ∧
      (param.set "typeAnnotation" given).get? "typeAnnotation" = some given := by
  have hname := (Bool.and_eq_true_iff.1 hun).1
  obtain ⟨l, rfl⟩ := Json.exists_obj_of_get? (get?_of_hasText hname)
  have hget : ((Json.obj l).set "typeAnnotation" given).get? "typeAnnotation" =
    some given := Entries.get?_set_self l _ _
  have hn : given.isNode = true := by
    rw [Erasure.isNode_eq, get?_of_hasText h.kind]
    rfl
  obtain ⟨-, -, htrue⟩ := Json.isTrue_of_isNode hn
  refine ⟨?_, hget⟩
  rw [isUnannotated, Json.holds, hget]
  simp [htrue]

theorem Gets.fate (h : Gets param a param') (hun : isUnannotated param = true)
    (ha : GivesTyping o a) :
    Fate param param' ∧ isUnannotated param' = a.isNone := by
  cases h with
  | none same => exact ⟨same.fate, same.unannotated.trans hun⟩
  | @some dressed given same =>
    obtain ⟨hclosed, hget⟩ := (ha given rfl).isUnannotated_set (same.unannotated.trans hun)
    refine ⟨⟨fun _ => hclosed, fun _ => .inr ⟨given, hget, (ha given rfl).kind⟩,
      fun _ => ?_, fun _ text => ?_⟩, hclosed⟩
    · exact (Json.get?_set_ne (by decide) _).trans (same.loc hun)
    · exact (Json.hasText_congr (Json.get?_set_ne (by decide) _) text).trans (same.name hun text)

/-- The places that are left when some annotations have been given, or none in
the place of one. -/
def leftOpen : List Location → List (Option Json) → List Location
  | places, [] => places
  | [], _ => []
  | place :: places, a :: s => if a.isNone then place :: leftOpen places s else leftOpen places s

@[simp] theorem leftOpen_nil (places : List Location) : leftOpen places [] = places := by
  cases places <;> rfl

theorem placeOf_congr (path : String) (h : param'.get? "loc" = param.get? "loc") :
    placeOf path param' = placeOf path param := by
  rw [placeOf, placeOf, Location.ofNode?, Location.ofNode?, Location.objectAt?,
    Location.objectAt?, h]

theorem Gets.of_same {walked : Json} (h : SameParam param walked) (h' : Gets walked a param') :
    Gets param a param' := by
  cases h' with
  | none same => exact .none (h.trans same)
  | some same => exact .some (h.trans same)

/-- What settles parameters settles those that they come from. -/
theorem Settles.of_same {K : List Json} (h : List.Forall₂ SameParam K L) (h' : Settles s L L' s') :
    Settles s K L' s' := by
  induction h' generalizing K with
  | nil => cases h; exact .nil _
  | closed annotated same _ ih =>
    obtain _ | ⟨hparam, hrest⟩ := h
    exact .closed (hparam.unannotated ▸ annotated) (hparam.trans same) (ih hrest)
  | settled unannotated gets _ ih =>
    obtain _ | ⟨hparam, hrest⟩ := h
    exact .settled (hparam.unannotated ▸ unannotated) (gets.of_same hparam) (ih hrest)
  | short unannotated same _ ih =>
    obtain _ | ⟨hparam, hrest⟩ := h
    exact .short (hparam.unannotated ▸ unannotated) (hparam.trans same) (ih hrest)

/-- Without annotations all parameters stay as they are. -/
theorem Settles.same (h : Settles [] L L' s') : List.Forall₂ SameParam L L' := by
  generalize hs : ([] : List (Option Json)) = s at h
  induction h with
  | nil => exact .nil
  | closed _ same _ ih => exact .cons same (ih hs)
  | settled => cases hs
  | short _ same _ ih => exact .cons same (ih rfl)

/-- What becomes of each parameter when the annotations have been given. -/
theorem Settles.fates (h : Settles s L L' s')
    (hs : ∀ a ∈ s, GivesTyping o a) :
    List.Forall₂ Fate L L' := by
  induction h with
  | nil => exact .nil
  | closed _ same _ ih => exact .cons same.fate (ih hs)
  | settled unannotated gets _ ih =>
    rw [List.forall_mem_cons] at hs
    exact .cons (gets.fate unannotated hs.1).1 (ih hs.2)
  | short _ same _ ih => exact .cons same.fate (ih hs)

/-- The parameters that are open when the annotations have been given stand
where none was given. -/
theorem Settles.left_open (h : Settles s L L' s')
    (hs : ∀ a ∈ s, GivesTyping o a) (path : String) :
    (L'.filter isUnannotated).map (placeOf path) =
      leftOpen ((L.filter isUnannotated).map (placeOf path)) s := by
  induction h with
  | nil s => cases s <;> rfl
  | closed annotated same _ ih =>
    rw [List.filter_cons_of_neg (by rw [same.unannotated, annotated]; decide),
      List.filter_cons_of_neg (by rw [annotated]; decide)]
    exact ih hs
  | @settled a s s' param param' L L' unannotated gets _ ih =>
    rw [List.forall_mem_cons] at hs
    obtain ⟨hfate, hopen⟩ := gets.fate unannotated hs.1
    have hwas : (param :: L).filter isUnannotated = param :: L.filter isUnannotated :=
      List.filter_cons_of_pos unannotated
    rw [hwas, List.map_cons, leftOpen, ← ih hs.2, ← hopen, List.filter_cons]
    split
    · rw [List.map_cons, placeOf_congr path (hfate.loc unannotated)]
    · rfl
  | short unannotated same _ ih =>
    rw [leftOpen_nil] at ih ⊢
    rw [List.filter_cons_of_pos (same.unannotated.trans unannotated),
      List.filter_cons_of_pos unannotated, List.map_cons, List.map_cons, ih hs,
      placeOf_congr path (same.loc unannotated)]

/-! ## Both stages -/

/-- The outcome of a rewriting is a node. -/
theorem rewriteTree_isNode {tree rewritten : Json} {p : Progress} (hroot : tree.kind ∈ rootKinds)
    (hsource : tree.everywhere functionsInPlace = true)
    (h : rewriteTree o tree = (.ok rewritten, p)) : rewritten.isNode = true := by
  obtain ⟨-, hn⟩ := rewriteTree_passes (D := False) (R := fun _ _ n' _ => n'.isNode = true) nofun
    (fun _ _ _ _ hn hpassed => (hpassed.came hn).isNode) hroot hsource h
  exact hn

/-- **The second stage gives the parameters of the tree the annotations**, in
their order. -/
theorem annotateWaiting_settles_tree {tree rewritten : Json} {p : Progress}
    {annotations : List (Option Json)} (hroot : tree.kind ∈ rootKinds)
    (hsource : tree.everywhere functionsInPlace = true)
    (h : rewriteTree o tree = (.ok rewritten, p)) (hgiven : ∀ a ∈ annotations, GivesTyping o a) :
    ∃ left, Settles annotations (paramsIn o tree)
      (paramsIn o (annotateWaiting o annotations rewritten)) left := by
  obtain ⟨left, hsettles⟩ := annotateWaiting_settles (rewriteTree_isNode hroot hsource h)
    fun a ha annotation hsome => (hgiven a ha annotation hsome).blank
  exact ⟨left, hsettles.of_same (rewriteTree_params hroot hsource h)⟩

end Retype.Migration
