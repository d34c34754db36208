import Retype.Proofs.Migration.Optionality
import Retype.Proofs.Migration.Positions
import Retype.Proofs.Migration.Reach
import Retype.Proofs.Migration.Runtime
/-!
# Parameters whose types are inferred

A name without an annotation among the parameters of a function stays without
one on the walk. If it was marked optional and a required parameter follows, it
has lost its marker by the time it gets the annotation that was inferred for
it, and that is written as it was inferred. So callers may pass `undefined` if
the inferred type admits it (`inferred_keeps_optionality`).
-/

namespace Retype.Migration

open TypeScript (annotationNode encode identifier node)

variable {D : Prop} {p : Json → Bool} {o : FileOptions} {site : Site} {n n' m c v v' : Json}
  {param param' : Json} {mark : Bool} {marked : Prop} {key : String}

/-! ## The first stage -/

/-- Whether a parameter lacks a type depends on its kind and its annotation. -/
theorem isUnannotated_congr (htype : param'.hasText "type" "Identifier" =
    param.hasText "type" "Identifier")
    (hholds : param'.holds "typeAnnotation" = param.holds "typeAnnotation") :
    isUnannotated param' = isUnannotated param := by
  rw [isUnannotated, isUnannotated, htype, hholds]

/-- Reordering annotates nobody. -/
theorem Reordered.isUnannotated_eq (h : Reordered param param') :
    isUnannotated param' = isUnannotated param :=
  isUnannotated_congr (Json.hasText_congr (h.get? "type" (by decide)) _) h.annotated

/-- Only a plain name may lack its type. -/
theorem isIdentifier_of_isUnannotated (h : isUnannotated param = true) :
    param.hasText "type" "Identifier" = true :=
  (Bool.and_eq_true_iff.1 h).1

/-- What becomes of a name without an annotation: it stays without one, or
callers may pass `undefined`. -/
def StaysOpen (param param' : Json) : Prop :=
  isUnannotated param = true → param'.hasText "type" "Identifier" = true ∧
    (isUnannotated param' = true ∨ ParamAdmits param')

/-- A parameter left as it is stays open. -/
theorem StaysOpen.refl (param : Json) : StaysOpen param param :=
  fun h => ⟨isIdentifier_of_isUnannotated h, .inl h⟩

/-- What a walk keeps of a node, as far as its open parameters go. -/
def OpenKept (n n' : Json) (mark : Bool) : Prop :=
  AdmissionKept n n' mark ∧ Signed StaysOpen (signatures n) (signatures n')

/-- A name as its function is left: without an annotation, or with one of
TypeScript, and callers may pass `undefined`. -/
inductive OpenName (param : Json) : Prop
  | unannotated (bare : isUnannotated param = true)
  | typed {a : Json} (name : param.hasText "type" "Identifier" = true)
      (field : param.get? "typeAnnotation" = some a)
      (kind : a.hasText "type" "TSTypeAnnotation" = true) (admits : ParamAdmits param)

/-- A name that is walked stays a name. -/
theorem ItemWalked.alike_of_name {R : Site → Json → Json → Bool → Prop}
    (h : ItemWalked R site marked param param')
    (hname : param.hasText "type" "Identifier" = true) : Alike param param' := by
  cases h with
  | leaf => exact .refl param
  | node _ _ came _ => exact came.alike (ruleless_of_hasText hname (by decide)).2

/-- A name that had no annotation when its function was entered. -/
theorem ItemWalked.openName
    (h : ItemWalked (fun _ n n' mark => AdmissionKept n n' mark) site marked m param')
    (henters : EntersParam param m) (hun : isUnannotated param = true) : OpenName param' := by
  have hname := isIdentifier_of_isUnannotated hun
  rcases henters with rfl | ⟨-, rfl⟩
  · have halike := h.alike_of_name hname
    refine .unannotated ?_
    rw [isUnannotated_congr (halike.hasText_eq (by decide) _) (halike.holds_eq (by decide))]
    exact hun
  · -- the type that it got admits `undefined`
    obtain ⟨l, rfl⟩ := Json.exists_obj_of_get? (get?_of_hasText hname)
    have hfield : ((Json.obj l).set "typeAnnotation" anyAnnotation).get? "typeAnnotation" =
        some anyAnnotation := Entries.get?_set_self l _ _
    have hname' : ((Json.obj l).set "typeAnnotation" anyAnnotation).hasText "type" "Identifier" =
        true := (Json.hasText_congr (Json.get?_set_ne (by decide) _) _).trans hname
    have htyped : IsTyped ((Json.obj l).set "typeAnnotation" anyAnnotation) := by
      refine ⟨ anyAnnotation, ?_, .inr rfl⟩
      rw [binding, hasText_of_kind (get?_of_hasText hname')]
      exact hfield
    have hready := h.ready (ruleless_of_hasText hname' (by decide)).2.1 htyped
    have hname'' := ((h.alike_of_name hname').hasText_eq (by decide) _).trans hname'
    obtain ⟨a, hfield', hkind⟩ := hready.typed hname''
    exact .typed hname'' hfield' hkind (hready.admits (.typed hfield (.typed rfl rfl (.word rfl))))

/-- What is known of a parameter once its list has been reordered. -/
def ReordersOpen (param param' : Json) : Prop := Reordered param param' ∧ Reorders param param'

/-- Reordering keeps open parameters open or lets callers pass `undefined`. -/
theorem reorderParams_open (params : List Json) :
    Result.Yields (reorderParams params) (List.Forall₂ ReordersOpen params) :=
  reorderParams_related fun param _ trailing r hr => ⟨reorderParam_reordered param trailing r hr,
    fun hadmits htyped => reorderParam_admits trailing hadmits htyped r hr⟩

/-- The parameters of a function, one by one. -/
theorem Passed.params_open
    (hpassed : Passed D p o (fun _ n n' mark => AdmissionKept n n' mark) site n n' mark)
    (hkind : n.plainKind ∈ functionKinds) :
    List.Forall₂ StaysOpen (n.itemsAt "params") (n'.itemsAt "params") := by
  obtain ⟨m, c, henters, hchildren, hleaves⟩ := hpassed.passes
  obtain ⟨hm, hparams⟩ := henters.params hkind
  have hwalked :=
    hchildren.itemsAt_rel (show "params" ∉ "optional" :: Json.metadataKeys by decide)
  have hreorders := hleaves.params_rel (fun param => ⟨.refl param, fun hadmits _ => hadmits⟩)
    reorderParams_open (by rw [hchildren.plainKind_eq, hm]; exact hkind)
  have hentered := Entries.forall₂_trans
    (T := fun param param' => isUnannotated param = true → OpenName param')
    (fun _ _ _ hparam hitem hun => hitem.openName hparam hun) hparams hwalked
  refine Entries.forall₂_trans (fun param before param' h hreorders hun => ?_) hentered hreorders
  have hname : before.hasText "type" "Identifier" = true →
      param'.hasText "type" "Identifier" = true :=
    (Json.hasText_congr (hreorders.1.get? "type" (by decide)) _).trans
  cases h hun with
  | unannotated hun' =>
    have hstays := hreorders.1.isUnannotated_eq.trans hun'
    exact ⟨isIdentifier_of_isUnannotated hstays, .inl hstays⟩
  | @typed a hbefore hfield hkind hadmits =>
    exact ⟨hname hbefore, .inr (hreorders.2 hadmits fun _ => ⟨a, hfield, hkind⟩)⟩

/-- A whole visit does the same to every parameter of a node. -/
theorem Passed.open_kept (hn : n.isNode = true)
    (hpassed : Passed D p o (fun _ n n' mark => OpenKept n n' mark) site n n' mark) :
    OpenKept n n' mark := by
  have hadmission : Passed D p o (fun _ n n' mark => AdmissionKept n n' mark) site n n' mark :=
    hpassed.imp fun _ _ _ _ h => h.1
  exact ⟨hadmission.admission_kept hn,
    hpassed.signed .refl (fun _ _ _ _ h => h.2) hn hadmission.params_open⟩

/-- **A name without an annotation stays open on the walk.** -/
theorem rewriteTree_open {tree rewritten : Json} {progress : Progress}
    (hroot : tree.kind ∈ rootKinds) (h : rewriteTree o tree = (.ok rewritten, progress)) :
    Signed StaysOpen (signatures tree) (signatures rewritten) := by
  obtain ⟨mark, -, hopen⟩ := rewriteTree_passes (D := False) (p := fun _ => true)
    (R := fun _ n n' mark => OpenKept n n' mark) (fun h => h.elim)
    (fun _ _ _ _ hn hpassed => hpassed.open_kept hn) hroot
    (Json.everywhere_of_forall (fun _ => rfl) tree) h
  exact hopen

/-! ## The second stage -/

/-- What a value that gets annotations below it keeps. -/
structure Dressed (v v' : Json) : Prop where
  kind : SameKind v v'
  sort : Json.SameSort v v'
  isTrue : v'.isTrue = v.isTrue
  holds (key : String) (h : key ≠ "params") : v'.holds key = v.holds key
  flow : FlowAdmits v → FlowAdmits v'
  type : TsAdmits v → TsAdmits v'
  slot : AnnotationAdmits v → AnnotationAdmits v'
  param : ParamAdmits v → ParamAdmits v'

/-- A value left as it is is dressed. -/
theorem Dressed.refl (v : Json) : Dressed v v :=
  ⟨fun _ => rfl, .refl v, rfl, fun _ _ => rfl, id, id, id, id⟩

/-- Lists of one length are dressed alike. -/
theorem Dressed.arr {items items' : List Json} (h : items.length = items'.length) :
    Dressed (.arr items) (.arr items') := by
  have hobject {v : Json} (hv : v.isObject = true) (he : v = .arr items) : False := by
    rw [he] at hv
    cases hv
  refine ⟨fun _ => rfl, .arr h, ?_, fun _ _ => rfl, fun h => (hobject h.isObject rfl).elim,
    fun h => (hobject (isObject_of_isNode h.isNode) rfl).elim, fun h => ?_, fun h => ?_⟩
  · cases items <;> cases items' <;> first | rfl | cases h
  · cases h with
    | flow kind | typed kind => cases kind
  · cases h with
    | defaulted kind | marked kind | typed kind => cases kind

/-- A parameter that may get an annotation for which a condition holds. -/
def GetsParam (Q : Option Json → Prop) (param param' : Json) : Prop :=
  param' = param ∨ isUnannotated param = true ∧
    ∃ a, Q (some a) ∧ param' = param.set "typeAnnotation" a

/-- What becomes of a parameter in the second stage. -/
def DressedParam (Q : Option Json → Prop) (param param' : Json) : Prop :=
  ∃ dressed, Dressed param dressed ∧ GetsParam Q dressed param'

/-- What becomes of a value in the second stage, as far as its functions go. -/
structure DressedTo (Q : Option Json → Prop) (v v' : Json) : Prop where
  dressed : Dressed v v'
  items : List.Forall₂ Dressed v.items v'.items
  functions : Signed (DressedParam Q) (signatures v) (signatures v')

section
variable {Q : Option Json → Prop} {l l' : Entries} {annotations : List (Option Json)}

/-- So is a parameter that gets nothing. -/
theorem DressedParam.refl (v : Json) : DressedParam Q v v := ⟨v, .refl v, .inl rfl⟩

/-- Every parameter gets its own annotation, or none. -/
theorem setAnnotations_gets (given : ∀ a ∈ annotations, Q a) (params : List Json) :
    List.Forall₂ (GetsParam Q) params (setAnnotations annotations params) := by
  induction params generalizing annotations with
  | nil => cases annotations <;> exact .nil
  | cons param rest ih =>
    cases annotations with
    | nil => exact List.forall₂_same.2 fun _ _ => .inl rfl
    | cons a annotations =>
      rw [List.forall_mem_cons] at given
      simp only [setAnnotations]
      split
      next hun =>
        refine .cons ?_ (ih given.2)
        cases a with
        | none => exact .inl rfl
        | some a => exact .inr ⟨hun, a, given.1, rfl⟩
      next => exact .cons (.inl rfl) (ih (List.forall_mem_cons.2 given))

/-- The parameters of a node get annotations, and its other fields stay. -/
theorem itemsAt_annotateParams (given : ∀ a ∈ annotations, Q a) (n : Json) :
    List.Forall₂ (GetsParam Q) (n.itemsAt "params")
      ((annotateParams annotations n).itemsAt "params") := by
  rw [annotateParams]
  split
  next params hparams =>
    rw [Json.itemsAt, Json.itemsAt, Json.get?_set_self hparams, hparams]
    exact setAnnotations_gets given params
  next => exact List.forall₂_same.2 fun _ _ => .inl rfl

/-- An annotation changes no signature inside the parameter. -/
theorem GetsParam.signatures_eq {param param' : Json} (h : GetsParam Q param param') :
    signatures param' = signatures param := by
  rcases h with rfl | ⟨-, a, -, rfl⟩
  · rfl
  · exact signatures_set_free (by decide) a

/-- Annotations change no signature inside a list of parameters. -/
theorem flatMap_signatures_gets {params params' : List Json}
    (h : List.Forall₂ (GetsParam Q) params params') :
    params'.flatMap signatures = params.flatMap signatures := by
  induction h with
  | nil => rfl
  | cons hparam _ ih => rw [List.flatMap_cons, List.flatMap_cons, hparam.signatures_eq, ih]

/-- They change none inside the function. -/
theorem inner_annotateParams (given : ∀ a ∈ annotations, Q a) (n : Json) :
    inner (annotateParams annotations n) = inner n := by
  rw [annotateParams]
  split
  next params hparams =>
    refine inner_set hparams (by decide) ?_
    rw [signatures_arr, signatures_arr]
    exact flatMap_signatures_gets (setAnnotations_gets given params)
  next => rfl

variable (hrel : l.Rel (fun _ => DressedTo Q) l') (annotations)
include hrel

/-- The other fields of the function are dressed versions of what they were. -/
theorem get?_dressed (hkey : key ≠ "params") : Option.Rel (DressedTo Q) ((Json.obj l).get? key)
    ((annotateParams annotations (.obj l')).get? key) := by
  rw [get?_annotateParams annotations (.obj l') hkey]
  exact hrel.get? key

omit annotations in
/-- So are the items of its lists. -/
theorem itemsAt_dressed (key : String) :
    List.Forall₂ Dressed ((Json.obj l).itemsAt key) ((Json.obj l').itemsAt key) := by
  have hentry := hrel.get? key
  simp only [Json.itemsAt, Json.get?]
  generalize Entries.get? l key = a, Entries.get? l' key = b at hentry
  cases hentry with
  | none => exact .nil
  | some hv => exact hv.items

/-- So is a field that is there. -/
theorem exists_dressed {key : String} (hkey : key ≠ "params")
    (hget : (Json.obj l).get? key = some v) :
    ∃ v', (annotateParams annotations (.obj l')).get? key = some v' ∧ Dressed v v' := by
  have hentry := get?_dressed annotations hrel hkey
  rw [hget] at hentry
  generalize (annotateParams annotations (.obj l')).get? key = w at hentry
  cases hentry with
  | some hv => exact ⟨_, rfl, hv.dressed⟩

/-- A node that gets annotations among its parameters, and below. -/
theorem dressed_annotateParams : Dressed (.obj l) (annotateParams annotations (.obj l')) := by
  have hkind : SameKind (.obj l) (annotateParams annotations (.obj l')) := fun kind =>
    (Json.hasText_congr (get?_annotateParams annotations (.obj l') (by decide)) kind).trans
      (hasText_of_rel (hrel.mono fun _ _ _ h => h.dressed.sort) _ _)
  have hsort : Json.SameSort (.obj l) (annotateParams annotations (.obj l')) := by
    rw [annotateParams]
    split <;> exact .obj _ _
  have hmember {t : Json} (ht : t ∈ (Json.obj l).itemsAt "types") :
      ∃ t' ∈ (annotateParams annotations (.obj l')).itemsAt "types", Dressed t t' := by
    have hitems : (annotateParams annotations (.obj l')).itemsAt "types" =
        (Json.obj l').itemsAt "types" := by
      rw [Json.itemsAt, Json.itemsAt, get?_annotateParams annotations (.obj l') (by decide)]
    rw [hitems]
    exact Entries.exists_of_forall₂ (itemsAt_dressed hrel "types").flip ht
  have hkindIn (names : List String) :
      (annotateParams annotations (.obj l')).kindIn names = (Json.obj l).kindIn names := by
    rw [Json.kindIn, Json.kindIn, funext hkind]
  have hholds (key : String) (hkey : key ≠ "params") :
      (annotateParams annotations (.obj l')).holds key = (Json.obj l).holds key := by
    have hentry := get?_dressed annotations hrel hkey
    simp only [Json.holds]
    generalize (Json.obj l).get? key = a,
      (annotateParams annotations (.obj l')).get? key = b at hentry
    cases hentry with
    | none => rfl
    | some hv => exact hv.dressed.isTrue
  refine ⟨hkind, hsort, ?_, hholds, fun h => ?_, fun h => ?_, fun h => ?_, fun h => ?_⟩
  · have hlength : (Json.obj l').isTrue = (Json.obj l).isTrue := by cases hrel <;> rfl
    rw [annotateParams]
    split
    next params hparams =>
      rw [Json.isTrue_set, ← hlength, Json.isTrue_of_get? hparams]
    next => exact hlength
  · cases h with
    | word kind => exact .word ((hkindIn _).trans kind)
    | union kind member admits =>
      obtain ⟨t', hmem, ht⟩ := hmember member
      exact .union ((hkind _).trans kind) hmem (ht.flow admits)
  · cases h with
    | word kind => exact .word ((hkindIn _).trans kind)
    | union kind member admits =>
      obtain ⟨t', hmem, ht⟩ := hmember member
      exact .union ((hkind _).trans kind) hmem (ht.type admits)
    | parenthesized kind field admits =>
      obtain ⟨t', hget, ht⟩ := exists_dressed annotations hrel (by decide) field
      exact .parenthesized ((hkind _).trans kind) hget (ht.type admits)
  · cases h with
    | flow kind field admits =>
      obtain ⟨t', hget, ht⟩ := exists_dressed annotations hrel (by decide) field
      exact .flow ((hkind _).trans kind) hget (ht.flow admits)
    | typed kind field admits =>
      obtain ⟨t', hget, ht⟩ := exists_dressed annotations hrel (by decide) field
      exact .typed ((hkind _).trans kind) hget (ht.type admits)
  · cases h with
    | defaulted kind => exact .defaulted ((hkind _).trans kind)
    | marked marker => exact .marked ((hholds _ (by decide)).trans marker)
    | typed field admits =>
      obtain ⟨a', hget, ha⟩ := exists_dressed annotations hrel (by decide) field
      exact .typed hget (ha.slot admits)

omit annotations in
/-- A node that is dressed keeps its kind. -/
theorem plainKind_dressed : (Json.obj l').plainKind = (Json.obj l).plainKind := by
  have hentry := hrel.get? "type"
  simp only [Json.plainKind, Json.get?]
  generalize Entries.get? l "type" = a, Entries.get? l' "type" = b at hentry
  cases hentry with
  | none => rfl
  | some hv => cases hv.dressed.sort <;> rfl

/-- So does a function whose parameters are annotated. -/
theorem plainKind_annotateParams :
    (annotateParams annotations (.obj l')).plainKind = (Json.obj l).plainKind :=
  (plainKind_congr (get?_annotateParams annotations (.obj l') (by decide))).trans
    (plainKind_dressed hrel)

/-- The functions in a node, apart from itself. -/
theorem inner_dressed (given : ∀ a ∈ annotations, Q a) :
    Signed (DressedParam Q) (inner (.obj l)) (inner (annotateParams annotations (.obj l'))) := by
  rw [inner_annotateParams given, inner_eq, inner_eq, plainKind_dressed hrel]
  split
  · exact .nil
  split
  · have hentry := hrel.get? "expression"
    simp only [Json.get?]
    generalize Entries.get? l "expression" = a, Entries.get? l' "expression" = b at hentry
    cases hentry with
    | none => exact .nil
    | some hv => exact hv.functions
  · refine List.rel_flatMap hrel fun entry entry' hentry => ?_
    obtain ⟨key, v⟩ := entry
    obtain ⟨_, v'⟩ := entry'
    obtain ⟨rfl, hv⟩ := hentry
    rw [counted, counted]
    split
    · exact .nil
    · exact hv.functions

end

/-- **What becomes of a value in the second stage.** -/
theorem annotates_dressed {Q : Option Json → Prop} : Annotates Q (DressedTo Q) where
  refl v := ⟨.refl v, List.forall₂_same.2 fun _ _ => .refl _, .refl .refl _⟩
  arr {items items'} h := by
    refine ⟨.arr h.length_eq, h.imp fun _ _ hv => hv.dressed, ?_⟩
    rw [signatures_arr, signatures_arr]
    exact List.rel_flatMap h fun _ _ hv => hv.functions
  obj {l l'} hrel {annotations} given := by
    have hdressed := dressed_annotateParams annotations hrel
    obtain ⟨l'', hl''⟩ := exists_obj_of_isObject (hdressed.sort.isObject_eq.trans rfl)
    refine ⟨hdressed, hl'' ▸ .nil, ?_⟩
    rw [signatures_eq rfl, signatures_eq (hdressed.sort.isObject_eq.trans rfl)]
    refine List.rel_append ?_ (inner_dressed annotations hrel given)
    rw [ownSignatures, ownSignatures, plainKind_annotateParams annotations hrel]
    split
    · refine .cons ?_ .nil
      exact Entries.forall₂_trans (fun _ dressed _ h h' => ⟨dressed, h, h'⟩)
        (itemsAt_dressed hrel "params") (itemsAt_annotateParams given (.obj l'))
    · exact .nil

/-! ## What is inferred -/

/-- A type without positions admits `undefined` as before. -/
theorem FlowAdmits.stripPositions {type : Json} (h : FlowAdmits type) :
    FlowAdmits type.stripPositions := by
  induction h with
  | word kind => exact .word (by simpa only [Json.kindIn, hasText_stripPositions] using kind)
  | union kind member _ ih =>
    refine .union ((hasText_stripPositions _ _).trans kind) ?_ ih
    rw [itemsAt_stripPositions (by decide)]
    exact List.mem_map_of_mem member

/-- An inferred type admits `undefined`: it does as a Flow type, or no call
constrains it. -/
def InferredAdmits (type : Json) : Prop :=
  FlowAdmits type ∨ type.hasText "type" "EmptyTypeAnnotation" = true

/-- A caller may pass `undefined` for an annotation: its type admits it, or it
is the alias for what was inferred to be `any`. -/
def CallAdmits (a : Json) : Prop :=
  AnnotationAdmits a ∨
    a = annotationNode (encode (.reference none (TsEntity.ofText AnyAlias.inferred.name) none))

/-- An annotation admits `undefined` when its type does. -/
theorem annotationOf_admits {t : TsType} (h : LaidAdmits t) :
    (annotationOf t).Yields fun a => ∀ annotation, a = some annotation → CallAdmits annotation := by
  rw [annotationOf]
  split
  · refine .bind (.bind (.trivial _ fun _ => .pure (.pure ?_)))
    rintro _ ⟨⟩
    exact .inr rfl
  · refine .bind (.pure (.pure ?_))
    rintro _ ⟨⟩
    exact .inl (.typed rfl rfl (encode_admits h))

/-- **A type that admits `undefined` becomes one that does.** -/
theorem migrateInferred_admits {type : Json} (h : InferredAdmits type) :
    (migrateInferred o type).Yields LaidAdmits := by
  refine .ite (fun _ => .pure (.word none (by decide))) fun hempty => ?_
  rw [hasText_stripPositions] at hempty
  have hflow := (h.resolve_right hempty).stripPositions
  exact .bind (.ofResult ((decodeType_admits _ hflow).mono fun t ht => migrate_admits o.types ht))

/-- If an inferred type admits `undefined`, so does the annotation for it. -/
theorem annotationInferred_admits {location : Location} {type a : Json} (h : InferredAdmits type)
    (hresult : (annotationInferred o location (some type)).result = .ok (some a)) :
    CallAdmits a := by
  refine annotationInferred_yields (fun type' htype => ?_) _ hresult a rfl
  exact (migrateInferred_admits (Option.some.inj htype ▸ h)).mono fun t ht => annotationOf_admits ht

/-! ## Both stages -/

/-- What becomes of a name without an annotation in both stages: if it has an
annotation at last and is not marked optional, then callers may pass
`undefined`, or the annotation is one of those that were given, and it is not
inferred from any type that admits `undefined`. -/
def KeepsOptional (o : FileOptions) (annotations : List (Option Json)) (param param' : Json) :
    Prop :=
  isUnannotated param = true → param'.holds "typeAnnotation" = true →
    param'.holds "optional" = false → ∃ a, param'.get? "typeAnnotation" = some a ∧
      (CallAdmits a ∨ some a ∈ annotations ∧ ∀ location type,
        (annotationInferred o location (some type)).result = .ok (some a) → ¬InferredAdmits type)

/-- The two stages together keep a parameter optional, or say why not. -/
theorem KeepsOptional.of_stages {annotations : List (Option Json)} (hstays : StaysOpen param m)
    (hdressed : DressedParam (· ∈ annotations) m param') :
    KeepsOptional o annotations param param' := by
  intro hun hannotated hmarker
  obtain ⟨hname, hopen⟩ := hstays hun
  obtain ⟨dressed, hdressed, hgets⟩ := hdressed
  have hname' := (hdressed.kind "Identifier").trans hname
  rcases hgets with rfl | ⟨-, a, hgiven, rfl⟩
  · -- the annotation is that of the first stage
    rw [hdressed.holds _ (by decide)] at hannotated
    have hnot : isUnannotated m = false := by rw [isUnannotated, hname, hannotated]; rfl
    have hadmits := hopen.resolve_left (by rw [hnot]; decide)
    cases hdressed.param hadmits with
    | defaulted kind =>
      rw [hasText_of_kind (get?_of_hasText hname')] at kind
      cases kind
    | marked marker =>
      rw [hmarker] at marker
      cases marker
    | @typed a field admits => exact ⟨a, field, .inl (.inl admits)⟩
  · obtain ⟨l, rfl⟩ := Json.exists_obj_of_get? (get?_of_hasText hname')
    refine ⟨a, Entries.get?_set_self l _ _, ?_⟩
    by_cases hadmits : CallAdmits a
    · exact .inl hadmits
    · exact .inr ⟨hgiven, fun _ _ hresult htype =>
        hadmits (annotationInferred_admits htype hresult)⟩

/-- **Callers may still pass `undefined` where the inferred type admits it.** If
a tree is rewritten, then whatever is inferred for the parameters that wait,
the functions of the outcome are those of the tree, with as many parameters
each. A name without an annotation that has one at last and no marker admits
`undefined`, unless that annotation was given and no type that admits
`undefined` leads to it. -/
theorem inferred_keeps_optionality {tree rewritten : Json} {progress : Progress}
    (annotations : List (Option Json)) (hroot : tree.kind ∈ rootKinds)
    (h : rewriteTree o tree = (.ok rewritten, progress)) :
    Signed (KeepsOptional o annotations) (signatures tree)
      (signatures (annotateWaiting o annotations rewritten)) := by
  have hfirst := rewriteTree_open hroot h
  have hgiven : ∀ a ∈ annotations, a ∈ annotations := fun _ ha => ha
  have hsecond := annotateWaiting_related o annotates_dressed hgiven rewritten
  refine Entries.forall₂_trans (fun params walked params' hwalked hparams => ?_) hfirst
    hsecond.functions
  exact Entries.forall₂_trans (fun _ _ _ hstays hdressed => .of_stages hstays hdressed)
    hwalked hparams

/-- `function f(x?, y) {}` -/
def openFile : Json :=
  node "Program" [("body", .arr [
    node "FunctionDeclaration" [("id", identifier "f" []),
      ("params", .arr [identifier "x" [("optional", .bool true)], identifier "y" []]),
      ("body", node "BlockStatement" [("body", .arr [])])]])]

/-- `?string`, as a type that was inferred. -/
def inferredMaybe : Json :=
  node "NullableTypeAnnotation" [("typeAnnotation", node "StringTypeAnnotation" [])]

/-- The annotations of `openFile` if a type is inferred for `x` and none for `y`. -/
def openAnnotations (type : Json) : List (Option Json) :=
  [(annotationInferred inferring default (some type)).result.toOption.join, none]

/-- Whether a parameter has an annotation, whether it is marked, and the kind of
its type. -/
def paramView (param : Json) : Bool × Bool × Option String :=
  (param.holds "typeAnnotation", param.holds "optional",
    ((param.get? "typeAnnotation").bind (·.get? "typeAnnotation")).map Json.kind)

/-- The parameters of `openFile` at last. -/
def openViews (type : Json) : Option (List (List (Bool × Bool × Option String))) :=
  (rewriteTree inferring openFile).1.toOption.map fun rewritten =>
    (signatures (annotateWaiting inferring (openAnnotations type) rewritten)).map
      (·.map paramView)

/-- What is computed of a small file is what becomes of its parameters. -/
theorem exists_of_openViews (type : Json) (name : String)
    (h : openViews type = some [[(true, false, some name), (false, false, none)]]) :
    ∃ rewritten p x y, rewriteTree inferring openFile = (.ok rewritten, p) ∧
      signatures (annotateWaiting inferring (openAnnotations type) rewritten) = [[x, y]] ∧
      paramView x = (true, false, some name) := by
  match hrun : rewriteTree inferring openFile with
  | (.error _, _) =>
    rw [openViews, hrun] at h
    cases h
  | (.ok rewritten, p) =>
    rw [openViews, hrun] at h
    have hviews := Option.some.inj h
    obtain ⟨params, hparams, hview⟩ := List.map_eq_singleton_iff.1 hviews
    obtain ⟨x, rest, rfl, hx, hrest⟩ := List.map_eq_cons_iff.1 hview
    obtain ⟨y, rfl, -⟩ := List.map_eq_singleton_iff.1 hrest
    exact ⟨rewritten, p, x, y, rfl, hparams, hx⟩

/-- An annotation that is there was made without a refusal. -/
theorem eq_ok_of_join {r : Result (Option Json)} {a : Json} (h : r.toOption.join = some a) :
    r = .ok (some a) := by
  cases r with
  | error => cases h
  | ok a' => exact congrArg Except.ok h

/-- The annotations of `openFile` were inferred. -/
theorem openAnnotations_inferred (type : Json) : ∀ a ∈ openAnnotations type,
    ∃ location inferred, (annotationInferred inferring location inferred).result = .ok a := by
  have hnone : (annotationInferred inferring default none).result = .ok none := rfl
  refine List.forall_mem_cons.2 ⟨?_, List.forall_mem_singleton.2 ⟨default, none, hnone⟩⟩
  cases hjoin : (annotationInferred inferring default (some type)).result.toOption.join with
  | none => exact ⟨default, none, hnone⟩
  | some a => exact ⟨default, some type, eq_ok_of_join hjoin⟩

/-- Where the inferred type is `?string`, the marker is gone and the type admits
`undefined`. -/
theorem inferred_keeps_optionality_openFile : ∃ rewritten p x y a,
    rewriteTree inferring openFile = (.ok rewritten, p) ∧
      signatures (annotateWaiting inferring (openAnnotations inferredMaybe) rewritten) = [[x, y]] ∧
      x.holds "optional" = false ∧ x.get? "typeAnnotation" = some a ∧ CallAdmits a := by
  obtain ⟨rewritten, p, x, y, hrun, hparams, hview⟩ :=
    exists_of_openViews inferredMaybe "TSUnionType" (by decide +kernel)
  simp only [paramView, Prod.mk.injEq] at hview
  have hsigned := inferred_keeps_optionality (openAnnotations inferredMaybe) (by decide) hrun
  rw [hparams, show signatures openFile = [[_, _]] from rfl] at hsigned
  obtain _ | ⟨_ | ⟨hx, -⟩, -⟩ := hsigned
  obtain ⟨a, hfield, hadmits⟩ := hx rfl hview.1 hview.2.1
  refine ⟨rewritten, p, x, y, a, hrun, hparams, hview.2.1, hfield,
    hadmits.resolve_right fun hnot => ?_⟩
  -- the annotation is the one that was inferred, and the type admits `undefined`
  obtain ⟨hmem, hnot⟩ := hnot
  rcases List.mem_cons.1 hmem with hinferred | hmem
  · exact hnot default inferredMaybe (eq_ok_of_join hinferred.symm) (.inl (.word rfl))
  · cases List.mem_singleton.1 hmem

/-- A `string` does not admit `undefined`. -/
theorem not_callAdmits {a t : Json} (field : a.get? "typeAnnotation" = some t)
    (kind : t.kind = "TSStringKeyword") : ¬CallAdmits a := by
  have hkind {name : String} (h : t.hasText "type" name = true) : name = "TSStringKeyword" :=
    (kind_of_kind (get?_of_hasText h)).symm.trans kind
  have hkinds {names : List String} (h : t.kindIn names = true) : "TSStringKeyword" ∈ names := by
    obtain ⟨name, hmem, htext⟩ := List.any_eq_true.1 h
    exact hkind htext ▸ hmem
  intro h
  rcases h with (⟨-, field', hflow⟩ | ⟨-, field', htype⟩) | rfl
  · obtain rfl := Option.some.inj (field.symm.trans field')
    cases hflow with
    | word hword => exact absurd (hkinds hword) (by decide)
    | union hunion => exact absurd (hkind hunion) (by decide)
  · obtain rfl := Option.some.inj (field.symm.trans field')
    cases htype with
    | word hword => exact absurd (hkinds hword) (by decide)
    | union hunion | parenthesized hunion => exact absurd (hkind hunion) (by decide)
  · obtain rfl := Option.some.inj field
    exact absurd (show "TSTypeReference" = "TSStringKeyword" from hkind rfl) (by decide)

/-- Where the inferred type is `string`, the marker is gone and the type does
not admit `undefined`. -/
theorem inferred_drops_optionality : ¬ ∀ (o : FileOptions) (tree rewritten : Json)
    (progress : Progress) (annotations : List (Option Json)), tree.kind ∈ rootKinds →
    rewriteTree o tree = (.ok rewritten, progress) →
    (∀ a ∈ annotations, ∃ location inferred,
      (annotationInferred o location inferred).result = .ok a) →
    Signed (fun param param' => isUnannotated param = true → param.holds "optional" = true →
        param'.holds "typeAnnotation" = true → param'.holds "optional" = false →
        ∃ a, param'.get? "typeAnnotation" = some a ∧ CallAdmits a)
      (signatures tree) (signatures (annotateWaiting o annotations rewritten)) := by
  intro h
  obtain ⟨rewritten, p, x, y, hrun, hparams, hview⟩ :=
    exists_of_openViews (node "StringTypeAnnotation" []) "TSStringKeyword" (by decide +kernel)
  simp only [paramView, Prod.mk.injEq, Option.map_eq_some_iff, Option.bind_eq_some_iff] at hview
  obtain ⟨hannotated, hmarker, t, ⟨a, hfield, htype⟩, hkind⟩ := hview
  have hsigned := h inferring openFile rewritten p
    (openAnnotations (node "StringTypeAnnotation" [])) (by decide) hrun (openAnnotations_inferred _)
  rw [hparams, show signatures openFile = [[_, _]] from rfl] at hsigned
  obtain _ | ⟨_ | ⟨hx, -⟩, -⟩ := hsigned
  obtain ⟨a', hfield', hadmits⟩ := hx rfl rfl hannotated hmarker
  obtain rfl := Option.some.inj (hfield.symm.trans hfield')
  exact not_callAdmits htype hkind hadmits

end Retype.Migration
