import Retype.Proofs.Batch.Alone
import Retype.Proofs.Batch.Batching
import Retype.Proofs.Migration.Answering
/-!
# Every open parameter is accounted for

When a tree has been rewritten by itself, each parameter without an annotation
whose type is asked for was asked about once, in the order of the walk. It has
got an annotation of TypeScript, or it is still open and is recorded where it
stands. No other parameter was asked about or is recorded
(`parameters_accounted`).
-/

namespace Retype.Batch

open Migration

variable {t : Toolchain} {talk : Talk} {o : FileOptions} {tree rewritten : Json} {p : Progress}
  {places : List Location} {given : List (Option Json × List Finding)}

/-- What is inferred for a parameter gives it an annotation or records it. -/
theorem Gets.answers (htypes : ∀ exchange ∈ talk.exchanges,
    ∀ type, t.parsedType exchange.2 = some type → without askingKinds type = true)
    {l : Location} {a : Option Json × List Finding} (h : Gets t (talk.since .none) o l a) :
    Answers o l a.1 a.2 := by
  rw [Gets] at h
  generalize hr : (⟨a.2, .ok a.1⟩ : Recorded (Option Json)) = r at h
  cases h with
  | @answered _ output inferred _ htype =>
    have hasking : ∀ type, inferred = some type → without askingKinds type = true := by
      rintro type rfl
      obtain ⟨payload, x, hx, hparsed⟩ := htype.parsed_of_some
      exact htypes (payload, x) (Talk.mem_exchanges_of_since hx) type hparsed
    have hanswers : Answers o l a.1 _ := annotationInferred_answers hasking (by rw [← hr])
    rwa [← hr] at hanswers

section
variable (htypes : ∀ exchange ∈ talk.exchanges,
    ∀ type, t.parsedType exchange.2 = some type → without askingKinds type = true)
  (hgiven : List.Forall₂ (Gets t (talk.since .none) o) places given)
include htypes hgiven

/-- All that was inferred are annotations of TypeScript. -/
theorem givesTyping_inferred : ∀ a ∈ given.map (·.1), GivesTyping o a := by
  induction hgiven with
  | nil => exact List.forall_mem_nil _
  | cons hl _ ih => exact List.forall_mem_cons.2 ⟨(hl.answers htypes).typing, ih⟩

/-- The places that are recorded are those for which nothing was given. -/
theorem openPlaces_inferred :
    openPlaces (given.flatMap (·.2)) = leftOpen places (given.map (·.1)) := by
  induction hgiven with
  | nil => rfl
  | cons hl _ ih =>
    rw [List.flatMap_cons, openPlaces_append, ih, (hl.answers htypes).places,
      List.map_cons, leftOpen]
    split <;> rfl

end

/-- The places of parameters that are to be asked about, if all of them stand
somewhere. -/
theorem places_eq {params : List Json}
    (h : params.map (Location.ofNodeOrRefuse o.path) = places.map .ok) :
    places = params.map (placeOf o.path) := by
  induction params generalizing places with
  | nil => exact List.map_eq_nil_iff.1 h.symm
  | cons param params ih =>
    cases places with
    | nil => cases h
    | cons l places =>
      rw [List.map_cons, List.map_cons, List.cons.injEq] at h
      rw [List.map_cons, placeOf_of_ofNodeOrRefuse h.1, ih h.2]

/-- **Every open parameter is accounted for.** The tree is one whose functions
stand in expressions and statements, as in every tree that Babel parses, and no
type that was parsed for an answer holds a function. If the file ends, its open
parameters have been asked about in order, one call for each of them, whatever
was answered to the calls before; and those that are still open are recorded
where they stand. Nothing else was asked about or recorded, and if nothing is
inferred each of them is recorded. -/
theorem parameters_accounted {files : Files} {final : Json} (hroot : tree.kind ∈ rootKinds)
    (hsource : tree.everywhere functionsInPlace = true)
    (htypes : ∀ exchange ∈ ((Loop.ofFiles files).alone t (.tree o tree)).talk.exchanges,
      ∀ type, t.parsedType exchange.2 = some type → without askingKinds type = true)
    (h : ((Loop.ofFiles files).alone t (.tree o tree)).result = some (.ok (.tree final))) :
    let s := (Loop.ofFiles files).alone t (.tree o tree)
    List.Forall₂ Fate (paramsIn o tree) (paramsIn o final) ∧
      s.asked = (if o.infers then (opensIn o tree).map fun param => ⟨o.path, placeOf o.path param⟩
        else []) ∧
      openPlaces s.findings = (opensIn o final).map (placeOf o.path) ∧
      (o.infers = false → List.Forall₂ SameParam (paramsIn o tree) (paramsIn o final) ∧
        openPlaces s.findings = (opensIn o tree).map (placeOf o.path)) := by
  obtain ⟨rewritten, p, places, hrun, hwaiting, given, hgiven, hfinal, hfindings, hasked⟩ :=
    alone_over h
  obtain rfl := Done.tree.inj hfinal
  have habout := rewriteTree_asked hroot hsource hrun
  have hgives := givesTyping_inferred htypes hgiven
  obtain ⟨left, hsettles⟩ := annotateWaiting_settles_tree hroot hsource hrun hgives
  have hleft := hsettles.left_open hgives o.path
  intro s
  have hfound : openPlaces s.findings = openPlaces p.findings ++
      leftOpen places (given.map (·.1)) := by
    rw [hfindings, openPlaces_append, openPlaces_inferred htypes hgiven]
  refine ⟨hsettles.fates hgives, ?_⟩
  cases hinfers : o.infers with
  | true =>
    have hall : places = (opensIn o tree).map (placeOf o.path) :=
      places_eq (by rw [← hwaiting, habout.waiting_eq, hinfers]; rfl)
    have hnone : openPlaces p.findings = [] := by rw [habout.places_eq, hinfers]; rfl
    refine ⟨?_, ?_, nofun⟩
    · rw [hasked, hall, List.map_map]
      rfl
    · rw [hfound, hnone, hall]
      exact hleft.symm
  | false =>
    have hnone : places = [] := by
      rw [habout.waiting_eq, hinfers] at hwaiting
      exact List.map_eq_nil_iff.1 hwaiting.symm
    have hall : openPlaces p.findings = (opensIn o tree).map (placeOf o.path) := by
      rw [habout.places_eq, hinfers]
      rfl
    subst hnone
    cases hgiven
    rw [List.map_nil, leftOpen_nil, hall, List.append_nil] at hfound
    rw [List.map_nil, leftOpen_nil] at hleft
    exact ⟨hasked, hfound.trans hleft.symm, fun _ => ⟨hsettles.same, hfound⟩⟩

/-! ## Two parameters -/

/-- `function f(x, y) {}` -/
def twoParams : Json :=
  TypeScript.node "Program" [("body", .arr [.obj [("type", .str "FunctionDeclaration"),
    ("params", .arr [nodeAt 1 11 12 "Identifier" [("name", .str "x")],
      nodeAt 2 11 12 "Identifier" [("name", .str "y")]])]])]

/-- Tools with a checker that answers the first call only. -/
def Toolchain.answeringOnce : Toolchain :=
  .knowing functionTrees
    (some ⟨100, fun earlier _ => if earlier.isEmpty then some "string" else none⟩)

/-- The tree that is there at the end, if it is one. -/
def Done.tree? : Done → Option Json
  | .tree tree => some tree
  | _ => none

/-- Both parameters are asked about, in order, and the second one is recorded. -/
theorem parameters_accounted_twoParams :
    let o : FileOptions := { path := "/r/a.js", infers := true }
    let s := (Loop.ofFiles default).alone .answeringOnce (.tree o twoParams)
    let place := fun line => (⟨"/r/a.js", ⟨line, 11⟩, ⟨line, 12⟩⟩ : Location)
    ∃ final, s.result = some (.ok (.tree final)) ∧
      List.Forall₂ Fate (paramsIn o twoParams) (paramsIn o final) ∧
      (opensIn o twoParams).map (fun param => ⟨o.path, placeOf o.path param⟩) = s.asked ∧
      s.asked = [⟨"/r/a.js", place 1⟩, ⟨"/r/a.js", place 2⟩] ∧
      (opensIn o final).map (placeOf o.path) = [place 2] := by
  intro o s place
  have htypes : ∀ exchange ∈ ((Loop.ofFiles default).alone .answeringOnce
      (.tree o twoParams)).talk.exchanges, ∀ type,
      Toolchain.answeringOnce.parsedType exchange.2 = some type →
        without askingKinds type = true := by
    have hall : ((Loop.ofFiles default).alone .answeringOnce
        (.tree o twoParams)).talk.exchanges.all (fun exchange =>
        (Toolchain.answeringOnce.parsedType exchange.2).all (without askingKinds)) = true := by
      decide +kernel
    intro exchange hexchange type htype
    have hone := List.all_eq_true.1 hall exchange hexchange
    rwa [htype] at hone
  have hdone : ∃ final, s.result = some (.ok (.tree final)) := by
    have hover : (s.result.bind fun r => r.toOption.bind Done.tree?).isSome = true := by
      decide +kernel
    obtain ⟨final, hover⟩ := Option.isSome_iff_exists.1 hover
    obtain ⟨r, hresult, hover⟩ := Option.bind_eq_some_iff.1 hover
    obtain ⟨done, hr, htree⟩ := Option.bind_eq_some_iff.1 hover
    cases done <;> cases htree
    cases r <;> cases hr
    exact ⟨final, hresult⟩
  have hasked : s.asked = [⟨"/r/a.js", place 1⟩, ⟨"/r/a.js", place 2⟩] := by decide +kernel
  have hfound : openPlaces s.findings = [place 2] := by decide +kernel
  obtain ⟨final, hfinal⟩ := hdone
  obtain ⟨hfates, hall, hopen, -⟩ := parameters_accounted (by decide) (by decide +kernel)
    htypes hfinal
  exact ⟨final, hfinal, hfates, hall.symm, hasked, hopen.symm.trans hfound⟩

end Retype.Batch
