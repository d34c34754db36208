import Retype.Proofs.Migration.Awaiting
/-!
# What a rewriting asks about

The open parameters that a walk meets wait for types, in order, or are recorded
where they stand if nobody can be asked (`Asked`). No other rule makes a
parameter wait or records one. So what is asked about in a tree are its open
parameters (`rewriteTree_asked`).
-/

namespace Retype

open Syntax (Place Meeting)

/-- The open parameters that a meeting accounts for. -/
def Syntax.Meeting.opens (o : Migration.FileOptions) (m : Meeting) : List Json :=
  (m.params o).filter Migration.isUnannotated

namespace Migration

variable {o : FileOptions} {met : List Meeting} {p : Progress} {n : Json}

/-- The parameters in a tree that are asked about and have no annotation. -/
def opensIn (o : FileOptions) (tree : Json) : List Json := (paramsIn o tree).filter isUnannotated

/-! ## Places of parameters -/

/-- The places of parameters without a type among some findings. -/
def openPlaces (fs : List Finding) : List Location :=
  (Report.ofFindings fs).places .unannotatedParameter

theorem openPlaces_append (fs gs : List Finding) :
    openPlaces (fs ++ gs) = openPlaces fs ++ openPlaces gs := List.filterMap_append

theorem openPlaces_eq_nil {fs : List Finding}
    (h : ∀ f ∈ fs, ∀ l, f ≠ .place .unannotatedParameter l) : openPlaces fs = [] := by
  refine List.filterMap_eq_nil_iff.2 fun f hf => ?_
  cases f with
  | place category l =>
    by_cases hopen : category = .unannotatedParameter
    · exact absurd (hopen ▸ rfl) (h _ hf l)
    · exact if_neg hopen
  | _ => rfl

/-- What is recorded about some open parameters, and what waits. -/
structure AskedAbout (o : FileOptions) (params : List Json) (waiting : List (Result Location))
    (places : List Location) : Prop where
  waiting_eq : waiting = if o.infers then params.map (Location.ofNodeOrRefuse o.path) else []
  places_eq : places = if o.infers then [] else params.map (placeOf o.path)

theorem AskedAbout.append {params params' : List Json} {waiting waiting' : List (Result Location)}
    {places places' : List Location} (h : AskedAbout o params waiting places)
    (h' : AskedAbout o params' waiting' places') :
    AskedAbout o (params ++ params') (waiting ++ waiting') (places ++ places') := by
  obtain ⟨rfl, rfl⟩ := h
  obtain ⟨rfl, rfl⟩ := h'
  constructor <;> cases o.infers <;> simp

/-- What has been asked so far is what was met so far. -/
def Asked (o : FileOptions) (met : List Meeting) (p : Progress) : Prop :=
  AskedAbout o (met.flatMap (Meeting.opens o)) p.waiting (openPlaces p.findings)

/-- A node whose parameters are asked about. -/
theorem awaitTypes_runs (n : Json) {params : List Json}
    (h : AskedAbout o params p.waiting (openPlaces p.findings)) :
    (awaitTypes o n).Runs p fun _ p' =>
      AskedAbout o (params ++ unannotatedParams n) p'.waiting (openPlaces p'.findings) := by
  refine .bind (Rewrite.Runs.mono (P := fun _ p' => AskedAbout o (params ++ unannotatedParams n)
    p'.waiting (openPlaces p'.findings)) ?_ fun _ _ h => .pure h)
  generalize unannotatedParams n = opens
  induction opens generalizing params p with
  | nil =>
    rw [List.append_nil]
    exact .pure h
  | cons param rest ih =>
    have hnext : (awaitType o param).Runs p fun _ p' =>
        AskedAbout o (params ++ [param]) p'.waiting (openPlaces p'.findings) := by
      rw [awaitType]
      split
      next hinfers =>
        refine .modify ?_
        have hone : AskedAbout o [param] [Location.ofNodeOrRefuse o.path param] [] :=
          ⟨by rw [hinfers]; rfl, by rw [hinfers]; rfl⟩
        simpa using h.append hone
      next hinfers =>
        refine .ofRecorded ((notePlace_gives o.types _ param).mono fun fs _ hfs => ?_)
        have hone : AskedAbout o [param] [] [placeOf o.path param] :=
          ⟨by simp [hinfers], by simp [hinfers]⟩
        rw [hfs, openPlaces_append]
        have hnext := h.append hone
        rwa [List.append_nil] at hnext
    refine .bind (f := fun _ => rest.forM (awaitType o)) (hnext.mono fun _ p' h' => ?_)
    rw [List.append_cons]
    exact ih h'

/-! ## The rules -/

theorem Asked.unbroken (o : FileOptions) (met : List Meeting) : Unbroken o (Asked o met) where
  finds {p fs} hp hfs := by
    rw [Asked, openPlaces_append, openPlaces_eq_nil fun f hf => (hfs f hf).annotated,
      List.append_nil]
    exact hp
  markup hp := hp

theorem enterCast_asked (met : List Meeting) (place : Place) (n : Json) :
    (enterCast o place n).Keeps (Asked o met) := by
  refine .bind (.ofResult _) fun strategy => .bind (replaceBy_keeps _ _ ?_) fun _ =>
    .ite (.bind (.writing fun _ hp => hp) fun _ => .pure _) (.pure _)
  refine .bind (.writing fun p hp => ?_) fun _ => .ofResult _
  have hfound :=
    rewriteCast_finds o.types o.utilsBinding (place.parentKind? n = some "ObjectProperty" &&
    insideCreateReactClass place n) n strategy
  rw [Asked, openPlaces_append, openPlaces_eq_nil fun f hf => (hfound f hf).2, List.append_nil]
  exact hp

theorem asksTypes_eq_asks {inside : Bool} {rule : EnterRule} (h : enterRule? n.kind = some rule) :
    asksTypes o inside n = rule.asks o inside := by
  rw [← awaitsTypes_eq, awaitsTypes, h]
  cases rule <;> rfl

theorem applyEnter_of_asks {place : Place} {rule : EnterRule}
    (h : rule.asks o (insideCreateReactClass place n) = true) :
    applyEnter o place n rule = awaitTypes o n := by
  cases rule with
  | functionDeclaration => exact if_neg (by simpa [EnterRule.asks] using h)
  | classMethod => rfl
  | objectMethod => exact if_pos h
  | _ => cases h

/-- What a node is entered as is accounted for. -/
theorem enter_asked (place : Place) (n : Json) :
    Noting.Keeps (Asked o) ((rewriter o).noting.enter place n) := by
  intro met p h
  rw [run_noting_enter]
  refine .map ?_
  have hmet (entered : Json) (p' : Progress) : Asked o (met ++ [⟨place, n, entered⟩]) p' ↔
      AskedAbout o (met.flatMap (Meeting.opens o) ++
        (if asksTypes o (insideCreateReactClass place n) n then n.itemsAt "params" else []).filter
          isUnannotated) p'.waiting (openPlaces p'.findings) := by
    rw [Asked, List.flatMap_append, List.flatMap_singleton]
    rfl
  simp only [hmet]
  cases hasks : asksTypes o (insideCreateReactClass place n) n with
  | true =>
    rw [rewriter]
    dsimp only
    split
    next rule hrule =>
      rw [applyEnter_of_asks ((asksTypes_eq_asks hrule).symm.trans hasks)]
      exact awaitTypes_runs n h
    next hnone =>
      rw [← awaitsTypes_eq, awaitsTypes, hnone] at hasks
      cases hasks
  | false =>
    have hkeeps : ((rewriter o).enter place n).Keeps (Asked o met) := by
      rw [rewriter]
      dsimp only
      split
      next rule hrule =>
        by_cases hcast : rule = .typeCast
        · subst hcast
          exact enterCast_asked met place n
        · refine applyEnter_keeps (Asked.unbroken o met) place n hcast fun hrule' => ?_
          rw [asksTypes_eq_asks hrule, hrule'] at hasks
          cases hasks
      next => exact .pure _
    refine (Rewrite.Runs.of_keeps hkeeps h).mono fun _ _ h => ?_
    rw [if_neg Bool.false_ne_true, List.filter_nil, List.append_nil]
    exact h

theorem leave_asked (place : Place) (n : Json) :
    Noting.Keeps (Asked o) ((rewriter o).noting.leave place n) := by
  intro met p h
  rw [run_noting_leave]
  refine .map (.of_keeps (I := Asked o met) ?_ h)
  rw [rewriter]
  dsimp only
  split
  · exact applyLeave_keeps n _
  · exact .pure _

/-- **The open parameters in a tree are asked about**, in order: they wait, or
are recorded where they stand. No other parameter waits or is recorded. -/
theorem rewriteTree_asked {tree rewritten : Json} (hroot : tree.kind ∈ rootKinds)
    (hsource : tree.everywhere functionsInPlace = true)
    (h : rewriteTree o tree = (.ok rewritten, p)) :
    AskedAbout o (opensIn o tree) p.waiting (openPlaces p.findings) := by
  obtain ⟨met, hmet⟩ := exists_rewriteNoting h
  have hasked : Asked o met p :=
    Syntax.walkTree_closed (Noting.Keeps.closed (Asked o)) enter_asked leave_asked
      (walkFuel tree) tree [] {} ⟨by cases o.infers <;> rfl, by cases o.infers <;> rfl⟩
      (rewritten, met) p hmet
  rw [opensIn, rewriteNoting_params hroot hsource hmet, List.filter_flatMap]
  exact hasked

end Migration

end Retype
