import Retype.Proofs.Migration.Annotating
import Retype.Proofs.Migration.Entering
import Retype.Proofs.Migration.Leaving
/-!
# What runs stays

The rewriting of a file changes its types and nothing else: whatever types
are inferred for its parameters, erasing the types of the outcome leaves what
erasing the types of the source leaves. The first stage is the walk, the
second gives the parameters that wait their annotations.
-/

namespace Retype.Migration

open Json (SameSort)
open TypeScript (node identifier)

variable {e : Erasure} (o : FileOptions)

/-! ## The first stage -/

theorem rewriter_respects (keeps : Bool) : Respects (o.erasure keeps) (rewriter o) where
  enter place n hn := by
    rw [rewriter]
    dsimp only
    split
    next rule hrule => exact applyEnter_entered o hn hrule
    next => exact .pure (.keep hn (.refl n))
  leave place n hn := by
    rw [rewriter]
    dsimp only
    split
    next rule _ => exact applyLeave_left o n hn rule
    next => exact .pure ⟨hn, fun hsettled => ⟨.refl n, hsettled.unmarked⟩⟩

/-! ## The second stage -/

theorem setAnnotations_retyped (annotations : List (Option Json)) (params : List Json) :
    List.Forall₂ (Retyped e) params (setAnnotations annotations params) := by
  induction params generalizing annotations with
  | nil => cases annotations <;> exact .nil
  | cons param rest ih =>
    cases annotations with
    | nil => exact List.forall₂_same.2 fun p _ => .refl p
    | cons annotation annotations =>
      simp only [setAnnotations]
      split
      · refine .cons ?_ (ih annotations)
        cases annotation with
        | some type => exact .set_typeLevel param rfl (by decide) type
        | none => exact .refl param
      · exact .cons (.refl param) (ih _)

/-- Parameters that get the types inferred for them change in their types. -/
theorem annotateParams_retyped (annotations : List (Option Json)) (n : Json) :
    Retyped e n (annotateParams annotations n) := by
  rw [annotateParams]
  split
  next params hget =>
    exact .set_part hget (by decide) (by decide) (.arr (setAnnotations_retyped annotations params))
  next => exact .refl n

/-- A value that was annotated at some depth looks the same and leaves the
same. -/
def Annotated (e : Erasure) (v v' : Json) : Prop := SameSort v v' ∧ e.erase v' = e.erase v

theorem Annotated.refl (v : Json) : Annotated e v v := ⟨.refl v, rfl⟩

theorem Annotated.arr {items items' : List Json} (h : List.Forall₂ (Annotated e) items items') :
    Annotated e (.arr items) (.arr items') :=
  ⟨.arr h.length_eq, Erasure.erase_arr_congr (h.imp fun _ _ hv => hv.2)⟩

/-- A node whose entries were annotated, and then its parameters. -/
theorem Annotated.obj {l l' : Entries} (h : l.Rel (fun _ => Annotated e) l')
    (annotations : List (Option Json)) :
    Annotated e (.obj l) (annotateParams annotations (.obj l')) := by
  constructor
  · rw [annotateParams]
    split <;> exact .obj _ _
  · rw [(annotateParams_retyped annotations _).erases]
    exact Erasure.erase_obj_congr (h.mono fun _ _ _ hv => ⟨hv.1, fun _ => by rw [hv.2]⟩)

theorem annotates_annotated : Annotates (fun _ => True) (Annotated e) where
  refl := .refl
  arr := .arr
  obj {_ _} h {annotations} _ := .obj h annotations

/-- **Whatever is inferred, the second stage leaves the same.** -/
theorem erase_annotateWaiting (annotations : List (Option Json)) (tree : Json) :
    e.erase (annotateWaiting o annotations tree) = e.erase tree := by
  exact (annotateWaiting_related o annotates_annotated (fun _ _ => trivial) tree).2

/-! ## Both stages -/

/-- The first stage leaves the same. -/
theorem walkTree_yields {keeps : Bool} {tree : Json} (hroot : tree.kind ∈ ["File", "Program"])
    (hplaced : (o.erasure keeps).wellPlaced tree = true) (fuel : Nat) :
    (Syntax.walkTree (rewriter o) fuel tree).Yields fun rewritten =>
      (o.erasure keeps).erase rewritten = (o.erasure keeps).erase tree := by
  have hn := isNode_of_root hroot
  exact walkTree_yields_present hroot
    ((walk_yields (rewriter_respects o keeps) fuel [] tree hn).mono
      fun _ hw => (hw.kept hplaced).1.erases)

/-- **What runs stays.** Let the root of a tree be a file or a program, and let
its types stand where types belong. If it is rewritten, then erasing the types
of the outcome leaves what erasing those of the source leaves, whatever is
inferred for the parameters that wait. Erasure may drop the marker of every
pattern with a default value; where it keeps those that are not of names, the
source has none of them. -/
theorem erase_migrated (keeps : Bool) {tree rewritten : Json} {p : Progress}
    (hroot : tree.kind ∈ ["File", "Program"]) (hplaced : (o.erasure keeps).wellPlaced tree = true)
    (h : rewriteTree o tree = (.ok rewritten, p)) (annotations : List (Option Json)) :
    (o.erasure keeps).erase (annotateWaiting o annotations rewritten) =
      (o.erasure keeps).erase tree := by
  rw [erase_annotateWaiting]
  exact walkTree_yields o hroot hplaced (walkFuel tree) _ rewritten p h

/-- `type T = string; function f(a: ?string, b) { return (b: string); }` -/
def castingFile : Json :=
  let typed (type : Json) : String × Json :=
    ("typeAnnotation", node "TypeAnnotation" [("typeAnnotation", type)])
  let text := node "StringTypeAnnotation" []
  node "Program" [("body", .arr [
    node "TypeAlias" [("id", identifier "T" []), ("right", text)],
    node "FunctionDeclaration" [("id", identifier "f" []),
      ("params", .arr [
        identifier "a" [typed (node "NullableTypeAnnotation" [("typeAnnotation", text)])],
        identifier "b" []]),
      ("body", node "BlockStatement" [("body", .arr [
        node "ReturnStatement" [("argument", node "TypeCastExpression"
          [("expression", identifier "b" []), typed text])]])])]])]

/-- A file for whose parameters types are inferred. -/
def inferring : FileOptions := { path := "a.js", infers := true }

/-- The checked cast and the import that it needs are erased again. -/
theorem erase_migrated_castingFile : ∃ rewritten p,
    rewriteTree inferring castingFile = (.ok rewritten, p) ∧ p.usesHelper = true ∧
      (inferring.erasure true).erase (annotateWaiting inferring [some anyAnnotation] rewritten) =
        (inferring.erasure true).erase castingFile := by
  have hok : (rewriteTree inferring castingFile).1.toOption.isSome = true ∧
      (rewriteTree inferring castingFile).2.usesHelper = true := by
    decide +kernel
  match hrun : rewriteTree inferring castingFile with
  | (.error e, p) =>
    rw [hrun] at hok
    cases hok.1
  | (.ok rewritten, p) =>
    rw [hrun] at hok
    exact ⟨rewritten, p, rfl, hok.2,
      erase_migrated inferring true (by decide) (by decide) hrun [some anyAnnotation]⟩

/-- `function f({}? = {}) {}` -/
def markedDefaultFile : Json :=
  node "Program" [("body", .arr [
    node "FunctionDeclaration" [("id", identifier "f" []),
      ("params", .arr [node "AssignmentPattern"
        [("left", node "ObjectPattern" [("properties", .arr []), ("optional", .bool true)]),
          ("right", node "ObjectExpression" [("properties", .arr [])])]]),
      ("body", node "BlockStatement" [("body", .arr []), ("directives", .arr [])])]]),
    ("directives", .arr [])]

/-- That the source has no other marked patterns with default values is needed:
a parameter with a default value loses its marker, name or not. -/
theorem marker_of_default_dropped :
    ¬ ∀ (o : FileOptions) (tree rewritten : Json) (p : Progress), tree.kind ∈ ["File", "Program"] →
      (o.erasure false).wellPlaced tree = true → rewriteTree o tree = (.ok rewritten, p) →
      ∀ annotations, (o.erasure true).erase (annotateWaiting o annotations rewritten) =
        (o.erasure true).erase tree := by
  intro h
  -- the marker is there before the rewriting, and not afterwards
  have hmarker := congrArg
    (fun left => (left.bind (·.part? [.key "body", .item 0, .key "params", .item 0, .key "left",
      .key "optional"])).isSome)
    (h { path := "a.js" } markedDefaultFile _ _ (by decide) (by decide) rfl [])
  exact absurd hmarker (by decide)

end Retype.Migration
