import Retype.Migration.Type
import Mathlib.Data.List.Chain
/-!
# Gathering the parts of an object

The members of an object type that follow each other become one literal, and
the types between them stand by themselves (`gatherParts`). The result can be
read back: nothing is lost, added or moved (`Gathered`).
-/

namespace Retype

namespace TsType

/-- The types that an intersection is made of; any other type is one by itself. -/
def conjuncts : TsType → List TsType
  | intersection _ types => types
  | t => [t]

def isLiteralType : TsType → Bool
  | typeLiteral _ _ => true
  | _ => false

end TsType

namespace Migration

/-! ## Reading an object type back -/

/-- What a type in an intersection was made of: a literal of its members. -/
def laidOut : TsType → List ObjectPart
  | .typeLiteral _ members => members.map .member
  | t => [.type t]

/-- An object type, as the parts that it was made of. -/
def objectParts (t : TsType) : List ObjectPart := t.conjuncts.flatMap laidOut

/-- A type is that of an object with some parts. Nothing is lost, added or
moved; each longest run of members is one literal, since no literal is empty
and no two are neighbours; a type by itself is not wrapped. -/
structure Gathered (parts : List ObjectPart) (t : TsType) : Prop where
  reading : objectParts t = parts
  filled : parts ≠ [] → ∀ u ∈ t.conjuncts, laidOut u ≠ []
  apart : t.conjuncts.IsChain fun u v => ¬ (u.isLiteralType = true ∧ v.isLiteralType = true)
  nothing : parts = [] → t = .typeLiteral none []
  several : ∀ origin types, t = .intersection origin types → 2 ≤ types.length

/-! ## Gathering -/

/-- What holds of a part of an object: one thing of a member, one of a type. -/
def ObjectPart.Is (M : TsMember TsType → Prop) (Q : TsType → Prop) : ObjectPart → Prop
  | .member m => M m
  | .type t => Q t

/-- A part is a member, or a type that is neither a literal nor an intersection. -/
def ObjectPart.IsSingle : ObjectPart → Prop :=
  ObjectPart.Is (fun _ => True) fun t => t.conjuncts = [t] ∧ laidOut t = [.type t]

theorem gatherParts_each {M : TsMember TsType → Prop} {Q : TsType → Prop}
    (hliteral : ∀ ms, (∀ m ∈ ms, M m) → Q (.typeLiteral none ms)) {run : List (TsMember TsType)}
    {parts : List ObjectPart} (hrun : ∀ m ∈ run, M m) (hparts : ∀ p ∈ parts, p.Is M Q) :
    ∀ t ∈ gatherParts run parts, Q t := by
  fun_induction gatherParts run parts with
  | case1 => exact List.forall_mem_nil _
  | case2 run => exact List.forall_mem_singleton.2 (hliteral run hrun)
  | case3 run m rest ih =>
    rw [List.forall_mem_cons] at hparts
    exact ih (List.forall_mem_append.2 ⟨hrun, List.forall_mem_singleton.2 hparts.1⟩) hparts.2
  | case4 t rest ih =>
    rw [List.forall_mem_cons] at hparts
    exact List.forall_mem_cons.2 ⟨hparts.1, ih hrun hparts.2⟩
  | case5 run t rest _ ih =>
    rw [List.forall_mem_cons] at hparts
    exact List.forall_mem_cons.2 ⟨hliteral run hrun,
      List.forall_mem_cons.2 ⟨hparts.1, ih (List.forall_mem_nil _) hparts.2⟩⟩

theorem isLiteralType_of_laidOut {t : TsType} (h : laidOut t = [.type t]) :
    t.isLiteralType = false := by
  cases t with
  | typeLiteral origin members => cases members <;> cases h
  | _ => rfl

theorem gatherParts_reading (run : List (TsMember TsType)) {parts : List ObjectPart}
    (h : ∀ p ∈ parts, p.IsSingle) :
    (gatherParts run parts).flatMap laidOut = run.map .member ++ parts := by
  fun_induction gatherParts run parts with
  | case1 => rfl
  | case2 run _ => simp [laidOut]
  | case3 run m rest ih =>
    rw [ih (List.forall_mem_cons.1 h).2]
    simp
  | case4 t rest ih =>
    rw [List.forall_mem_cons] at h
    rw [List.flatMap_cons, ih h.2, h.1.2]
    rfl
  | case5 run t rest _ ih =>
    rw [List.forall_mem_cons] at h
    rw [List.flatMap_cons, List.flatMap_cons, ih h.2, h.1.2]
    simp [laidOut]

theorem gatherParts_filled (run : List (TsMember TsType)) {parts : List ObjectPart}
    (h : ∀ p ∈ parts, p.IsSingle) : ∀ t ∈ gatherParts run parts, laidOut t ≠ [] := by
  fun_induction gatherParts run parts with
  | case1 => exact List.forall_mem_nil _
  | case2 run hrun =>
    refine List.forall_mem_singleton.2 ?_
    simpa [laidOut] using hrun
  | case3 run m rest ih => exact ih (List.forall_mem_cons.1 h).2
  | case4 t rest ih =>
    rw [List.forall_mem_cons] at h
    refine List.forall_mem_cons.2 ⟨?_, ih h.2⟩
    simp [h.1.2]
  | case5 run t rest hrun ih =>
    rw [List.forall_mem_cons] at h
    refine List.forall_mem_cons.2 ⟨?_, List.forall_mem_cons.2 ⟨?_, ih h.2⟩⟩
    · simpa [laidOut] using hrun
    · simp [h.1.2]

theorem gatherParts_apart (run : List (TsMember TsType)) {parts : List ObjectPart}
    (h : ∀ p ∈ parts, p.IsSingle) : (gatherParts run parts).IsChain
      fun u v => ¬ (u.isLiteralType = true ∧ v.isLiteralType = true) := by
  fun_induction gatherParts run parts with
  | case1 => exact .nil
  | case2 run _ => exact .singleton _
  | case3 run m rest ih => exact ih (List.forall_mem_cons.1 h).2
  | case4 t rest ih =>
    rw [List.forall_mem_cons] at h
    have hother := isLiteralType_of_laidOut h.1.2
    exact List.isChain_cons.2 ⟨fun v _ => by simp [hother], ih h.2⟩
  | case5 run t rest _ ih =>
    rw [List.forall_mem_cons] at h
    have hother := isLiteralType_of_laidOut h.1.2
    exact List.isChain_cons_cons.2
      ⟨by simp [hother], List.isChain_cons.2 ⟨fun v _ => by simp [hother], ih h.2⟩⟩

theorem gatherParts_conjuncts (run : List (TsMember TsType)) {parts : List ObjectPart}
    (h : ∀ p ∈ parts, p.IsSingle) : ∀ t ∈ gatherParts run parts, t.conjuncts = [t] :=
  gatherParts_each (M := fun _ => True) (fun _ _ => rfl) (fun _ _ => trivial)
    fun p hp => by cases p with
    | member m => trivial
    | type t => exact (h _ hp).1

theorem objectOfParts_gathered {parts : List ObjectPart} (h : ∀ p ∈ parts, p.IsSingle) :
    Gathered parts (objectOfParts parts) := by
  have hreading := gatherParts_reading [] h
  have hfilled := gatherParts_filled [] h
  have hapart := gatherParts_apart [] h
  have hconjuncts := gatherParts_conjuncts [] h
  rw [objectOfParts]
  generalize gatherParts [] parts = types at hreading hfilled hapart hconjuncts
  match types with
  | [] =>
    obtain rfl : [] = parts := hreading
    exact ⟨rfl, (absurd rfl ·), .singleton _, fun _ => rfl, nofun⟩
  | [t] =>
    change Gathered parts t
    have ht := hconjuncts t List.mem_cons_self
    refine ⟨?_, fun _ => ?_, ?_, fun hnil => ?_, fun origin types heq => ?_⟩
    · rw [objectParts, ht, hreading]
      rfl
    · rw [ht]
      exact hfilled
    · rw [ht]
      exact hapart
    · -- a type by itself is something
      rw [hnil] at hreading
      exact absurd (by simpa using hreading) (hfilled t List.mem_cons_self)
    · -- no type is an intersection of itself
      subst heq
      have hsize : sizeOf types = sizeOf [TsType.intersection origin types] := congrArg sizeOf ht
      simp at hsize
      omega
  | t :: u :: ts =>
    refine ⟨hreading, fun _ => hfilled, hapart, fun hnil => ?_, ?_⟩
    · rw [hnil] at hreading
      have hnone : laidOut t = [] := by simpa using (List.flatMap_eq_nil_iff.1 hreading) t (by simp)
      exact absurd hnone (hfilled t List.mem_cons_self)
    · rintro _ _ ⟨⟩
      simp

end Migration

end Retype
