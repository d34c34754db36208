import Retype.Migration.Tree
import Retype.Proofs.Json.Entries
/-!
# The second stage

Parameters that wait get their annotations in one pass over the tree. What
relates each value to what has become of it may be shown once for lists and
once for nodes (`annotateWaiting_related`): a node has had its entries passed,
and then its own parameters annotated. Only annotations from the list are
given.
-/

namespace Retype.Migration

/-- A relation between values and what has become of them that holds of values
that stay, of lists, and of nodes whose parameters got annotations for which a
condition holds. -/
structure Annotates (Q : Option Json → Prop) (A : Json → Json → Prop) : Prop where
  refl (v : Json) : A v v
  arr {items items' : List Json} (h : List.Forall₂ A items items') : A (.arr items) (.arr items')
  obj {l l' : Entries} (h : l.Rel (fun _ => A) l') {annotations : List (Option Json)}
    (given : ∀ a ∈ annotations, Q a) : A (.obj l) (annotateParams annotations (.obj l'))

variable {Q : Option Json → Prop} {A : Json → Json → Prop} (o : FileOptions)

/-- What a node takes is part of the list, and the rest is left. -/
theorem takeAnnotations_mem (inside : Bool) (n : Json) {s : List (Option Json)}
    (hs : ∀ a ∈ s, Q a) :
    (∀ a ∈ (takeAnnotations o inside n s).1, Q a) ∧
      ∀ a ∈ (takeAnnotations o inside n s).2, Q a := by
  rw [takeAnnotations]
  split
  · exact ⟨fun a ha => hs a (List.mem_of_mem_take ha), fun a ha => hs a (List.mem_of_mem_drop ha)⟩
  · exact ⟨nofun, hs⟩

/-- A node, given what becomes of its entries. -/
theorem annotateNode_related (hA : Annotates Q A) {l : Entries}
    {s : List (Option Json)} (inside : Bool)
    (hs : ∀ a ∈ s, Q a)
    (ih : ∀ s, (∀ a ∈ s, Q a) → l.Rel (fun _ => A) (annotateEntries o inside l s).1 ∧
      ∀ a ∈ (annotateEntries o inside l s).2, Q a) (n : Json) :
    let own := takeAnnotations o inside n s
    let entries := annotateEntries o inside l own.2
    A (.obj l) (annotateParams own.1 (.obj entries.1)) ∧ ∀ a ∈ entries.2, Q a := by
  obtain ⟨hown, hrest⟩ := takeAnnotations_mem o inside n hs
  obtain ⟨hentries, hleft⟩ := ih _ hrest
  exact ⟨hA.obj hentries hown, hleft⟩

mutual

theorem annotateEntries_related (hA : Annotates Q A) (inside : Bool) :
    ∀ (l : List (String × Json)) (s : List (Option Json)), (∀ a ∈ s, Q a) →
    Entries.Rel (fun _ => A) l (annotateEntries o inside l s).1 ∧
      ∀ a ∈ (annotateEntries o inside l s).2, Q a
  | [], _, hs => ⟨.nil, hs⟩
  | (_, value) :: rest, s, hs =>
    have hvalue := annotateValue_related hA inside _ value s hs
    have hrest := annotateEntries_related hA inside rest _ hvalue.2
    ⟨.cons ⟨rfl, hvalue.1⟩ hrest.1, hrest.2⟩

theorem annotateValue_related (hA : Annotates Q A) (inside isMetadata : Bool) :
    ∀ (v : Json) (s : List (Option Json)), (∀ a ∈ s, Q a) →
    A v (annotateValue o inside isMetadata v s).1 ∧
      ∀ a ∈ (annotateValue o inside isMetadata v s).2, Q a
  | .arr items, s, hs => by
    rw [annotateValue]
    split
    · exact ⟨hA.refl _, hs⟩
    · obtain ⟨hitems, hleft⟩ := annotateItems_related hA inside items s hs
      exact ⟨hA.arr hitems, hleft⟩
  | .obj l, s, hs => by
    rw [annotateValue]
    split
    · exact ⟨hA.refl _, hs⟩
    · exact annotateNode_related o hA _ hs (annotateEntries_related hA _ l) _
  | .null, _, hs | .bool _, _, hs | .int _, _, hs | .double _, _, hs | .str _, _, hs =>
    ⟨hA.refl _, hs⟩

theorem annotateItems_related (hA : Annotates Q A) (inside : Bool) :
    ∀ (items : List Json) (s : List (Option Json)), (∀ a ∈ s, Q a) →
    List.Forall₂ A items (annotateItems o inside items s).1 ∧
      ∀ a ∈ (annotateItems o inside items s).2, Q a
  | [], _, hs => ⟨.nil, hs⟩
  | .obj l :: rest, s, hs =>
    have hitem := annotateValue_related hA inside false (.obj l) s hs
    have hrest := annotateItems_related hA inside rest _ hitem.2
    ⟨.cons hitem.1 hrest.1, hrest.2⟩
  | .null :: rest, s, hs | .bool _ :: rest, s, hs | .int _ :: rest, s, hs
  | .double _ :: rest, s, hs | .str _ :: rest, s, hs | .arr _ :: rest, s, hs =>
    have hrest := annotateItems_related hA inside rest s hs
    ⟨.cons (hA.refl _) hrest.1, hrest.2⟩

end

/-- **What relates every value to what the second stage makes of it** relates
the trees. -/
theorem annotateWaiting_related (hA : Annotates Q A) {annotations : List (Option Json)}
    (hannotations : ∀ a ∈ annotations, Q a) (tree : Json) :
    A tree (annotateWaiting o annotations tree) := by
  cases tree with
  | obj l =>
    exact (annotateNode_related o hA _ hannotations (annotateEntries_related o hA _ l) _).1
  | _ => exact hA.refl _

end Retype.Migration
