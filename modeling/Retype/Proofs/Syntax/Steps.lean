import Retype.Syntax.Walk
/-!
# What the steps of walks keep

A walk is a sequence of the steps of its visitor. Two walks whose steps are in a
relation that steps in a row keep are in that relation themselves
(`walk_linked`), whatever computations they are. So what holds of a step that
does nothing, and of two steps in a row if it holds of both, holds of a walk if
it holds of the steps of the visitor (`walkTree_closed`).
-/

namespace Retype.Syntax

variable {m n : Type → Type}

theorem ite_linked {R : (α : Type) → m α → n α → Prop} {α : Type} {c : Prop} [Decidable c]
    {x x' : m α} {y y' : n α} (hx : R α x y) (hx' : R α x' y') :
    R α (if c then x else x') (if c then y else y') := by
  split
  · exact hx
  · exact hx'

variable [Monad m] [Monad n]

/-- A relation of steps that steps in a row keep. -/
structure Linked (R : (α : Type) → m α → n α → Prop) : Prop where
  pure {α : Type} (a : α) : R α (Pure.pure a) (Pure.pure a)
  bind {α β : Type} {x : m α} {y : n α} {f : α → m β} {g : α → n β} (hx : R α x y)
    (hf : ∀ a, R β (f a) (g a)) : R β (x >>= f) (y >>= g)

section
variable {R : (α : Type) → m α → n α → Prop} (hR : Linked R)
include hR

section
variable {visit : Place → Json → m (Walked Json)} {visit' : Place → Json → n (Walked Json)}
  (hvisit : ∀ place node, R _ (visit place node) (visit' place node))
include hvisit

theorem walkItems_linked (frame : List Json → List Json → Frame) (up : Place)
    (done : Walked (List Json)) (items : List Json) :
    R _ (walkItems visit frame up done items) (walkItems visit' frame up done items) := by
  induction items generalizing done with
  | nil => exact hR.pure _
  | cons item rest ih =>
    rw [walkItems, walkItems]
    exact ite_linked (hR.bind (hvisit _ _) fun _ => ih _) (hR.bind (hR.pure _) fun _ => ih _)

theorem walkEntry_linked (up : Place) (before : Entries) (key : String) (after : Entries)
    (value : Json) :
    R _ (walkEntry visit up before key after value)
      (walkEntry visit' up before key after value) := by
  unfold walkEntry
  split
  · exact hR.bind (walkItems_linked hR hvisit _ _ _ _) fun _ => hR.pure _
  · exact ite_linked (hvisit _ _) (hR.pure _)

theorem walkEntries_linked (up : Place) (done : Walked Entries) (entries : Entries) :
    R _ (walkEntries visit up done entries) (walkEntries visit' up done entries) := by
  induction entries generalizing done with
  | nil => exact hR.pure _
  | cons entry rest ih =>
    obtain ⟨key, value⟩ := entry
    rw [walkEntries, walkEntries]
    exact ite_linked (hR.bind (hR.pure _) fun _ => ih _)
      (hR.bind (walkEntry_linked hR hvisit _ _ _ _ _) fun _ => ih _)

theorem walkChildren_linked (up : Place) (node : Json) :
    R _ (walkChildren visit up node) (walkChildren visit' up node) := by
  unfold walkChildren
  split
  · exact hR.bind (walkEntries_linked hR hvisit _ _ _) fun _ => hR.pure _
  · exact hR.pure _

end

section
variable {visitor : Visitor m} {visitor' : Visitor n}
  (henter : ∀ place node, R _ (visitor.enter place node) (visitor'.enter place node))
  (hleave : ∀ place node, R _ (visitor.leave place node) (visitor'.leave place node))
include henter hleave

/-- **Walks are related as their steps are.** -/
theorem walk_linked (fuel : Nat) (place : Place) (node : Json) :
    R _ (walk visitor fuel place node) (walk visitor' fuel place node) := by
  induction fuel generalizing place node with
  | zero => exact hR.pure _
  | succ fuel ih =>
    rw [walk, walk]
    exact hR.bind (henter _ _) fun _ => hR.bind (walkChildren_linked hR ih _ _) fun _ =>
      hR.bind (hleave _ _) fun _ => hR.pure _

theorem walkTree_linked (fuel : Nat) (tree : Json) :
    R _ (walkTree visitor fuel tree) (walkTree visitor' fuel tree) :=
  hR.bind (walk_linked hR henter hleave _ _ _) fun _ => hR.pure _

end

end

/-! ## Conditions on steps -/

/-- A condition on steps that steps in a row keep. -/
structure Closed (K : (α : Type) → m α → Prop) : Prop where
  pure {α : Type} (a : α) : K α (Pure.pure a)
  bind {α β : Type} {x : m α} {f : α → m β} (hx : K α x) (hf : ∀ a, K β (f a)) : K β (x >>= f)

variable {K : (α : Type) → m α → Prop} (hK : Closed K)
include hK

theorem Closed.linked : Linked fun α (x _ : m α) => K α x := ⟨hK.pure, hK.bind⟩

variable {visitor : Visitor m} (henter : ∀ place n, K _ (visitor.enter place n))
  (hleave : ∀ place n, K _ (visitor.leave place n))
include henter hleave

/-- **A walk keeps what each of its steps keeps.** -/
theorem walkTree_closed (fuel : Nat) (tree : Json) : K _ (walkTree visitor fuel tree) :=
  @walkTree_linked m m _ _ _ hK.linked visitor visitor henter hleave fuel tree

end Retype.Syntax
