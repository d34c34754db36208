import Retype.Proofs.Migration.Becoming
import Retype.Proofs.Migration.Findings
/-!
# What a walk meets

A visitor that notes each node it enters, and what it puts in its place, in the
order of the walk. Noting changes nothing else: without the notes, a walk that
notes is the walk (`fst_rewriteNoting`).
-/

namespace Retype

namespace Syntax

/-- A node that a walk has met: where it stood, and what was put in its place
on the way down. -/
structure Meeting where
  place : Place
  node : Json
  entered : Json

variable {m : Type → Type} [Monad m]

/-- The visitor that notes what it meets. -/
def Visitor.noting (visitor : Visitor m) : Visitor (StateT (List Meeting) m) where
  enter place n := do
    let visit ← StateT.lift (visitor.enter place n)
    modify (· ++ [⟨place, n, visit.node⟩])
    return visit
  leave place n := StateT.lift (visitor.leave place n)

/-- Without the notes, one step is another. -/
def Forgets {α : Type} (x : StateT (List Meeting) m α) (y : m α) : Prop :=
  ∀ met, Prod.fst <$> x.run met = y

namespace Forgets

variable [LawfulMonad m] {α β : Type}

/-- A value returned notes nothing. -/
theorem pure (a : α) : Forgets (Pure.pure a) (Pure.pure a : m α) := fun met => by
  rw [StateT.run_pure, map_pure]

/-- A step of the walk itself notes nothing. -/
theorem lift (y : m α) : Forgets (StateT.lift y) y := fun met => by
  rw [StateT.run_lift, bind_pure_comp, Functor.map_map]
  exact id_map y

/-- Steps that only note more do so one after the other. -/
theorem bind {x : StateT (List Meeting) m α} {y : m α} {f : α → StateT (List Meeting) m β}
    {g : α → m β} (hx : Forgets x y) (hf : ∀ a, Forgets (f a) (g a)) :
    Forgets (x >>= f) (y >>= g) := fun met => by
  rw [StateT.run_bind, map_bind, ← hx met, bind_map_left]
  exact bind_congr fun ran => hf ran.1 ran.2

/-- What only notes more is linked through every way of combining steps. -/
theorem linked : Linked fun (α : Type) (x : StateT (List Meeting) m α) (y : m α) => Forgets x y :=
  ⟨pure, bind⟩

end Forgets

section
variable [LawfulMonad m] (visitor : Visitor m)

/-- Entering a node does as before, notes apart. -/
theorem enter_forgets (place : Place) (n : Json) :
    Forgets (visitor.noting.enter place n) (visitor.enter place n) := by
  have hnote (visit : Visit) : Forgets (do
      modify (· ++ [⟨place, n, visit.node⟩])
      return visit) (Pure.pure visit : m Visit) := fun met => by
    simp
  have henter := Forgets.bind (.lift (visitor.enter place n)) hnote
  rwa [bind_pure] at henter

/-- So does the walk of a node. -/
theorem walk_forgets (fuel : Nat) (place : Place) (n : Json) :
    Forgets (walk visitor.noting fuel place n) (walk visitor fuel place n) :=
  walk_linked Forgets.linked (enter_forgets visitor) (fun _ _ => .lift _) fuel place n

/-- So does the walk of a tree. -/
theorem walkTree_forgets (fuel : Nat) (tree : Json) :
    Forgets (walkTree visitor.noting fuel tree) (walkTree visitor fuel tree) :=
  walkTree_linked Forgets.linked (enter_forgets visitor) (fun _ _ => .lift _) fuel tree

end

end Syntax

namespace Migration

open Syntax (Meeting)

/-- The rewriting of a tree, and what the walk has met on the way. -/
def rewriteNoting (o : FileOptions) (tree : Json) : Result (Json × List Meeting) × Progress :=
  ((Syntax.walkTree (rewriter o).noting (walkFuel tree) tree).run []).run.run {}

/-- The image of a step runs as the step does. -/
theorem run_map {α β : Type} (f : α → β) (x : Rewrite α) (p : Progress) :
    (f <$> x).run.run p = ((x.run.run p).1.map f, (x.run.run p).2) := by
  rw [ExceptT.run_map]
  rfl

/-! ## Steps and what they do -/

variable {α β : Type} {P Q : α → Progress → Prop}

/-- What a step gives from a given progress on, and the progress after it, if it
is not refused. -/
def Rewrite.Runs (x : Rewrite α) (p : Progress) (P : α → Progress → Prop) : Prop :=
  ∀ a p', x.run.run p = (.ok a, p') → P a p'

namespace Rewrite.Runs

variable {p : Progress}

/-- A weaker condition holds after the run too. -/
theorem mono {x : Rewrite α} (h : x.Runs p P) (hPQ : ∀ a p', P a p' → Q a p') : x.Runs p Q :=
  fun a p' ha => hPQ a p' (h a p' ha)

/-- What every value has, the value of a run has. -/
theorem of_yields {x : Rewrite α} {R : α → Prop} (h : x.Yields R) : x.Runs p fun a _ => R a := h p

/-- What every run keeps, this run keeps. -/
theorem of_keeps {x : Rewrite α} {I : Progress → Prop} (h : x.Keeps I) (hp : I p) :
    x.Runs p fun _ p' => I p' := fun a p' ha => by
  have hkept := h p hp
  rwa [ha] at hkept

/-- A value returned leaves the progress as it was. -/
theorem pure {a : α} (h : P a p) : Rewrite.Runs (Pure.pure a) p P := by
  intro b p' hb
  have hb : ((.ok a, p) : Result α × Progress) = (.ok b, p') := hb
  cases hb
  exact h

/-- A change of the progress is the change that is made. -/
theorem modify {f : Progress → Progress} {P : Unit → Progress → Prop} (h : P () (f p)) :
    Rewrite.Runs (modify f) p P := by
  intro b p' hb
  have hb : ((.ok (), f p) : Result Unit × Progress) = (.ok b, p') := hb
  cases hb
  exact h

/-- The progress read is the progress there is. -/
theorem get {P : Progress → Progress → Prop} (h : P p p) : Rewrite.Runs MonadState.get p P := by
  intro b p' hb
  have hb : ((.ok p, p) : Result Progress × Progress) = (.ok b, p') := hb
  cases hb
  exact h

/-- Runs one after the other go on from where the first one ended. -/
theorem bind {x : Rewrite α} {f : α → Rewrite β} {P : β → Progress → Prop}
    (h : x.Runs p fun a q => (f a).Runs q P) : Rewrite.Runs (x >>= f) p P := by
  intro b p' hb
  simp only [ExceptT.run_bind, StateT.run_bind] at hb
  rcases hx : x.run.run p with ⟨result, q⟩
  simp only [hx] at hb
  cases result with
  | error e => cases hb
  | ok a => exact h a q hx b p' hb

/-- The image of a run ends where the run does. -/
theorem map {x : Rewrite α} {f : α → β} {P : β → Progress → Prop}
    (h : x.Runs p fun a q => P (f a) q) : Rewrite.Runs (f <$> x) p P := by
  rw [map_eq_pure_bind]
  exact bind (h.mono fun _ _ ha => pure ha)

/-- A result has no effect on the progress. -/
theorem ofResult {r : Result α} (h : ∀ a, r = .ok a → P a p) : Rewrite.Runs (.ofResult r) p P := by
  cases r with
  | ok a => exact pure (h a rfl)
  | error e => exact nofun

/-- A recorded result adds its findings. -/
theorem ofRecorded {x : Recorded α}
    (h : x.Gives fun fs a => P a { p with findings := p.findings ++ fs }) :
    Rewrite.Runs (.ofRecorded x) p P :=
  bind (modify (ofResult h))

end Rewrite.Runs

/-! ## Noting -/

/-- **Noting the meetings changes nothing that is rewritten or recorded.** -/
theorem fst_rewriteNoting (o : FileOptions) (tree : Json) :
    rewriteTree o tree = ((rewriteNoting o tree).1.map Prod.fst, (rewriteNoting o tree).2) := by
  rw [rewriteTree, ← Syntax.walkTree_forgets (rewriter o) (walkFuel tree) tree []]
  exact run_map Prod.fst _ {}

/-- A rewrite that succeeds has a tree. -/
theorem exists_rewritten {o : FileOptions} {tree : Json}
    (h : (rewriteTree o tree).1.toOption.isSome = true) :
    ∃ rewritten, rewriteTree o tree = (.ok rewritten, (rewriteTree o tree).2) := by
  rcases hran : rewriteTree o tree with ⟨_ | rewritten, p⟩
  · rw [hran] at h
    cases h
  · exact ⟨rewritten, rfl⟩

/-- **Noting changes nothing.** What is rewritten can be noted. -/
theorem exists_rewriteNoting {o : FileOptions} {tree rewritten : Json} {progress : Progress}
    (h : rewriteTree o tree = (.ok rewritten, progress)) :
    ∃ met, rewriteNoting o tree = (.ok (rewritten, met), progress) := by
  rw [fst_rewriteNoting] at h
  rcases hran : rewriteNoting o tree with ⟨_ | ⟨tree', met⟩, progress'⟩
  · rw [hran] at h
    cases h
  · rw [hran] at h
    cases h
    exact ⟨met, rfl⟩

/-- A step that notes. -/
abbrev Noting := StateT (List Meeting) Rewrite

/-- What holds of the notes and of the progress still holds after a step that
notes, unless it is refused. -/
def Noting.Keeps (I : List Meeting → Progress → Prop) (x : Noting α) : Prop :=
  ∀ met p, I met p → (x.run met).Runs p fun ran p' => I ran.2 p'

/-- What is kept is kept through every way of combining steps. -/
theorem Noting.Keeps.closed (I : List Meeting → Progress → Prop) :
    Syntax.Closed fun (α : Type) (x : Noting α) => x.Keeps I where
  pure a _ _ h := .pure h
  bind {_ _ x f} hx hf met p h := by
    rw [StateT.run_bind]
    exact .bind ((hx met p h).mono fun ran q hq => hf ran.1 ran.2 q hq)

/-- What a step notes, and what it gives. -/
def Noting.Notes (x : Noting α) (P : List Meeting → α → Prop) : Prop :=
  ∀ met, Rewrite.Yields (x.run met) fun ran => ∃ new, ran.2 = met ++ new ∧ P new ran.1

namespace Noting.Notes

variable {P Q : List Meeting → α → Prop}

/-- A weaker condition holds of the new notes too. -/
theorem mono {x : Noting α} (h : x.Notes P) (hPQ : ∀ new a, P new a → Q new a) : x.Notes Q :=
  fun met => (h met).mono fun _ ⟨new, hmet, hnew⟩ => ⟨new, hmet, hPQ new _ hnew⟩

/-- A value returned has no new notes. -/
theorem pure {a : α} (h : P [] a) : Noting.Notes (Pure.pure a) P := fun met =>
  .pure ⟨[], (List.append_nil met).symm, h⟩

/-- The notes of two steps stand one after the other. -/
theorem bind {x : Noting α} {f : α → Noting β} {P : List Meeting → β → Prop}
    (h : x.Notes fun new a => (f a).Notes fun more b => P (new ++ more) b) :
    Noting.Notes (x >>= f) P := by
  intro met
  rw [StateT.run_bind]
  refine .bind ((h met).mono fun ran hran => ?_)
  obtain ⟨new, hmet, hf⟩ := hran
  refine (hf ran.2).mono fun ran' hran' => ?_
  obtain ⟨more, hmet', hP⟩ := hran'
  exact ⟨new ++ more, by rw [hmet', hmet, List.append_assoc], hP⟩

/-- A choice notes what its branch does. -/
theorem ite {c : Prop} [Decidable c] {x y : Noting α} (hx : c → x.Notes P) (hy : ¬c → y.Notes P) :
    Noting.Notes (if c then x else y) P := by
  split <;> rename_i h
  · exact hx h
  · exact hy h

end Noting.Notes

section
variable {visitor : Syntax.Visitor Rewrite} {place : Syntax.Place} {n : Json}

/-- Entering a node notes the meeting and nothing else. -/
theorem run_noting_enter (met : List Meeting) : (visitor.noting.enter place n).run met =
    (fun visit => (visit, met ++ [⟨place, n, visit.node⟩])) <$> visitor.enter place n := by
  simp [Syntax.Visitor.noting]

/-- Leaving one notes nothing. -/
theorem run_noting_leave (met : List Meeting) :
    (visitor.noting.leave place n).run met = (·, met) <$> visitor.leave place n := by
  simp [Syntax.Visitor.noting]

/-- What a node is entered as is noted, once. -/
theorem enter_notes {P : Syntax.Visit → Prop} (h : (visitor.enter place n).Yields P) :
    Noting.Notes (visitor.noting.enter place n) fun new visit =>
      new = [⟨place, n, visit.node⟩] ∧ P visit := by
  intro met
  rw [run_noting_enter]
  exact .map (h.mono fun visit hvisit => ⟨_, rfl, rfl, hvisit⟩)

/-- Nothing is noted on the way up. -/
theorem leave_notes : Noting.Notes (visitor.noting.leave place n) fun new _ => new = [] := by
  intro met
  rw [run_noting_leave]
  exact .map (.trivial _ fun _ => ⟨[], (List.append_nil met).symm, rfl⟩)

end

end Migration

end Retype
