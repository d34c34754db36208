import Retype.Migration.Tree
import Mathlib.Data.List.Forall2
/-!
# What a step can yield

A step of the rewriting may be refused; `Yields` says what holds of whatever
it gives otherwise. Nothing is said about what was produced besides it. There
is one rule for each way of making a step, for results and recorded results
as for steps.
-/

namespace Retype

variable {α β : Type} {P Q : α → Prop}

/-! ## Results -/

/-- What holds of a result, if there is one. -/
def Result.Yields (r : Result α) (P : α → Prop) : Prop := ∀ a, r = .ok a → P a

/-- What follows a result goes on from its value. -/
theorem Result.ok_bind (a : α) (f : α → Result β) : ((.ok a : Result α) >>= f) = f a := rfl

namespace Result.Yields

/-- A weaker property is yielded too. -/
theorem mono {r : Result α} (h : Result.Yields r P) (hPQ : ∀ a, P a → Q a) : Result.Yields r Q :=
  fun a ha => hPQ a (h a ha)

/-- A value yields what holds of it. -/
theorem ok {a : α} (h : P a) : Result.Yields (.ok a) P := by
  rintro _ ⟨⟩
  exact h

/-- The value returned yields what holds of it. -/
theorem pure {a : α} (h : P a) : Result.Yields (Pure.pure a) P := ok h

/-- A refusal yields anything: it has no value. -/
theorem error (e : Refusal) : Result.Yields (.error e) P := nofun

/-- Results one after the other yield what the last one does. -/
theorem bind {r : Result α} {f : α → Result β} {Q : β → Prop}
    (h : Result.Yields r fun a => Result.Yields (f a) Q) : Result.Yields (r >>= f) Q := by
  intro b hb
  cases r with
  | error e => cases hb
  | ok a => exact h a rfl b hb

/-- What holds of everything is yielded by every result. -/
theorem trivial (r : Result α) (h : ∀ a, P a) : Result.Yields r P := fun a _ => h a

/-- A choice yields what both its branches do. -/
theorem ite {c : Prop} [Decidable c] {r s : Result α} (hr : c → Result.Yields r P)
    (hs : ¬c → Result.Yields s P) : Result.Yields (if c then r else s) P := by
  split <;> rename_i h
  · exact hr h
  · exact hs h

/-- The image of a result yields what the value's image has. -/
theorem map {r : Result α} {f : α → β} {Q : β → Prop} (h : Result.Yields r fun a => Q (f a)) :
    Result.Yields (f <$> r) Q := by
  cases r with
  | error e => exact .error e
  | ok a => exact .ok (h a rfl)

/-- What each result of a list yields holds of every value of the list. -/
theorem mapM {f : α → Result β} {Q : β → Prop} {xs : List α}
    (h : ∀ x ∈ xs, Result.Yields (f x) Q) : Result.Yields (xs.mapM f) fun ys => ∀ y ∈ ys, Q y := by
  induction xs with
  | nil => exact .pure nofun
  | cons x xs ih =>
    rw [List.forall_mem_cons] at h
    rw [List.mapM_cons]
    refine .bind (h.1.mono fun y hy => .bind ((ih h.2).mono fun ys hys => .pure ?_))
    exact List.forall_mem_cons.2 ⟨hy, hys⟩

/-- What relates each item to what it gives relates the lists. -/
theorem mapM_related {f : α → Result β} {R : α → β → Prop} {xs : List α}
    (h : ∀ x ∈ xs, Result.Yields (f x) (R x)) :
    Result.Yields (xs.mapM f) (List.Forall₂ R xs) := by
  induction xs with
  | nil => exact .pure .nil
  | cons x xs ih =>
    rw [List.forall_mem_cons] at h
    rw [List.mapM_cons]
    exact .bind (h.1.mono fun y hy => .bind ((ih h.2).mono fun ys hys => .pure (.cons hy hys)))

/-- What holds of what one item gives holds of something that a list gives. -/
theorem mapM_mem {f : α → Result β} {Q : β → Prop} {xs : List α} {x : α}
    (hx : x ∈ xs) (h : Result.Yields (f x) Q) :
    Result.Yields (xs.mapM f) fun ys => ∃ y ∈ ys, Q y := by
  induction xs with
  | nil => cases hx
  | cons first rest ih =>
    rw [List.mapM_cons]
    rcases List.mem_cons.1 hx with rfl | hrest
    · refine .bind (h.mono fun y hy => .bind (.trivial _ fun ys => .pure ?_))
      exact ⟨y, List.mem_cons_self, hy⟩
    · refine .bind (.trivial _ fun _ => .bind ((ih hrest).mono fun ys hys => .pure ?_))
      obtain ⟨y, hmem, hy⟩ := hys
      exact ⟨y, List.mem_cons_of_mem _ hmem, hy⟩

end Result.Yields

/-! ## Recorded results -/

/-- What holds of a recorded result, if there is one. -/
def Recorded.Yields (x : Recorded α) (P : α → Prop) : Prop := Result.Yields x.result P

namespace Recorded.Yields

/-- The value returned yields what holds of it, whatever has been recorded. -/
theorem pure {a : α} (h : P a) : Recorded.Yields (Pure.pure a) P := Result.Yields.ok h

/-- A result taken among recorded steps yields what it yielded. -/
theorem ofResult {r : Result α} (h : Result.Yields r P) :
    Recorded.Yields (Recorded.ofResult r) P := h

/-- Recorded steps one after the other yield what the last one does. -/
theorem bind {x : Recorded α} {f : α → Recorded β} {Q : β → Prop}
    (h : Recorded.Yields x fun a => Recorded.Yields (f a) Q) : Recorded.Yields (x >>= f) Q := by
  intro b hb
  obtain ⟨findings, result⟩ := x
  cases result with
  | error e => cases hb
  | ok a => exact h a rfl b hb

/-- What holds of everything is yielded by every recorded step. -/
theorem trivial (x : Recorded α) (h : ∀ a, P a) : Recorded.Yields x P := fun a _ => h a

/-- A weaker property is yielded too. -/
theorem mono {x : Recorded α} (h : Recorded.Yields x P) (hPQ : ∀ a, P a → Q a) :
    Recorded.Yields x Q := Result.Yields.mono h hPQ

/-- Two properties yielded apart are yielded together. -/
theorem and {x : Recorded α} (h : Recorded.Yields x P) (h' : Recorded.Yields x Q) :
    Recorded.Yields x fun a => P a ∧ Q a := fun a ha => ⟨h a ha, h' a ha⟩

/-- A refusal among recorded steps yields anything. -/
theorem refuse (e : Refusal) : Recorded.Yields (Recorded.refuse e) P := Result.Yields.error e

/-- The image of a recorded step yields what the value's image has. -/
theorem map {x : Recorded α} {f : α → β} {Q : β → Prop}
    (h : Recorded.Yields x fun a => Q (f a)) : Recorded.Yields (f <$> x) Q := by
  rw [map_eq_pure_bind]
  exact bind (h.mono fun a ha => pure ha)

/-- A choice of recorded steps yields what both its branches do. -/
theorem ite {c : Prop} [Decidable c] {x y : Recorded α} (hx : c → Recorded.Yields x P)
    (hy : ¬c → Recorded.Yields y P) : Recorded.Yields (if c then x else y) P := by
  split <;> rename_i h
  · exact hx h
  · exact hy h

/-- What is done first only under a condition. -/
theorem first {c : Prop} [Decidable c] {x : Recorded Unit} {f : Unit → Recorded α}
    (h : Recorded.Yields (f ()) P) : Recorded.Yields (if c then x >>= f else f ()) P :=
  ite (fun _ => bind (trivial x fun _ => h)) fun _ => h

end Recorded.Yields

namespace Migration

/-! ## Steps -/

/-- What holds of what a step gives, if it is not refused. -/
def Rewrite.Yields (x : Rewrite α) (P : α → Prop) : Prop :=
  ∀ p a p', x.run.run p = (.ok a, p') → P a

namespace Rewrite.Yields

/-- A weaker property is yielded too. -/
theorem mono {x : Rewrite α} (h : x.Yields P) (hPQ : ∀ a, P a → Q a) : x.Yields Q :=
  fun p a p' ha => hPQ a (h p a p' ha)

/-- What holds of everything is yielded by every step of the rewrite. -/
theorem trivial (x : Rewrite α) (h : ∀ a, P a) : x.Yields P := fun _ a _ _ => h a

/-- Two properties yielded apart are yielded together. -/
theorem and {x : Rewrite α} (h : x.Yields P) (h' : x.Yields Q) : x.Yields fun a => P a ∧ Q a :=
  fun p a p' ha => ⟨h p a p' ha, h' p a p' ha⟩

/-- The value returned yields what holds of it, whatever the walk has seen. -/
theorem pure {a : α} (h : P a) : Rewrite.Yields (Pure.pure a) P := by
  intro p b p' hb
  have hb : ((.ok a, p) : Result α × Progress) = (.ok b, p') := hb
  cases hb
  exact h

/-- A refusal of the rewrite yields anything. -/
theorem refuse (e : Refusal) : Rewrite.Yields (Rewrite.refuse e) P := by
  intro p b p' hb
  have hb : ((.error e, p) : Result α × Progress) = (.ok b, p') := hb
  cases hb

/-- Steps of the rewrite one after the other yield what the last one does. -/
theorem bind {x : Rewrite α} {f : α → Rewrite β} {Q : β → Prop}
    (h : x.Yields fun a => (f a).Yields Q) : Rewrite.Yields (x >>= f) Q := by
  intro p b p' hb
  simp only [ExceptT.run_bind, StateT.run_bind] at hb
  rcases hx : x.run.run p with ⟨result, q⟩
  simp only [hx] at hb
  cases result with
  | error e => cases hb
  | ok a => exact h p a q hx q b p' hb

/-- The image of a step yields what the value's image has. -/
theorem map {x : Rewrite α} {f : α → β} {Q : β → Prop} (h : x.Yields fun a => Q (f a)) :
    Rewrite.Yields (f <$> x) Q := by
  rw [map_eq_pure_bind]
  exact bind (h.mono fun _ ha => pure ha)

/-- A result taken into the rewrite yields what it yielded. -/
theorem ofResult {r : Result α} (h : Result.Yields r P) :
    Rewrite.Yields (Rewrite.ofResult r) P := by
  cases r with
  | ok a => exact pure (h a rfl)
  | error e => exact refuse e

/-- So does a recorded step. -/
theorem ofRecorded {x : Recorded α} (h : x.Yields P) : Rewrite.Yields (Rewrite.ofRecorded x) P :=
  bind (trivial _ fun _ => ofResult h)

/-- A choice of the rewrite yields what both its branches do. -/
theorem ite {c : Prop} [Decidable c] {x y : Rewrite α} (hx : c → x.Yields P)
    (hy : ¬c → y.Yields P) : Rewrite.Yields (if c then x else y) P := by
  split <;> rename_i h
  · exact hx h
  · exact hy h

/-- What each step of a list yields holds of every value of the list. -/
theorem mapM {f : α → Rewrite β} {Q : β → Prop} {xs : List α} (h : ∀ x ∈ xs, (f x).Yields Q) :
    (xs.mapM f).Yields fun ys => ∀ y ∈ ys, Q y := by
  induction xs with
  | nil => exact .pure nofun
  | cons x xs ih =>
    rw [List.forall_mem_cons] at h
    rw [List.mapM_cons]
    refine .bind (h.1.mono fun y hy => .bind ((ih h.2).mono fun ys hys => .pure ?_))
    exact List.forall_mem_cons.2 ⟨hy, hys⟩

/-- What each step of a list establishes holds of the whole list. -/
theorem forM {f : α → Rewrite Unit} {xs : List α} (h : ∀ x ∈ xs, (f x).Yields fun _ => P x) :
    (xs.forM f).Yields fun _ => ∀ x ∈ xs, P x := by
  induction xs with
  | nil => exact .pure nofun
  | cons x xs ih =>
    rw [List.forall_mem_cons] at h
    exact .bind (h.1.mono fun _ hx => (ih h.2).mono fun _ hxs => List.forall_mem_cons.2 ⟨hx, hxs⟩)

end Rewrite.Yields

/-! ## Inferred types -/

/-- An annotation for an inferred type is one for what the type becomes; where
there is none, nothing was inferred or it has no counterpart. -/
theorem annotationInferred_yields {o : FileOptions} {P : Json → Prop} {location : Location}
    {inferred : Option Json}
    (h : ∀ type, inferred = some type → (migrateInferred o type).Yields fun t =>
      (annotationOf t).Yields fun a => ∀ annotation, a = some annotation → P annotation) :
    (annotationInferred o location inferred).Yields fun a =>
      ∀ annotation, a = some annotation → P annotation := by
  have hnone : (leaveUnannotated location).Yields fun a =>
      ∀ annotation, a = some annotation → P annotation := .bind (.trivial _ fun _ => .pure nofun)
  cases inferred with
  | none => exact hnone
  | some type =>
    intro a ha
    dsimp only [annotationInferred] at ha
    split at ha
    next => exact hnone a ha
    next => cases ha
    next t ht => exact h type rfl t ht a ha

end Migration

end Retype
