import Retype.Report.Finding
import Retype.Syntax.Node
/-! # Recorded results

A result together with the findings made on the way to it. What was found
before a refusal is kept. Since findings are only ever added at the end, those
of a computation do not depend on what was found before it.
-/

namespace Retype

/-- The findings of a computation, in order, and its result. -/
structure Recorded (α : Type) where
  findings : List Finding
  result : Result α

namespace Recorded

variable {α β : Type}

def pure (a : α) : Recorded α := ⟨[], .ok a⟩

def bind (x : Recorded α) (f : α → Recorded β) : Recorded β :=
  match x.result with
  | .ok a => ⟨x.findings ++ (f a).findings, (f a).result⟩
  | .error e => ⟨x.findings, .error e⟩

instance : Monad Recorded where
  pure := pure
  bind := bind

/-- Records one finding. -/
def note (f : Finding) : Recorded Unit := ⟨[f], .ok ()⟩

/-- A result with nothing found. -/
def ofResult (r : Result α) : Recorded α := ⟨[], r⟩

def refuse (e : Refusal) : Recorded α := ⟨[], .error e⟩

@[ext] theorem ext {x y : Recorded α} (hf : x.findings = y.findings) (hr : x.result = y.result) :
    x = y := by
  cases x; cases y; simp_all

instance : LawfulMonad Recorded := LawfulMonad.mk' Recorded
  (fun x => by
    rcases x with ⟨fs, r⟩
    cases r <;> simp [Functor.map, bind, pure])
  (fun a f => by
    ext <;> simp [Bind.bind, bind, Pure.pure, pure])
  (fun x f g => by
    rcases x with ⟨fs, r⟩
    cases r with
    | error e => rfl
    | ok a =>
      rcases hf : f a with ⟨fs', r'⟩
      cases r' <;> simp [Bind.bind, bind, hf])

end Recorded

end Retype
