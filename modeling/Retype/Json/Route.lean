import Retype.Json.Basic
/-! # Parts of a value

A part of a value is named by the route down to it. What is put in the place
of a part is what is found there afterwards (`part?_setPart`).
-/

namespace Retype.Json

/-- One step down into a value: to the value of a key, or to an item. -/
inductive Step where
  | key (name : String)
  | item (index : Nat)
  deriving DecidableEq, Repr

/-- The steps from a value down to a part of it. -/
abbrev Route := List Step

/-- The part that one step leads to. -/
def child? : Json → Step → Option Json
  | obj entries, .key name => Entries.get? entries name
  | arr items, .item index => items[index]?
  | _, _ => none

/-- Puts a value where one step leads to. -/
def setChild : Json → Step → Json → Json
  | obj entries, .key name, v => obj (Entries.set entries name v)
  | arr items, .item index, v => arr (items.set index v)
  | j, _, _ => j

/-- The part at the end of a route. -/
def part? : Json → Route → Option Json
  | j, [] => some j
  | j, step :: route => (j.child? step).bind (part? · route)

/-- Puts a value in the place of the part at the end of a route; without such a
part the value stays. -/
def setPart : Json → Route → Json → Json
  | _, [], v => v
  | j, step :: route, v =>
    match j.child? step with
    | some child => j.setChild step (setPart child route v)
    | none => j

theorem child?_setChild {j : Json} {step : Step} {child : Json} (h : j.child? step = some child)
    (v : Json) : (j.setChild step v).child? step = some v := by
  match j, step with
  | obj entries, .key name => simp [setChild, child?, Entries.get?_set_self]
  | arr items, .item index =>
    obtain ⟨hi, -⟩ := List.getElem?_eq_some_iff.1 h
    simp [setChild, child?, hi]
  | .null, _ | .bool _, _ | .int _, _ | .double _, _ | .str _, _ | arr _, .key _ | obj _, .item _ =>
    simp [child?] at h

/-- What is put in the place of a part is found there. -/
theorem part?_setPart {j : Json} {route : Route} {part : Json} (h : j.part? route = some part)
    (v : Json) : (j.setPart route v).part? route = some v := by
  induction route generalizing j with
  | nil => rfl
  | cons step route ih =>
    simp only [part?, Option.bind_eq_some_iff] at h
    obtain ⟨child, hc, hp⟩ := h
    simp [part?, setPart, hc, child?_setChild hc, ih hp]

end Retype.Json
