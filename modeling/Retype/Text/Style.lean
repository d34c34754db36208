/-! # Styles of text

A terminal is told to show text in a style by control sequences: an escape, a
bracket, parameters, and a letter. Text for anything but a terminal has none.
-/

namespace Retype.Style

def escape : Char := '\x1b'

/-- Characters of the parameters of a control sequence. -/
def isParameter (c : Char) : Bool := c.isDigit || c == ';' || c == '?'

/-- What follows the control sequence that a text begins with. -/
def sequence? : List Char → Option (List Char)
  | e :: '[' :: rest =>
    match rest.dropWhile isParameter with
    | c :: after => if e = escape ∧ c.isAlpha then some after else none
    | [] => none
  | _ => none

theorem length_sequence?_lt {cs after : List Char} (h : sequence? cs = some after) :
    after.length < cs.length := by
  match cs with
  | [] | [_] => simp [sequence?] at h
  | e :: b :: rest =>
    unfold sequence? at h
    split at h <;> try simp at h
    rename_i heq
    obtain ⟨-, hb, hr⟩ := by simpa using heq
    subst hb hr
    have hle := (List.dropWhile_sublist isParameter (l := rest)).length_le
    split at h
    next c after' hd =>
      rw [hd] at hle
      obtain ⟨-, rfl⟩ := by simpa using h
      simp at hle ⊢; omega
    next => simp at h

/-- A text without control sequences. -/
def stripList (cs : List Char) : List Char :=
  match cs with
  | [] => []
  | c :: rest =>
    match _found : sequence? (c :: rest) with
    | some after => stripList after
    | none => c :: stripList rest
termination_by cs.length
decreasing_by
  · have := length_sequence?_lt _found; simpa using this
  · simp

/-- A text without control sequences. -/
def strip (s : String) : String := String.ofList (stripList s.toList)

end Retype.Style
