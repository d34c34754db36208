import Retype.Text.Numeral
/-! # Reading values off a text

What the readers of texts share: a reading takes a value off the front of a
text. A text may fail to spell a value in two ways, which are told apart: it is
malformed, or it has a whole number with too many digits.
-/

namespace Retype

/-- Why a text spells no value. -/
inductive ReadFailure where
  | malformed
  /-- A whole number has too many digits. -/
  | tooManyDigits
  deriving DecidableEq, Repr

/-- A simple reading: the value and the characters after it. -/
abbrev Reading (α : Type) := List Char → Option (α × List Char)

/-- A reading that tells why it fails. -/
abbrev CheckedReading (α : Type) := List Char → Except ReadFailure (α × List Char)

/-- What cannot be read is malformed. -/
def orMalformed {α : Type} : Option α → Except ReadFailure α
  | some a => .ok a
  | none => .error .malformed

/-- The whole number of plain digits. -/
def wholeOfDigits (negative : Bool) (ds : List Char) : Except ReadFailure Int :=
  if Numeral.maxDigits < ds.length then .error .tooManyDigits
  else
    let n : Int := Numeral.natOfDigits ds
    .ok (if negative then -n else n)

end Retype
