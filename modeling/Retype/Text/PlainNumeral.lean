import Retype.Text.Numeral
/-! # Plain numerals

Numbers as arguments and reports have them: in the digits of ASCII. White
space around them does not count. A whole number may have a sign, leading zeros
on both sides of a minus, a fraction of zeros, and single underscores between its
digits.
-/

namespace Retype.PlainNumeral

/-- The number that digits and at most a minus spell, without leading zeros. -/
def strict? (cs : List Char) : Option Int :=
  let (negative, ds) :=
    match cs with
    | '-' :: ds => (true, ds)
    | ds => (false, ds)
  if ds.isEmpty ∨ !ds.all Char.isDigit ∨ (ds.head? = some '0' ∧ 1 < ds.length)
      ∨ Numeral.maxDigits < ds.length then none
  else
    let n : Int := Numeral.natOfDigits ds
    some (if negative then -n else n)

/-- What follows leading zeros, among which underscores may stand: a digit or a
minus and the rest. The last character stays in any case, and so does the one
before a point. -/
def dropZeros : List Char → Option (List Char)
  | [] => none
  | [c] => some [c]
  | c :: '.' :: rest => some (c :: '.' :: rest)
  | _ :: d :: rest =>
    if d = '0' ∨ d = '_' then dropZeros (d :: rest)
    else if d.isDigit ∨ d = '-' then some (d :: rest)
    else none

/-- A text without the zeros that it begins with; none if it begins with neither
a digit nor a minus. -/
def pastZeros? (cs : List Char) : Option (List Char) :=
  match cs with
  | '0' :: _ => dropZeros cs
  | c :: _ => if c.isDigit ∨ c = '-' then some cs else none
  | [] => none

/-- A numeral without leading zeros, which may stand before the minus and after
it. -/
def withoutLeadingZeros? (cs : List Char) : Option (List Char) :=
  match pastZeros? cs with
  | some ('-' :: ds) => (pastZeros? ds).map ('-' :: ·)
  | ds? => ds?

/-- A numeral without its fraction, if that is made of zeros. -/
def withoutZeroFraction (cs : List Char) : List Char :=
  match cs.dropWhile (· ≠ '.') with
  | '.' :: d :: ds => if (d :: ds).all (· = '0') then cs.takeWhile (· ≠ '.') else cs
  | _ => cs

/-- Whether two underscores stand next to each other. -/
def hasDoubleUnderscore : List Char → Bool
  | '_' :: '_' :: _ => true
  | _ :: rest => hasDoubleUnderscore rest
  | [] => false

/-- A numeral without its underscores, if each of them stands by itself and
inside. -/
def withoutUnderscores (cs : List Char) : List Char :=
  if cs.head? = some '_' ∨ cs.getLast? = some '_' ∨ hasDoubleUnderscore cs then cs
  else cs.filter (· ≠ '_')

/-- A numeral without a plus in front; none if a minus follows it. -/
def withoutPlus? : List Char → Option (List Char)
  | '+' :: '-' :: _ => none
  | '+' :: cs => some cs
  | cs => some cs

/-- The whole number that a text spells. -/
def int? (s : String) : Option Int := do
  let cs ← withoutPlus? (Text.trimList isWhiteSpace s.toList)
  let cs ← withoutLeadingZeros? cs
  strict? (withoutUnderscores (withoutZeroFraction cs))

/-- The double that a text spells. White space around it and underscores in it
do not go together. -/
def double? (s : String) : Option Double :=
  (Numeral.plainDouble? (Text.trimList isWhiteSpace s.toList)).or
    (Numeral.plainDouble? (withoutUnderscores s.toList))

end Retype.PlainNumeral
