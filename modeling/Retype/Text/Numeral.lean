import Retype.Number.Double
import Retype.Text.Blank
/-! # Numerals

Numbers written as text by people: white space around them does not count, a
sign may stand in front, and single underscores may stand between digits. The
digits may be those of any script: each has ten consecutive code points for the
digits zero to nine, as in Unicode 14. A whole number with too many digits is none.
-/

namespace Retype

/-! ## Decimal digits -/

/-- The code points of the digit zero of each script. -/
def zeroDigits : List Nat := [
  0x30, 0x660, 0x6f0, 0x7c0, 0x966, 0x9e6, 0xa66, 0xae6, 0xb66, 0xbe6,
  0xc66, 0xce6, 0xd66, 0xde6, 0xe50, 0xed0, 0xf20, 0x1040, 0x1090, 0x17e0,
  0x1810, 0x1946, 0x19d0, 0x1a80, 0x1a90, 0x1b50, 0x1bb0, 0x1c40, 0x1c50, 0xa620,
  0xa8d0, 0xa900, 0xa9d0, 0xa9f0, 0xaa50, 0xabf0, 0xff10, 0x104a0, 0x10d30, 0x11066,
  0x110f0, 0x11136, 0x111d0, 0x112f0, 0x11450, 0x114d0, 0x11650, 0x116c0, 0x11730, 0x118e0,
  0x11950, 0x11c50, 0x11d50, 0x11da0, 0x16a60, 0x16ac0, 0x16b50, 0x1d7ce, 0x1d7d8, 0x1d7e2,
  0x1d7ec, 0x1d7f6, 0x1e140, 0x1e2f0, 0x1e950, 0x1fbf0]

/-- The value of a decimal digit of any script. -/
def digitValue? (c : Char) : Option Nat :=
  if c.toNat < 0x80 then (if c.isDigit then some (c.toNat - 0x30) else none)
  else (zeroDigits.find? fun z => z ≤ c.toNat ∧ c.toNat < z + 10).map (c.toNat - ·)

namespace Numeral

/-! ## Numbers -/

/-- The most digits that a whole number may be written with. -/
def maxDigits : Nat := 4300

/-- The value of digits with single underscores between them, given whether a
digit has just been read. -/
def digits? : Bool → Nat → List Char → Option Nat
  | afterDigit, n, [] => if afterDigit then some n else none
  | afterDigit, n, '_' :: rest => if afterDigit then digits? false n rest else none
  | _, n, c :: rest =>
    match digitValue? c with
    | some d => digits? true (10 * n + d) rest
    | none => none

/-- A sign, if there is one, and the rest; true stands for minus. -/
def sign : List Char → Bool × List Char
  | '-' :: rest => (true, rest)
  | '+' :: rest => (false, rest)
  | rest => (false, rest)

/-- The whole number that trimmed characters spell. -/
def intOfList? (cs : List Char) : Option Int :=
  let (negative, rest) := sign cs
  if maxDigits < (rest.filter (· ≠ '_')).length then none
  else (digits? false 0 rest).map fun n => if negative then -(n : Int) else n

/-- The whole number that a text spells. -/
def int? (s : String) : Option Int := intOfList? (Text.trimList isWhiteSpace s.toList)

/-- The ASCII form of a digit of any script; other characters stay. -/
def plainDigit (c : Char) : Char :=
  match digitValue? c with
  | some d => Char.ofNat (0x30 + d)
  | none => c

/-- Removes underscores that stand between digits; none if one stands
elsewhere. -/
def withoutUnderscores? : Option Char → List Char → Option (List Char)
  | _, [] => some []
  | before, '_' :: rest =>
    match before, rest with
    | some b, c :: _ => if b.isDigit ∧ c.isDigit then withoutUnderscores? (some '_') rest else none
    | _, _ => none
  | _, c :: rest => (withoutUnderscores? (some c) rest).map (c :: ·)

/-- The value of plain digits. -/
def natOfDigits (ds : List Char) : Nat :=
  ds.foldl (fun n c => 10 * n + (c.toNat - 0x30)) 0

/-- The value of an exponent part: nothing, or `e`, a sign and digits. -/
def exponent? : List Char → Option Int
  | [] => some 0
  | c :: rest =>
    if c = 'e' ∨ c = 'E' then
      let (negative, ds) := sign rest
      if ds.isEmpty ∨ !ds.all Char.isDigit then none
      else some (if negative then -(natOfDigits ds : Int) else natOfDigits ds)
    else none

/-- The double nearest to an unsigned decimal: digits, perhaps a point and
more digits, perhaps an exponent; at least one digit before the exponent. -/
def decimal? (negative : Bool) (cs : List Char) : Option Double :=
  let whole := cs.takeWhile Char.isDigit
  let rest := cs.dropWhile Char.isDigit
  let (fraction, rest) :=
    match rest with
    | '.' :: more => (more.takeWhile Char.isDigit, more.dropWhile Char.isDigit)
    | _ => ([], rest)
  if whole.isEmpty ∧ fraction.isEmpty then none
  else (exponent? rest).map fun e =>
    Double.ofDecimal negative (natOfDigits (whole ++ fraction)) (e - (fraction.length : Int))

/-- The double that trimmed characters spell in plain digits: a decimal, or one
of the names of the values that are not finite, in any case. -/
def plainDouble? (cs : List Char) : Option Double :=
  let (negative, rest) := sign cs
  let name := String.ofList (rest.map Char.toLower)
  if name = "inf" ∨ name = "infinity" then some (Double.infinity negative)
  else if name = "nan" then some Double.nan
  else decimal? negative rest

/-- The double that a text spells. -/
def double? (s : String) : Option Double :=
  (withoutUnderscores? none ((Text.trimList isWhiteSpace s.toList).map plainDigit)).bind
    plainDouble?

end Numeral

end Retype
