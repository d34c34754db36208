import Retype.Number.Shortest
/-! # Numbers as text

How a double is written. The digits come from `Retype.Number.Shortest`; what
is decided here is where positional notation ends and how an exponent looks.
-/

namespace Retype

namespace Decimal

/-- The digits with a point after the leading one: `1`, `1.5`. -/
def scientificDigits (digits : String) : String :=
  match digits.toList with
  | [] => ""
  | [c] => String.singleton c
  | c :: rest => String.singleton c ++ "." ++ String.ofList rest

/-- An exponent has a sign and at least two digits. -/
def exponentText (e : Int) : String :=
  let body := toString e.natAbs
  "e" ++ (if e < 0 then "-" else "+") ++ (if body.length < 2 then "0" ++ body else body)

/-- Positional notation of a decimal, without a trailing point. -/
def positional (d : Decimal) : String :=
  let digits := toString d.digits
  if 0 ≤ d.exponent then digits ++ String.ofList (List.replicate d.exponent.toNat '0')
  else
    let places := (-d.exponent).toNat
    let padded := String.ofList (List.replicate (places + 1 - digits.length) '0') ++ digits
    let chars := padded.toList
    String.ofList (chars.take (chars.length - places)) ++ "." ++
      String.ofList (chars.drop (chars.length - places))

def scientific (d : Decimal) : String :=
  scientificDigits (toString d.digits) ++ exponentText d.leading

end Decimal

/-- The choices a style of writing doubles makes. -/
structure DoubleStyle where
  /-- Leading exponents below this are written with an exponent. -/
  leastPositional : Int
  /-- Leading exponents from this on are written with an exponent. -/
  endPositional : Int
  /-- Whether a whole number written positionally keeps `.0`. -/
  keepsPoint : Bool
  infinity : String
  nan : String

namespace DoubleStyle

/-- The text of a double whose magnitude is written with the decimal `d`. -/
def write (style : DoubleStyle) (x : Double) (d : Decimal) : String :=
  let magnitude :=
    if x.isInfinite then style.infinity
    else if d.leading < style.leastPositional ∨ style.endPositional ≤ d.leading then d.scientific
    else if style.keepsPoint ∧ 0 ≤ d.exponent then d.positional ++ ".0"
    else d.positional
  if x.isNaN then style.nan else if x.sign then "-" ++ magnitude else magnitude

end DoubleStyle

namespace Double

/-- Doubles in frames are positional from `1e-4` up to `1e16` and keep a
point. -/
def frameStyle : DoubleStyle := ⟨-4, 16, true, "Infinity", "NaN"⟩

/-- Doubles in messages are written like those in frames, except for the
names of the values that are not finite. -/
def messageStyle : DoubleStyle := ⟨-4, 16, true, "inf", "nan"⟩

/-- Seconds in a diagnostic have six significant digits. -/
def generalStyle : DoubleStyle := ⟨-4, 6, false, "inf", "nan"⟩

def frameText (x : Double) : String := frameStyle.write x x.shortest

def messageText (x : Double) : String := messageStyle.write x x.shortest

def generalText (x : Double) : String := generalStyle.write x (x.toDigits 6)

end Double

end Retype
