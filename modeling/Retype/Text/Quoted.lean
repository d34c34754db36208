import Retype.Text.Hex
import Retype.Text.Printable
/-! # Quoted text

How text is quoted inside a message. It stands between single quotes, or
between double quotes if it has a single quote and no double one. The quote
and the backslash are escaped, so are line feed, carriage return and tab;
other characters that are not printable are written by their code point.
-/

namespace Retype.Quoted

/-- The quote that stands around a text. -/
def quoteFor (s : List Char) : Char :=
  if s.contains '\'' ∧ ¬ s.contains '"' then '"' else '\''

/-- The escape of a character by its code point, two, four or eight digits. -/
def codeEscape (c : Char) : List Char :=
  let n := c.toNat
  if n < 0x100 then '\\' :: 'x' :: Hex.padded 2 n
  else if n < 0x10000 then '\\' :: 'u' :: Hex.padded 4 n
  else '\\' :: 'U' :: Hex.padded 8 n

/-- One character between the given quotes. -/
def escape (quote c : Char) : List Char :=
  if c = quote ∨ c = '\\' then ['\\', c]
  else if c = '\n' then ['\\', 'n']
  else if c = '\r' then ['\\', 'r']
  else if c = '\t' then ['\\', 't']
  else if isPrintable c then [c]
  else codeEscape c

/-- Text in quotes. -/
def text (s : String) : String :=
  let quote := quoteFor s.toList
  String.ofList (quote :: s.toList.flatMap (escape quote) ++ [quote])

/-- Bytes in quotes: like text, but everything beyond ASCII is written by its
value. -/
def bytes (bs : List UInt8) : String :=
  let cs := bs.map fun b => Char.ofNat b.toNat
  let quote := quoteFor cs
  let one (c : Char) : List Char := if c.toNat < 0x7f then escape quote c else codeEscape c
  String.ofList ('b' :: quote :: cs.flatMap one ++ [quote])

end Retype.Quoted
