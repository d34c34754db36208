import Retype.Json.Basic
import Retype.Number.Text
import Retype.Text.Hex
import Retype.Text.Numeral
/-! # Writing JSON

A value on one line, in ASCII: a blank after each comma and colon, characters
beyond printable ASCII as code units of four hexadecimal digits. Entries are
written in their order. A whole number that has too many digits to be read has
too many to be written.
-/

namespace Retype.Json

def unitEscape (n : Nat) : List Char := '\\' :: 'u' :: Hex.padded 4 n

/-- One character inside quotes. -/
def escapeChar (c : Char) : List Char :=
  if c = '"' then ['\\', '"']
  else if c = '\\' then ['\\', '\\']
  else if c = '\n' then ['\\', 'n']
  else if c = '\r' then ['\\', 'r']
  else if c = '\t' then ['\\', 't']
  else if c = '\x0c' then ['\\', 'f']
  else if c = '\x08' then ['\\', 'b']
  else if 0x20 ≤ c.toNat ∧ c.toNat < 0x7f then [c]
  else if c.toNat < 0x10000 then unitEscape c.toNat
  else
    let n := c.toNat - 0x10000
    unitEscape (0xd800 + n / 0x400) ++ unitEscape (0xdc00 + n % 0x400)

def writeText (s : String) : List Char := '"' :: s.toList.flatMap escapeChar ++ ['"']

mutual
/-- The characters of a value. -/
def writeChars : Json → List Char
  | null => "null".toList
  | bool b => if b then "true".toList else "false".toList
  | int i => (toString i).toList
  | double x => x.frameText.toList
  | str s => writeText s
  | arr items => '[' :: writeItems items ++ [']']
  | obj entries => '\x7b' :: writeEntries entries ++ ['\x7d']
def writeItems : List Json → List Char
  | [] => []
  | [j] => writeChars j
  | j :: rest => writeChars j ++ ',' :: ' ' :: writeItems rest
def writeEntries : List (String × Json) → List Char
  | [] => []
  | [(k, j)] => writeText k ++ ':' :: ' ' :: writeChars j
  | (k, j) :: rest => writeText k ++ ':' :: ' ' :: writeChars j ++ ',' :: ' ' :: writeEntries rest
end

mutual
/-- Whether a value can be written: no whole number in it has too many
digits. -/
def isWritable : Json → Bool
  | int i => (Nat.toDigits 10 i.natAbs).length ≤ Numeral.maxDigits
  | arr items => areWritable items
  | obj entries => entriesWritable entries
  | _ => true
def areWritable : List Json → Bool
  | [] => true
  | j :: rest => isWritable j && areWritable rest
def entriesWritable : List (String × Json) → Bool
  | [] => true
  | (_, j) :: rest => isWritable j && entriesWritable rest
end

/-- The text of a value. -/
def write (j : Json) : String := String.ofList (writeChars j)

end Retype.Json
