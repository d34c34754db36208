import Retype.Json.Basic
import Retype.Text.Hex
import Retype.Text.Reading
/-! # Reading JSON

Reads a value off the front of a text. Entries of an object keep the order of
the text; a key that comes again keeps its first place and takes the last
value. Beside the numbers of JSON the names `NaN`, `Infinity` and `-Infinity`
are read. Controls inside text are refused, and so are whole numbers with too
many digits.
-/

namespace Retype.Json

def isSpace (c : Char) : Bool := c == ' ' || c == '\t' || c == '\n' || c == '\r'

def skipSpace (cs : List Char) : List Char := cs.dropWhile isSpace

/-- The rest of a text after a literal word. -/
def after? : List Char → List Char → Option (List Char)
  | [], cs => some cs
  | _ :: _, [] => none
  | w :: ws, c :: cs => if w = c then after? ws cs else none

/-- Four hexadecimal digits. -/
def readUnit : Reading Nat
  | a :: b :: c :: d :: rest => do
    let a ← Hex.value? a
    let b ← Hex.value? b
    let c ← Hex.value? c
    let d ← Hex.value? d
    return (a * 4096 + b * 256 + c * 16 + d, rest)
  | _ => none

def isHighSurrogate (n : Nat) : Bool := 0xd800 ≤ n && n ≤ 0xdbff

def isLowSurrogate (n : Nat) : Bool := 0xdc00 ≤ n && n ≤ 0xdfff

/-- The character of an escape by code units: one unit, or a high surrogate
and a low one. A surrogate by itself stands for no character and reads as the
replacement character. -/
def readCodeEscape : Reading Char := fun cs => do
  let (n, rest) ← readUnit cs
  if isHighSurrogate n then
    match rest with
    | '\\' :: 'u' :: more =>
      match readUnit more with
      | some (m, after) =>
        if isLowSurrogate m then
          return (Char.ofNat (0x10000 + (n - 0xd800) * 0x400 + (m - 0xdc00)), after)
        else return ('\ufffd', rest)
      | none => return ('\ufffd', rest)
    | _ => return ('\ufffd', rest)
  else if isLowSurrogate n then return ('\ufffd', rest)
  else return (Char.ofNat n, rest)

/-- The character that a backslash and this character stand for. -/
def simpleEscape? (c : Char) : Option Char :=
  if c = '"' then some '"'
  else if c = '\\' then some '\\'
  else if c = '/' then some '/'
  else if c = 'b' then some '\x08'
  else if c = 'f' then some '\x0c'
  else if c = 'n' then some '\n'
  else if c = 'r' then some '\r'
  else if c = 't' then some '\t'
  else none

/-- Text up to its closing quote. The fuel is at least the length. -/
def readText : Nat → Reading (List Char)
  | 0, _ => none
  | _ + 1, [] => none
  | fuel + 1, c :: rest =>
    if c = '"' then some ([], rest)
    else if c = '\\' then
      match rest with
      | [] => none
      | e :: more =>
        if e = 'u' then do
          let (x, after) ← readCodeEscape more
          let (xs, after) ← readText fuel after
          return (x :: xs, after)
        else do
          let x ← simpleEscape? e
          let (xs, after) ← readText fuel more
          return (x :: xs, after)
    else if c.toNat < 0x20 then none
    else do
      let (xs, after) ← readText fuel rest
      return (c :: xs, after)

/-- The fraction of a number: a point and digits, or nothing. -/
def readFraction (cs : List Char) : List Char × List Char :=
  match cs with
  | '.' :: more =>
    let ds := more.takeWhile Char.isDigit
    if ds.isEmpty then ([], cs) else (ds, more.dropWhile Char.isDigit)
  | _ => ([], cs)

/-- The exponent of a number, or none if there is not a whole one. -/
def readExponent (cs : List Char) : Option Int × List Char :=
  match cs with
  | e :: more =>
    if e = 'e' ∨ e = 'E' then
      let (negative, rest) := Numeral.sign more
      let ds := rest.takeWhile Char.isDigit
      if ds.isEmpty then (none, cs)
      else
        let n : Int := Numeral.natOfDigits ds
        (some (if negative then -n else n), rest.dropWhile Char.isDigit)
    else (none, cs)
  | [] => (none, [])

/-- An unsigned number. A leading zero stands alone. -/
def readMagnitude (negative : Bool) : CheckedReading Json := fun cs =>
  let run := cs.takeWhile Char.isDigit
  let whole := if run.head? = some '0' then ['0'] else run
  if whole.isEmpty then .error .malformed
  else
    let rest := cs.drop whole.length
    let (fraction, rest) := readFraction rest
    let (exponent, rest) := readExponent rest
    if fraction.isEmpty ∧ exponent.isNone then
      (wholeOfDigits negative whole).map fun n => (int n, rest)
    else
      let e := exponent.getD 0 - (fraction.length : Int)
      .ok (double (Double.ofDecimal negative (Numeral.natOfDigits (whole ++ fraction)) e), rest)

/-- A number, or the name of one. -/
def readNumber : CheckedReading Json
  | '-' :: rest =>
    match after? "Infinity".toList rest with
    | some rest => .ok (double (Double.infinity true), rest)
    | none => readMagnitude true rest
  | cs => readMagnitude false cs

/-- The values that have a name. -/
def namedValues : List (String × Json) :=
  [("null", null), ("true", bool true), ("false", bool false),
    ("NaN", double Double.nan), ("Infinity", double (Double.infinity false))]

def readNamed : Reading Json := fun cs =>
  namedValues.findSome? fun (name, v) => (after? name.toList cs).map (v, ·)

/-- A value that is neither an array nor an object. -/
def readScalar : CheckedReading Json
  | '"' :: rest => do
    let (s, after) ← orMalformed (readText (rest.length + 1) rest)
    return (str (String.ofList s), after)
  | cs =>
    match readNamed cs with
    | some named => .ok named
    | none => readNumber cs

mutual
/-- A value. The fuel is at least the number of characters. -/
def readValue : Nat → CheckedReading Json
  | 0, _ => .error .malformed
  | _ + 1, [] => .error .malformed
  | fuel + 1, c :: rest =>
    if c = '[' then
      match skipSpace rest with
      | ']' :: after => return (arr [], after)
      | inside => do
        let (items, after) ← readItems fuel inside
        return (arr items, after)
    else if c = '\x7b' then
      match skipSpace rest with
      | '\x7d' :: after => return (obj [], after)
      | inside => do
        let (entries, after) ← readEntries fuel [] inside
        return (obj entries, after)
    else readScalar (c :: rest)
/-- The items of an array after its bracket, and the closing bracket. -/
def readItems : Nat → CheckedReading (List Json)
  | 0, _ => .error .malformed
  | fuel + 1, cs => do
    let (item, after) ← readValue fuel cs
    match skipSpace after with
    | ',' :: more => do
      let (items, after) ← readItems fuel (skipSpace more)
      return (item :: items, after)
    | ']' :: more => return ([item], more)
    | _ => .error .malformed
/-- The entries of an object after its brace, and the closing brace. -/
def readEntries : Nat → Entries → CheckedReading Entries
  | 0, _, _ => .error .malformed
  | fuel + 1, entries, cs =>
    match cs with
    | '"' :: inside => do
      let (key, after) ← orMalformed (readText (inside.length + 1) inside)
      match skipSpace after with
      | ':' :: more => do
        let (v, after) ← readValue fuel (skipSpace more)
        let entries := entries.set (String.ofList key) v
        match skipSpace after with
        | ',' :: more => readEntries fuel entries (skipSpace more)
        | '\x7d' :: more => return (entries, more)
        | _ => .error .malformed
      | _ => .error .malformed
    | _ => .error .malformed
end

/-- The value that a whole text spells. -/
def read (s : String) : Except ReadFailure Json := do
  let cs := skipSpace s.toList
  let (v, after) ← readValue (cs.length + 1) cs
  if (skipSpace after).isEmpty then return v else .error .malformed

end Retype.Json
