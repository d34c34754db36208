import Retype.Text.Hex
import Retype.Text.Reading
import Retype.Toml.Document
/-! # Reading TOML

Reads a configuration in TOML: statements on lines of their own, each of them
a header, a key with its value, or nothing, and a comment after it. Where a
text is no TOML is not reported, but whether it has a number with too many
digits, or values nested too deep, is.
-/

namespace Retype.Toml

/-- Why a text spells no document. -/
inductive Failure where
  | text (cause : ReadFailure)
  /-- Arrays and inline tables are nested too deep. -/
  | tooDeep
  deriving DecidableEq, Repr

/-- A reading of values that may be nested. -/
abbrev ValueReading (α : Type) := List Char → Except Failure (α × List Char)

/-- What a reading of text comes to where values may be nested. -/
def asFailure {α : Type} : Except ReadFailure α → Except Failure α
  | .ok a => .ok a
  | .error cause => .error (.text cause)

/-- What cannot be read is malformed. -/
def orNoToml {α : Type} (o : Option α) : Except Failure α := asFailure (orMalformed o)

/-- The steps that an array takes. -/
def arraySteps : Nat := 2

/-- The steps that an inline table takes. -/
def tableSteps : Nat := 3

/-- What there is room for behind some steps; without the room values are nested too deep. -/
def entering {α : Type} (steps room : Nat) (inside : Nat → Except Failure α) : Except Failure α :=
  if room < steps then .error .tooDeep else inside (room - steps)

def isSpace (c : Char) : Bool := c == ' ' || c == '\t'

def isSpaceOrNewline (c : Char) : Bool := isSpace c || c == '\n'

def isBareKey (c : Char) : Bool := c.isAlphanum || c == '-' || c == '_'

/-- Controls that may not stand in text or comments. -/
def isIllegal (c : Char) : Bool := (c.toNat < 0x20 && c != '\t') || c.toNat == 0x7f

/-- Controls that may not stand in text of several lines. -/
def isIllegalInLines (c : Char) : Bool := isIllegal c && c != '\n'

def skipSpace (cs : List Char) : List Char := cs.dropWhile isSpace

/-- Skips a comment up to the end of its line. -/
def skipComment : List Char → Option (List Char)
  | '#' :: rest =>
    if (rest.takeWhile (· ≠ '\n')).any isIllegal then none else some (rest.dropWhile (· ≠ '\n'))
  | cs => some cs

/-- Skips blanks, line ends and comments. -/
def skipInsideArray : Nat → List Char → Option (List Char)
  | 0, cs => some cs
  | fuel + 1, cs => do
    let next ← skipComment (cs.dropWhile isSpaceOrNewline)
    if next.length = cs.length then return cs else skipInsideArray fuel next

/-- The text after a beginning. -/
def after? (start : List Char) (cs : List Char) : Option (List Char) :=
  if start.isPrefixOf cs then some (cs.drop start.length) else none

/-! ## Text -/

/-- The character of a code point of the given number of digits. -/
def readCodePoint (count : Nat) : Reading Char := fun cs => do
  let digits ← (cs.take count).mapM Hex.value?
  if digits.length < count then none
  else
    let n := digits.foldl (fun n d => 16 * n + d) 0
    if n < 0xd800 ∨ (0xdfff < n ∧ n < 0x110000) then return (Char.ofNat n, cs.drop count) else none

/-- What a backslash and a character stand for. -/
def escapes : List (Char × Char) :=
  [('b', '\x08'), ('t', '\t'), ('n', '\n'), ('f', '\x0c'), ('r', '\r'), ('"', '"'), ('\\', '\\')]

/-- What an escape stands for, after its backslash. Where text has several
lines a backslash at the end of one joins it with the next. -/
def readEscape (inLines : Bool) : Reading (List Char)
  | 'u' :: rest => (readCodePoint 4 rest).map fun (c, rest) => ([c], rest)
  | 'U' :: rest => (readCodePoint 8 rest).map fun (c, rest) => ([c], rest)
  | c :: rest =>
    if inLines ∧ c = '\n' then some ([], rest.dropWhile isSpaceOrNewline)
    else if inLines ∧ isSpace c then
      match skipSpace rest with
      | [] => some ([], [])
      | '\n' :: rest => some ([], rest.dropWhile isSpaceOrNewline)
      | _ => none
    else (escapes.lookup c).map fun e => ([e], rest)
  | [] => none

/-- Text between double quotes, up to the closing ones. -/
def readBasic (inLines : Bool) : Nat → Reading (List Char)
  | 0, _ => none
  | _ + 1, [] => none
  | fuel + 1, c :: rest =>
    if c = '"' then
      if inLines then
        match after? ['"', '"'] rest with
        | some rest => some ([], rest)
        | none => (readBasic inLines fuel rest).map fun (s, rest) => ('"' :: s, rest)
      else some ([], rest)
    else if c = '\\' then do
      let (e, rest) ← readEscape inLines rest
      let (s, rest) ← readBasic inLines fuel rest
      return (e ++ s, rest)
    else if (if inLines then isIllegalInLines c else isIllegal c) then none
    else (readBasic inLines fuel rest).map fun (s, rest) => (c :: s, rest)

/-- Text between single quotes, on one line. -/
def readLiteral : Reading (List Char) := fun cs =>
  let s := cs.takeWhile (· ≠ '\'')
  match cs.drop s.length with
  | _ :: rest => if s.any isIllegal then none else some (s, rest)
  | [] => none

/-- Text between three single quotes. -/
def readLiteralLines : Nat → Reading (List Char)
  | 0, _ => none
  | _ + 1, [] => none
  | fuel + 1, c :: rest =>
    match after? ['\'', '\'', '\''] (c :: rest) with
    | some rest => some ([], rest)
    | none =>
      if isIllegalInLines c then none
      else (readLiteralLines fuel rest).map fun (s, rest) => (c :: s, rest)

/-- Up to two quotes directly before the closing ones belong to the text. -/
def withExtraQuotes (quote : Char) : List Char × List Char → List Char × List Char
  | (s, rest) =>
    let extra := (rest.take 2).takeWhile (· = quote)
    (s ++ extra, rest.drop extra.length)

/-- A line end directly after the opening quotes does not count. -/
def dropFirstNewline : List Char → List Char
  | '\n' :: rest => rest
  | cs => cs

/-- Text in any of its forms. -/
def readText : Reading (List Char) := fun cs =>
  match after? ['"', '"', '"'] cs, after? ['\'', '\'', '\''] cs with
  | some rest, _ =>
    (readBasic true (rest.length + 1) (dropFirstNewline rest)).map (withExtraQuotes '"')
  | _, some rest =>
    (readLiteralLines (rest.length + 1) (dropFirstNewline rest)).map (withExtraQuotes '\'')
  | none, none =>
    match cs with
    | '"' :: rest => readBasic false (rest.length + 1) rest
    | '\'' :: rest => readLiteral rest
    | _ => none

/-! ## Keys -/

def readKeyPart : Reading String
  | '"' :: rest =>
    (readBasic false (rest.length + 1) rest).map fun (s, rest) => (String.ofList s, rest)
  | '\'' :: rest => (readLiteral rest).map fun (s, rest) => (String.ofList s, rest)
  | cs =>
    let s := cs.takeWhile isBareKey
    if s.isEmpty then none else some (String.ofList s, cs.drop s.length)

/-- A dotted key, and the blanks after it. -/
def readKey : Nat → Reading Key
  | 0, _ => none
  | fuel + 1, cs => do
    let (part, rest) ← readKeyPart cs
    match skipSpace rest with
    | '.' :: rest => do
      let (parts, rest) ← readKey fuel (skipSpace rest)
      return (part :: parts, rest)
    | rest => return ([part], rest)

/-! ## Numbers -/

/-- Digits with single underscores between them; the longest such beginning. -/
def readDigits (isDigit : Char → Bool) : List Char → List Char × List Char
  | c :: rest =>
    if isDigit c then
      let (ds, after) := more rest
      (c :: ds, after)
    else ([], c :: rest)
  | [] => ([], [])
where
  more : List Char → List Char × List Char
    | '_' :: d :: rest =>
      if isDigit d then
        let (ds, after) := more rest
        (d :: ds, after)
      else ([], '_' :: d :: rest)
    | d :: rest =>
      if isDigit d then
        let (ds, after) := more rest
        (d :: ds, after)
      else ([], d :: rest)
    | [] => ([], [])

/-- The letters that announce a base, and the base. -/
def bases : List (Char × Nat) := [('x', 16), ('o', 8), ('b', 2)]

def isDigitOf (base : Nat) (c : Char) : Bool := (Hex.value? c).any (· < base)

/-- A whole number in another base, after its zero. -/
def readBased : Reading Setting
  | b :: rest => do
    let base ← bases.lookup b
    let (ds, rest) := readDigits (isDigitOf base) rest
    if ds.isEmpty then none
    else return (.int (ds.foldl (fun n d => base * n + (Hex.value? d).getD 0) 0 : Nat), rest)
  | [] => none

/-- The whole part of a decimal number: a leading zero stands alone. -/
def readWhole : List Char → List Char × List Char
  | '0' :: rest => (['0'], rest)
  | cs => readDigits Char.isDigit cs

/-- The fraction of a number, if there is a whole one. -/
def readFraction : List Char → List Char × List Char
  | '.' :: rest =>
    let (ds, after) := readDigits Char.isDigit rest
    if ds.isEmpty then ([], '.' :: rest) else (ds, after)
  | cs => ([], cs)

/-- The exponent of a number, if there is a whole one. -/
def readExponent : List Char → Option Int × List Char
  | c :: rest =>
    if c = 'e' ∨ c = 'E' then
      let (negative, after) := Numeral.sign rest
      let (ds, after) := readDigits Char.isDigit after
      if ds.isEmpty then (none, c :: rest)
      else
        let n : Int := Numeral.natOfDigits ds
        (some (if negative then -n else n), after)
    else (none, c :: rest)
  | [] => (none, [])

/-- A decimal number; the outer value is none if there is none. -/
def readDecimal (cs : List Char) : Option (Except ReadFailure (Setting × List Char)) :=
  let (negative, rest) := Numeral.sign cs
  let (whole, rest) := readWhole rest
  if whole.isEmpty then none
  else
    let (fraction, rest) := readFraction rest
    let (exponent, rest) := readExponent rest
    if fraction.isEmpty ∧ exponent.isNone then
      some ((wholeOfDigits negative whole).map fun n => (.int n, rest))
    else
      some (.ok (.double (Double.ofDecimal negative (Numeral.natOfDigits (whole ++ fraction))
        (exponent.getD 0 - (fraction.length : Int))), rest))

/-- The names of the values that are not finite. -/
def readSpecial : Reading Setting := fun cs =>
  let (negative, rest) := Numeral.sign cs
  ((after? "inf".toList rest).map (.double (Double.infinity negative), ·)).or
    ((after? "nan".toList rest).map (.double Double.nan, ·))

/-! ## Dates and times -/

/-- A number of exactly so many digits. -/
def readNumber (count : Nat) : Reading Nat := fun cs =>
  let ds := cs.take count
  if ds.length = count ∧ ds.all Char.isDigit then some (Numeral.natOfDigits ds, cs.drop count)
  else none

/-- A number of two digits between bounds. -/
def readTwo (low high : Nat) : Reading Nat := fun cs => do
  let (n, rest) ← readNumber 2 cs
  if low ≤ n ∧ n ≤ high then return (n, rest) else none

/-- The fraction of a second: digits after the sixth do not count. -/
def microsOf (ds : List Char) : Nat :=
  Numeral.natOfDigits ((ds ++ List.replicate 6 '0').take 6)

/-- A time of day. -/
def readTime : Reading Clock := fun cs => do
  let (hour, rest) ← readTwo 0 23 cs
  let rest ← after? [':'] rest
  let (minute, rest) ← readTwo 0 59 rest
  let rest ← after? [':'] rest
  let (second, rest) ← readTwo 0 59 rest
  match rest with
  | '.' :: more =>
    let ds := more.takeWhile Char.isDigit
    if ds.isEmpty then return (⟨hour, minute, second, 0⟩, rest)
    else return (⟨hour, minute, second, microsOf ds⟩, more.drop ds.length)
  | _ => return (⟨hour, minute, second, 0⟩, rest)

/-- The distance of a time from universal time, or nothing. -/
def readOffset (cs : List Char) : Option Int × List Char :=
  match cs with
  | c :: rest =>
    if c = 'Z' ∨ c = 'z' then (some 0, rest)
    else if c = '+' ∨ c = '-' then
      let signed : Option (Option Int × List Char) := do
        let (hour, rest) ← readTwo 0 23 rest
        let rest ← after? [':'] rest
        let (minute, rest) ← readTwo 0 59 rest
        let minutes : Int := (60 * hour + minute : Nat)
        return (some (if c = '-' then -minutes else minutes), rest)
      signed.getD (none, cs)
    else (none, cs)
  | [] => (none, [])

def isLeap (year : Nat) : Bool := year % 4 = 0 ∧ (year % 100 ≠ 0 ∨ year % 400 = 0)

def daysIn (year month : Nat) : Nat :=
  if month = 2 then (if isLeap year then 29 else 28)
  else if month = 4 ∨ month = 6 ∨ month = 9 ∨ month = 11 then 30
  else 31

/-- A date, which may not exist. -/
def readDate : Reading Date := fun cs => do
  let (year, rest) ← readNumber 4 cs
  let rest ← after? ['-'] rest
  let (month, rest) ← readTwo 1 12 rest
  let rest ← after? ['-'] rest
  let (day, rest) ← readTwo 1 31 rest
  return (⟨year, month, day⟩, rest)

/-- A date, perhaps with a time. The outer value is none if there is none, the
inner one if the date does not exist. -/
def readMoment (cs : List Char) : Option (Option (Moment × List Char)) := do
  let (date, rest) ← readDate cs
  let exact := date.year ≠ 0 ∧ date.day ≤ daysIn date.year date.month
  let timed : Option (Moment × List Char) := do
    let c ← rest.head?
    if c = 'T' ∨ c = 't' ∨ c = ' ' then
      let (time, rest) ← readTime (rest.drop 1)
      let (offset, rest) := readOffset rest
      return (.both date time offset, rest)
    else none
  return if exact then some (timed.getD (.date date, rest)) else none

/-! ## Values -/

/-- A number, or the name of one. -/
def readNumeric : CheckedReading Setting := fun cs =>
  match (after? ['0'] cs).bind readBased with
  | some based => .ok based
  | none =>
    match readDecimal cs with
    | some decimal => decimal
    | none => orMalformed (readSpecial cs)

/-- A date, a time of day, or a number. -/
def readQuantity : CheckedReading Setting := fun cs =>
  match readMoment cs with
  | some moment => orMalformed (moment.map fun (m, rest) => (.moment m, rest))
  | none =>
    match readTime cs with
    | some (time, rest) => .ok (.moment (.time time), rest)
    | none => readNumeric cs

/-- A value that is neither an array nor an inline table. -/
def readScalar : CheckedReading Setting := fun cs =>
  if cs.head? = some '"' ∨ cs.head? = some '\'' then
    orMalformed ((readText cs).map fun (s, rest) => (.text (String.ofList s), rest))
  else
    match after? "true".toList cs, after? "false".toList cs with
    | some rest, _ => .ok (.bool true, rest)
    | _, some rest => .ok (.bool false, rest)
    | none, none => readQuantity cs

mutual
/-- A value, with room for some steps into arrays and inline tables. The fuel is
at least the number of characters. -/
def readValue : Nat → Nat → ValueReading Setting
  | 0, _, _ => .error (.text .malformed)
  | fuel + 1, room, cs =>
    match cs with
    | '[' :: rest => entering arraySteps room fun room => do
      match ← orNoToml (skipInsideArray (rest.length + 1) rest) with
      | ']' :: rest => return (.list [], rest)
      | rest => do
        let (items, rest) ← readItems fuel room rest
        return (.list items, rest)
    | c :: rest =>
      if c = '\x7b' then entering tableSteps room fun room =>
        match skipSpace rest with
        | '\x7d' :: rest => return (.table [], rest)
        | rest => do
          let (table, rest) ← readInline fuel room [] [] rest
          return (.table table, rest)
      else asFailure (readScalar (c :: rest))
    | [] => .error (.text .malformed)
termination_by structural fuel => fuel
/-- The items of an array, and its closing bracket. A comma may end them. -/
def readItems : Nat → Nat → ValueReading (List Setting)
  | 0, _, _ => .error (.text .malformed)
  | fuel + 1, room, cs => do
    let (item, rest) ← readValue fuel room cs
    match ← orNoToml (skipInsideArray (rest.length + 1) rest) with
    | ']' :: rest => return ([item], rest)
    | ',' :: rest => do
      match ← orNoToml (skipInsideArray (rest.length + 1) rest) with
      | ']' :: rest => return ([item], rest)
      | rest => do
        let (items, rest) ← readItems fuel room rest
        return (item :: items, rest)
    | _ => .error (.text .malformed)
/-- The entries of an inline table, and its closing brace. -/
def readInline : Nat → Nat → Table → Marks → ValueReading Table
  | 0, _, _, _, _ => .error (.text .malformed)
  | fuel + 1, room, table, marks, cs => do
    let ((key, value), rest) ← readPair fuel room cs
    if marks.isFrozen key then .error (.text .malformed)
    else do
      let table ← orNoToml (insertNew false key value table)
      match skipSpace rest with
      | '\x7d' :: rest => return (table, rest)
      | ',' :: rest =>
        let marks := if Document.isCompound value then marks.add key .frozen else marks
        readInline fuel room table marks (skipSpace rest)
      | _ => .error (.text .malformed)
/-- A key and its value. -/
def readPair : Nat → Nat → ValueReading (Key × Setting)
  | 0, _, _ => .error (.text .malformed)
  | fuel + 1, room, cs => do
    let (key, rest) ← orNoToml (readKey (cs.length + 1) cs)
    match rest with
    | '=' :: rest => do
      let (value, rest) ← readValue fuel room (skipSpace rest)
      return ((key, value), rest)
    | _ => .error (.text .malformed)
end

/-! ## Documents -/

/-- A header: its key between brackets. -/
def readHeader (closing : List Char) (cs : List Char) : Option (Key × List Char) := do
  let (key, rest) ← readKey (cs.length + 1) (skipSpace cs)
  return (key, ← after? closing rest)

/-- One statement of a document, up to its comment. -/
def readStatement (room : Nat) (d : Document) : ValueReading Document
  | '[' :: '[' :: rest => do
    let (key, rest) ← orNoToml (readHeader [']', ']'] rest)
    return (← orNoToml (d.declareList key), rest)
  | '[' :: rest => do
    let (key, rest) ← orNoToml (readHeader [']'] rest)
    return (← orNoToml (d.declareTable key), rest)
  | c :: rest =>
    if isBareKey c ∨ c = '"' ∨ c = '\'' then do
      let ((key, value), after) ← readPair (rest.length + 2) room (c :: rest)
      return (← orNoToml (d.assign key value), after)
    else if c = '#' ∨ c = '\n' then return (d, c :: rest)
    else .error (.text .malformed)
  | [] => return (d, [])

/-- The statements of a document. The fuel is more than the number of lines. -/
def readStatements (room : Nat) : Nat → Document → List Char → Except Failure Document
  | 0, _, _ => .error (.text .malformed)
  | fuel + 1, d, cs => do
    let (d, rest) ← readStatement room d (skipSpace cs)
    match ← orNoToml (skipComment (skipSpace rest)) with
    | [] => return d
    | '\n' :: rest => readStatements room fuel d rest
    | _ => .error (.text .malformed)

/-- Line ends of all sorts become line feeds. -/
def plainNewlines : List Char → List Char
  | '\r' :: '\n' :: rest => '\n' :: plainNewlines rest
  | '\r' :: rest => '\n' :: plainNewlines rest
  | c :: rest => c :: plainNewlines rest
  | [] => []

/-- The table that a text spells, where arrays and inline tables may be entered by
so many steps. -/
def read (limit : Nat) (s : String) : Except Failure Table := do
  let cs := plainNewlines s.toList
  let d ← readStatements limit (cs.length + 1) {} cs
  return d.tables

end Retype.Toml
