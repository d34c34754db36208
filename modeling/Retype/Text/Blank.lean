/-! # Blanks and lines

The characters that count as white space and as blank, the trimming of text,
its words, and its lines. A line ends at a line feed, a carriage return or both together, at a
vertical tab, a form feed, a separator control, or one of the three line
separators beyond ASCII.
-/

namespace Retype

/-- White space: the characters with that property. -/
def isWhiteSpace (c : Char) : Bool :=
  let n := c.toNat
  (0x09 ≤ n && n ≤ 0x0d) || n == 0x20 || n == 0x85 || n == 0xa0 || n == 0x1680
    || (0x2000 ≤ n && n ≤ 0x200a) || n == 0x2028 || n == 0x2029 || n == 0x202f || n == 0x205f
    || n == 0x3000

/-- Blank characters: white space, and the four separator controls. -/
def isBlank (c : Char) : Bool := isWhiteSpace c || (0x1c ≤ c.toNat && c.toNat ≤ 0x1f)

/-- Characters that end a line by themselves. -/
def endsLine (c : Char) : Bool :=
  let n := c.toNat
  (0x0a ≤ n && n ≤ 0x0d) || (0x1c ≤ n && n ≤ 0x1e) || n == 0x85 || n == 0x2028 || n == 0x2029

namespace Text

/-- A list without the elements at both ends that satisfy `p`. -/
def trimList {α : Type} (p : α → Bool) (xs : List α) : List α :=
  ((xs.dropWhile p).reverse.dropWhile p).reverse

/-- Text without the blanks at its ends. -/
def trim (s : String) : String := String.ofList (trimList isBlank s.toList)

/-- The pieces between the elements that satisfy `p`; never empty. -/
def splitList {α : Type} (p : α → Bool) : List α → List (List α)
  | [] => [[]]
  | x :: xs =>
    if p x then [] :: splitList p xs
    else match splitList p xs with
      | [] => [[x]]
      | piece :: rest => (x :: piece) :: rest

/-- The pieces of a text between the given character. -/
def split (s : String) (c : Char) : List String :=
  (splitList (· == c) s.toList).map String.ofList

/-- The words of a text: its longest pieces without blanks. -/
def words (s : String) : List String :=
  ((splitList isBlank s.toList).filter (!·.isEmpty)).map String.ofList

/-- The lines of a text. A line feed after a carriage return belongs to it;
text that ends with a line ending has no empty line after it. -/
def linesList : List Char → List (List Char)
  | [] => []
  | '\r' :: '\n' :: rest => [] :: linesList rest
  | c :: rest =>
    if endsLine c then [] :: linesList rest
    else match linesList rest with
      | [] => [[c]]
      | line :: more => (c :: line) :: more

/-- The lines of a text. -/
def lines (s : String) : List String := (linesList s.toList).map String.ofList

end Text

end Retype
