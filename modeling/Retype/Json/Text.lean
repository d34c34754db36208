import Retype.Json.Basic
import Retype.Number.Text
import Retype.Text.Quoted
/-! # JSON values in messages

How a value looks inside a message: scalars as `None`, `True`, `5`, text as
it is; lists and objects in brackets with their texts quoted. Two values are
the same if they are equal as data, where numbers and truth values compare as
numbers and the order of an object does not count.
-/

namespace Retype.Json

/-- Joins pieces with a comma and a blank. -/
def commaSeparated (pieces : List String) : String := String.intercalate ", " pieces

mutual
/-- A value as a part of another one: text is quoted. -/
def quoted : Json → String
  | null => "None"
  | bool b => if b then "True" else "False"
  | int i => toString i
  | double x => x.messageText
  | str s => Quoted.text s
  | arr items => "[" ++ commaSeparated (quotedItems items) ++ "]"
  | obj entries => "\x7b" ++ commaSeparated (quotedEntries entries) ++ "\x7d"
def quotedItems : List Json → List String
  | [] => []
  | j :: rest => quoted j :: quotedItems rest
def quotedEntries : List (String × Json) → List String
  | [] => []
  | (k, j) :: rest => (Quoted.text k ++ ": " ++ quoted j) :: quotedEntries rest
end

/-- A value by itself: text stands as it is. -/
def text : Json → String
  | str s => s
  | j => quoted j

/-- The text of a key's value; a missing one reads like null. -/
def textAt (j : Json) (key : String) : String :=
  match j.get? key with
  | some v => v.text
  | none => text null

/-- A value as a number: truth values count as zero and one. -/
def number? : Json → Option (Int ⊕ Double)
  | bool b => some (.inl (if b then 1 else 0))
  | int i => some (.inl i)
  | double x => some (.inr x)
  | _ => none

def sameNumber : Int ⊕ Double → Int ⊕ Double → Bool
  | .inl a, .inl b => a == b
  | .inl a, .inr b => b.isInt a
  | .inr a, .inl b => a.isInt b
  | .inr a, .inr b => a.same b

mutual
/-- Equality as data. -/
def same : Json → Json → Bool
  | null, other => other.isNull
  | bool b, other => (other.number?.map (sameNumber (.inl (if b then 1 else 0)))).getD false
  | int i, other => (other.number?.map (sameNumber (.inl i))).getD false
  | double x, other => (other.number?.map (sameNumber (.inr x))).getD false
  | str s, other => match other with
    | str t => s == t
    | _ => false
  | arr xs, other => match other with
    | arr ys => xs.length == ys.length && sameItems xs ys
    | _ => false
  | obj es, other => match other with
    | obj fs => es.length == fs.length && sameEntries es fs
    | _ => false
def sameItems : List Json → List Json → Bool
  | x :: xs, y :: ys => same x y && sameItems xs ys
  | _, _ => true
/-- Every entry has one with the same key and value on the other side. -/
def sameEntries : List (String × Json) → List (String × Json) → Bool
  | [], _ => true
  | (k, x) :: rest, fs =>
    (match Entries.get? fs k with
      | some y => same x y
      | none => false) && sameEntries rest fs
end

/-- Equality of two values that may be missing; a missing one is null. -/
def sameOption (a b : Option Json) : Bool := same (a.getD null) (b.getD null)

end Retype.Json
