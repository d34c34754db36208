import Retype.Config.Setting
import Retype.Text.Numeral
/-! # Reading single settings

How a setting is read as a truth value, a positive number, a list of names or
a command. A setting of another sort counts as not given, with three
exceptions: an infinity, or a whole number beyond all doubles, is an error
where a number is wanted that cannot be that large, and so is a whole number
with too many digits, or a value nested too deep, where text is wanted.
-/

namespace Retype

/-- Why a configuration cannot be read. -/
inductive ConfigError where
  /-- The file is no text. -/
  | notText
  /-- A number is too large. -/
  | unbounded
  /-- A whole number has too many digits. -/
  | tooManyDigits
  /-- Values are nested too deep. -/
  | tooDeep
  deriving DecidableEq, Repr

def ConfigError.message : ConfigError → String
  | notText => "the configuration is not valid UTF-8"
  | unbounded => "a number of the configuration is too large"
  | tooManyDigits => "a number of the configuration has too many digits"
  | tooDeep => "values of the configuration are nested too deep"

/-- How deep values may be nested. -/
structure Nesting where
  /-- For the reader of a configuration, which takes two steps into an array and
  three into an inline table. -/
  read : Nat
  /-- For the parts of a list or a table that is written out. -/
  shown : Nat
  deriving DecidableEq, Repr

namespace Setting

/-- Words that stand for true; the ASCII letters of either case. -/
def trueWords : List String := ["1", "true", "yes", "on"]

def asBool (default : Bool) : Setting → Bool
  | bool b => b
  | int i => i != 0
  | text s => trueWords.contains (String.ofList ((Text.trim s).toList.map Char.toLower))
  | _ => default

/-- A number if it is positive, else the default. -/
def positiveIntOr (default : Int) (n : Option Int) : Int :=
  match n with
  | some n => if 0 < n then n else default
  | none => default

/-- A positive whole number; a fraction is cut off. -/
def asPositiveInt (default : Int) : Setting → Except ConfigError Int
  | int i => .ok (positiveIntOr default (some i))
  | double x =>
    if x.isInfinite then .error .unbounded
    else .ok (positiveIntOr default (if x.isNaN then none else some x.trunc))
  | text s => .ok (positiveIntOr default (Numeral.int? s))
  | _ => .ok default

def positiveDoubleOr (default : Double) (x : Option Double) : Double :=
  match x with
  | some x => if x.isPositive then x else default
  | none => default

/-- A positive number. -/
def asPositiveDouble (default : Double) : Setting → Except ConfigError Double
  | int i =>
    if (Double.ofInt i).isInfinite then .error .unbounded
    else .ok (positiveDoubleOr default (some (Double.ofInt i)))
  | double x => .ok (positiveDoubleOr default (some x))
  | text s => .ok (positiveDoubleOr default (Numeral.double? s))
  | _ => .ok default

/-- The names in a text, between commas. -/
def namesIn (s : String) : List String := ((Text.split s ',').map Text.trim).filter (· ≠ "")

/-- A list of names, in one text or several. -/
def asNames : Setting → List String
  | text s => namesIn s
  | list items => items.flatMap fun
    | text s => namesIn s
    | _ => []
  | _ => []

/-- The words of a command: those of a text, or the texts of a list. -/
def asCommand (default : List String) (v : Setting) : List String :=
  let parts :=
    match v with
    | text s => Text.words s
    | list items => items.filterMap fun
      | text s => some s
      | _ => none
    | _ => []
  if parts.isEmpty then default else parts

mutual
/-- Why a setting cannot be written out: the first part of it that has too many
digits, or is nested deeper than some levels. -/
def unshown? : Setting → Nat → Option ConfigError
  | int i, _ =>
    if (Nat.toDigits 10 i.natAbs).length ≤ Numeral.maxDigits then none else some .tooManyDigits
  | list items, levels => unshownItem? items levels
  | table entries, levels => unshownRow? entries levels
  | _, _ => none
def unshownItem? : List Setting → Nat → Option ConfigError
  | [], _ => none
  | _ :: _, 0 => some .tooDeep
  | v :: rest, levels + 1 => (unshown? v levels).or (unshownItem? rest (levels + 1))
def unshownRow? : List (String × Setting) → Nat → Option ConfigError
  | [], _ => none
  | _ :: _, 0 => some .tooDeep
  | (_, v) :: rest, levels + 1 => (unshown? v levels).or (unshownRow? rest (levels + 1))
end

/-- A setting written out. -/
def writtenOut (levels : Nat) (v : Setting) : Except ConfigError String :=
  match v.unshown? levels with
  | some e => .error e
  | none => .ok v.asShown

/-- Text; a setting that does not hold counts as not given. -/
def asText (levels : Nat) (default : String) (v : Setting) : Except ConfigError String :=
  if v.toJson.isTrue then v.writtenOut levels else .ok default

end Setting

namespace Table

/-- The setting of a key; a missing one is null. -/
def value (t : Table) (key : String) : Setting := (t.get? key).getD .null

/-- A table with the settings of another one over it; null gives nothing. -/
def override (t newer : Table) : Table :=
  newer.foldl (fun t e => match e.2 with
    | .null => t
    | v => t.set e.1 v) t

end Table

end Retype
