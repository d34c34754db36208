import Retype.Config.Setting
import Retype.Text.PlainNumeral
/-! # Arguments

The arguments of a command line. Options may stand before and behind the other
arguments; of an option that is given twice the last one counts. The value of
an option follows it, or stands behind an equals sign. After `--` there are no
options.
-/

namespace Retype.Command

/-- An option of a command: its name, and whether it takes a value. -/
structure OptionSpec where
  name : String
  takesValue : Bool

/-- The options that were given, the last one first, and the other arguments
in order. -/
structure Arguments where
  options : List (String × String)
  operands : List String

namespace Arguments

def empty : Arguments := ⟨[], []⟩

def option (a : Arguments) (name value : String) : Arguments :=
  { a with options := (name, value) :: a.options }

def operand (a : Arguments) (value : String) : Arguments :=
  { a with operands := a.operands ++ [value] }

/-- The value of an option. -/
def value? (a : Arguments) (name : String) : Option String := a.options.lookup name

/-- Whether an option was given. -/
def has (a : Arguments) (name : String) : Bool := (a.value? name).isSome

/-- An argument cut at its first equals sign. -/
def cut (arg : String) : String × Option String :=
  let cs := arg.toList
  match cs.dropWhile (· ≠ '=') with
  | [] => (arg, none)
  | _ :: value => (String.ofList (cs.takeWhile (· ≠ '=')), some (String.ofList value))

/-- Whether an argument is an option; a lone dash is none. -/
def isOption (arg : String) : Bool :=
  match arg.toList with
  | '-' :: _ :: _ => true
  | _ => false

/-- Reads arguments; none if they are not in order. `pending` is an option
that waits for its value. -/
def readFrom (specs : List OptionSpec) (a : Arguments) :
    Option String → List String → Option Arguments
  | none, [] => some a
  | some _, [] => none
  | some name, value :: rest => readFrom specs (a.option name value) none rest
  | none, arg :: rest =>
    if arg = "--" then some { a with operands := a.operands ++ rest }
    else if isOption arg then
      let (name, value) := cut arg
      match specs.find? (·.name = name), value with
      | none, _ => none
      | some ⟨_, true⟩, some value => readFrom specs (a.option name value) none rest
      | some ⟨_, true⟩, none => readFrom specs a (some name) rest
      | some ⟨_, false⟩, some _ => none
      | some ⟨_, false⟩, none => readFrom specs (a.option name "") none rest
    else readFrom specs (a.operand arg) none rest

def read (specs : List OptionSpec) (args : List String) : Option Arguments :=
  readFrom specs empty none args

/-! ## Values -/

/-- A number that is at least one, as a setting; none if the value is no such
number. A missing option gives nothing. -/
def positiveInt (a : Arguments) (name : String) : Option Setting :=
  match a.value? name with
  | none => some .null
  | some s =>
    match PlainNumeral.int? s with
    | some n => if 1 ≤ n then some (.int n) else none
    | none => none

/-- A number that is not below a bound, as a setting. -/
def boundedDouble (a : Arguments) (name : String) (least : Double) : Option Setting :=
  match a.value? name with
  | none => some .null
  | some s =>
    match PlainNumeral.double? s with
    | some x => if x.lt least then none else some (.double x)
    | none => none

end Arguments

end Retype.Command
