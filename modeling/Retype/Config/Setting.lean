import Retype.Json.Text
/-! # Settings

The values of a configuration: those of JSON, and dates and times. Whether a
setting counts as set is a matter of the JSON value it shows as. As text it
looks like that value too, but for a date or a time inside another setting,
which is written as the call that makes it.
-/

namespace Retype

/-! ## Dates and times -/

/-- A date. -/
structure Date where
  year : Nat
  month : Nat
  day : Nat
  deriving DecidableEq, Repr, Inhabited

/-- A time of day. -/
structure Clock where
  hour : Nat
  minute : Nat
  second : Nat
  micros : Nat
  deriving DecidableEq, Repr, Inhabited

/-- A date, a time of day, or both, perhaps with the distance from universal
time in minutes. -/
inductive Moment where
  | date (d : Date)
  | time (c : Clock)
  | both (d : Date) (c : Clock) (offset : Option Int)
  deriving DecidableEq, Repr, Inhabited

/-- A number in at least so many digits. -/
def padded (width n : Nat) : String :=
  String.ofList (List.replicate (width - (toString n).length) '0') ++ toString n

def Date.text (d : Date) : String :=
  padded 4 d.year ++ "-" ++ padded 2 d.month ++ "-" ++ padded 2 d.day

/-- A fraction of a second is left out if it is zero. -/
def Clock.text (c : Clock) : String :=
  padded 2 c.hour ++ ":" ++ padded 2 c.minute ++ ":" ++ padded 2 c.second
    ++ if c.micros = 0 then "" else "." ++ padded 6 c.micros

namespace Moment

def offsetText (minutes : Int) : String :=
  (if minutes < 0 then "-" else "+") ++ padded 2 (minutes.natAbs / 60) ++ ":"
    ++ padded 2 (minutes.natAbs % 60)

/-- A moment by itself. -/
def text : Moment → String
  | date d => d.text
  | time c => c.text
  | both d c offset => d.text ++ " " ++ c.text ++ (offset.map offsetText).getD ""

/-- The numbers of a time; those at the end are left out if they are zero, but
for hours and minutes. -/
def clockNumbers (c : Clock) : List Nat :=
  [c.hour, c.minute] ++
    if c.micros ≠ 0 then [c.second, c.micros] else if c.second ≠ 0 then [c.second] else []

/-- The zone of an offset, as a call. -/
def zoneCall (minutes : Int) : String :=
  if minutes = 0 then "datetime.timezone.utc"
  else
    let days := if minutes < 0 then "days=-1, " else ""
    "datetime.timezone(datetime.timedelta(" ++ days ++ "seconds="
      ++ toString (minutes % (24 * 60) * 60) ++ "))"

/-- A call with some arguments. -/
def call (name : String) (args : List String) : String :=
  "datetime." ++ name ++ "(" ++ String.intercalate ", " args ++ ")"

/-- A moment as a part of something: the call that makes it. -/
def shown : Moment → String
  | date d => call "date" ([d.year, d.month, d.day].map toString)
  | time c => call "time" ((clockNumbers c).map toString)
  | both d c offset =>
    call "datetime" (([d.year, d.month, d.day] ++ clockNumbers c).map toString
      ++ (offset.map fun minutes => "tzinfo=" ++ zoneCall minutes).toList)

end Moment

/-! ## Settings -/

/-- A value of a configuration. -/
inductive Setting where
  | null
  | bool (b : Bool)
  | int (i : Int)
  | double (x : Double)
  | text (s : String)
  | moment (m : Moment)
  | list (items : List Setting)
  | table (entries : List (String × Setting))
  deriving Inhabited

/-- The entries of a table, in order. -/
abbrev Table := List (String × Setting)

namespace Table

def get? : Table → String → Option Setting
  | [], _ => none
  | (k, v) :: rest, key => if k = key then some v else get? rest key

/-- Gives a key a value: in its place if it is there, else at the end. -/
def set : Table → String → Setting → Table
  | [], key, value => [(key, value)]
  | (k, v) :: rest, key, value =>
    if k = key then (k, value) :: rest else (k, v) :: set rest key value

end Table

namespace Setting

mutual
/-- The JSON value that a setting shows as. -/
def toJson : Setting → Json
  | null => .null
  | bool b => .bool b
  | int i => .int i
  | double x => .double x
  | text s => .str s
  | moment m => .str m.text
  | list items => .arr (toJsonItems items)
  | table entries => .obj (toJsonEntries entries)
def toJsonItems : List Setting → List Json
  | [] => []
  | v :: rest => toJson v :: toJsonItems rest
def toJsonEntries : List (String × Setting) → List (String × Json)
  | [] => []
  | (k, v) :: rest => (k, toJson v) :: toJsonEntries rest
end

mutual
/-- The setting that a JSON value stands for. -/
def ofJson : Json → Setting
  | .null => null
  | .bool b => bool b
  | .int i => int i
  | .double x => double x
  | .str s => text s
  | .arr items => list (ofJsonItems items)
  | .obj entries => table (ofJsonEntries entries)
def ofJsonItems : List Json → List Setting
  | [] => []
  | v :: rest => ofJson v :: ofJsonItems rest
def ofJsonEntries : List (String × Json) → List (String × Setting)
  | [] => []
  | (k, v) :: rest => (k, ofJson v) :: ofJsonEntries rest
end

mutual
/-- A setting as a part of another one: text is quoted. -/
def shown : Setting → String
  | null => Json.null.quoted
  | bool b => (Json.bool b).quoted
  | int i => (Json.int i).quoted
  | double x => (Json.double x).quoted
  | text s => Quoted.text s
  | moment m => m.shown
  | list items => "[" ++ Json.commaSeparated (shownItems items) ++ "]"
  | table entries => "\x7b" ++ Json.commaSeparated (shownEntries entries) ++ "\x7d"
def shownItems : List Setting → List String
  | [] => []
  | v :: rest => shown v :: shownItems rest
def shownEntries : List (String × Setting) → List String
  | [] => []
  | (k, v) :: rest => (Quoted.text k ++ ": " ++ shown v) :: shownEntries rest
end

/-- A setting by itself: text stands as it is. -/
def asShown : Setting → String
  | text s => s
  | moment m => m.text
  | v => v.shown

/-- The entries of a table; other settings have none. -/
def entries : Setting → Table
  | table es => es
  | _ => []

end Setting

end Retype
