import Retype.Number.Double
/-! # JSON values with ordered objects

A JSON value. The entries of an object have an order, which every operation
keeps: `set` on a key that is there keeps its place, on a new key it appends,
`erase` moves nothing. Whole numbers are unbounded; other numbers are doubles.
-/

namespace Retype

/-- A JSON value. Objects list their entries in order. -/
inductive Json where
  | null
  | bool (b : Bool)
  | int (i : Int)
  | double (x : Double)
  | str (s : String)
  | arr (items : List Json)
  | obj (entries : List (String × Json))
  deriving Inhabited, Repr

/-- The entries of an object, in order. -/
abbrev Entries := List (String × Json)

namespace Entries

/-- The value of the first entry with a key. -/
def get? : Entries → String → Option Json
  | [], _ => none
  | (k, v) :: rest, key => if k = key then some v else get? rest key

/-- Gives a key a value: in its place if it is there, else at the end. -/
def set : Entries → String → Json → Entries
  | [], key, value => [(key, value)]
  | (k, v) :: rest, key, value =>
    if k = key then (k, value) :: rest else (k, v) :: set rest key value

/-- Removes the entry with a key. -/
def erase (entries : Entries) (key : String) : Entries := entries.filter (·.1 ≠ key)

def contains (entries : Entries) (key : String) : Bool := entries.any (·.1 = key)

/-- Gives each of some keys its value, one after the other. -/
def setAll (entries updates : Entries) : Entries :=
  updates.foldl (fun es u => Entries.set es u.1 u.2) entries

theorem get?_set_self (entries : Entries) (key : String) (v : Json) :
    (entries.set key v).get? key = some v := by
  induction entries with
  | nil => simp [set, get?]
  | cons e rest ih =>
    obtain ⟨k, w⟩ := e
    by_cases h : k = key <;> simp [set, get?, h, ih]

theorem sizeOf_get?_lt {entries : Entries} {key : String} {v : Json} :
    entries.get? key = some v → sizeOf v < sizeOf entries := by
  induction entries with
  | nil => simp [get?]
  | cons e rest ih =>
    obtain ⟨k, w⟩ := e
    simp only [get?]
    split
    · intro h
      obtain rfl : w = v := by simpa using h
      simp; omega
    · intro h
      have := ih h
      simp; omega

end Entries

namespace Json

/-- The value of a key of an object; other values have no keys. -/
def get? : Json → String → Option Json
  | obj entries, key => Entries.get? entries key
  | _, _ => none

/-- An object with a key set; other values stay. -/
def set : Json → String → Json → Json
  | obj entries, key, value => obj (Entries.set entries key value)
  | j, _, _ => j

/-- An object without a key; other values stay. -/
def erase : Json → String → Json
  | obj entries, key => obj (Entries.erase entries key)
  | j, _ => j

def isObject : Json → Bool
  | obj _ => true
  | _ => false

def isNull : Json → Bool
  | null => true
  | _ => false

/-- A value is false if it is null, false, zero or empty. -/
def isTrue : Json → Bool
  | null => false
  | bool b => b
  | int i => i != 0
  | double x => !x.isZero
  | str s => s != ""
  | arr items => !items.isEmpty
  | obj entries => !entries.isEmpty

/-- Whether a key is there and its value is true. -/
def holds (j : Json) (key : String) : Bool :=
  match j.get? key with
  | some v => v.isTrue
  | none => false

/-- The items of an array; other values have none. -/
def items : Json → List Json
  | arr xs => xs
  | _ => []

/-- The items of the array under a key. -/
def itemsAt (j : Json) (key : String) : List Json :=
  match j.get? key with
  | some v => v.items
  | none => []

/-- Whether the value of a key is exactly the given text. -/
def hasText (j : Json) (key text : String) : Bool :=
  match j.get? key with
  | some (str s) => s == text
  | _ => false

mutual
/-- How many arrays and objects stand inside each other. -/
def depth : Json → Nat
  | arr items => depthItems items + 1
  | obj entries => depthEntries entries + 1
  | _ => 0
/-- The greatest depth of some values. -/
def depthItems : List Json → Nat
  | [] => 0
  | j :: rest => max (depth j) (depthItems rest)
/-- The greatest depth of the values of some entries. -/
def depthEntries : List (String × Json) → Nat
  | [] => 0
  | (_, j) :: rest => max (depth j) (depthEntries rest)
end

theorem sizeOf_get?_lt {j v : Json} {key : String} (h : j.get? key = some v) :
    sizeOf v < sizeOf j := by
  cases j with
  | obj entries => have := Entries.sizeOf_get?_lt (by simpa [get?] using h); simp; omega
  | _ => simp [get?] at h

theorem sizeOf_mem_items_lt {j v : Json} (h : v ∈ j.items) : sizeOf v < sizeOf j := by
  cases j with
  | arr xs => have := List.sizeOf_lt_of_mem h; simp [items] at this ⊢; omega
  | _ => simp [items] at h

end Json

end Retype
