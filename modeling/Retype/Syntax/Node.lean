import Retype.Json.Text
import Retype.Source.Location
/-! # Syntax nodes

A node of a syntax tree is a JSON object with a `type`, its kind. Some keys
hold positions and comments rather than child nodes; a node that takes the
place of another one inherits those. What makes a tree impossible to rewrite
is a `Refusal`.
-/

namespace Retype

/-- Why a tree is not rewritten. -/
inductive Refusal where
  /-- A construct without a counterpart. -/
  | unsupported (kind : String) (location : Option Location) (detail : String)
  /-- A field that every node of the kind has is missing. -/
  | missingField (key : String)
  /-- A field holds another sort of value than every node of the kind has. -/
  | malformedField (key : String)
  /-- A position is not given in numbers. -/
  | badPosition (cause : PositionError)
  deriving DecidableEq, Repr

namespace Refusal

def message : Refusal → String
  | unsupported kind location detail =>
    "Unsupported AST node: " ++ Quoted.text kind
      ++ (if detail = "" then "" else " (" ++ detail ++ ")")
      ++ (match location with
        | none => ""
        | some l => " at " ++ l.path ++ ":" ++ toString l.start.line ++ ":"
            ++ toString l.start.column)
  | missingField key => "missing field " ++ Quoted.text key
  | malformedField key => "malformed field " ++ Quoted.text key
  | badPosition .notANumber => "position is not a number"
  | badPosition .unbounded => "position is not finite"

end Refusal

/-- A result that may be a refusal. -/
abbrev Result (α : Type) := Except Refusal α

namespace Json

/-- The text of a node's kind. -/
def kind (node : Json) : String := node.textAt "type"

/-- A value is a node if it is an object with a kind. -/
def isNode : Json → Bool
  | obj entries => Entries.contains entries "type"
  | _ => false

/-- Keys that hold positions, comments and the like rather than child nodes. -/
def metadataKeys : List String :=
  ["loc", "start", "end", "range", "extra", "comments", "leadingComments", "trailingComments",
    "innerComments", "tokens", "errors"]

/-- Keys that a node hands on to the node that takes its place. -/
def inheritedKeys : List String :=
  ["loc", "start", "end", "range", "leadingComments", "trailingComments", "innerComments",
    "comments"]

/-- Gives a node the positions and comments of the node it comes from, except
those it has itself. -/
def inherit (origin target : Json) : Json :=
  inheritedKeys.foldl
    (fun node key =>
      match origin.get? key, node.get? key with
      | some v, none => node.set key v
      | _, _ => node)
    target

/-- Like `inherit`, for a node that may come from none. -/
def inheritOption (origin : Option Json) (target : Json) : Json :=
  match origin with
  | some origin => inherit origin target
  | none => target

/-- A part of a node, strictly inside it. -/
abbrev Below (node : Json) := { part : Json // sizeOf part < sizeOf node }

/-- The value of a key, as a part. -/
def below? (node : Json) (key : String) : Option (Below node) :=
  match h : node.get? key with
  | some v => some ⟨v, sizeOf_get?_lt h⟩
  | none => none

/-- An item of a part is inside the node too. -/
theorem sizeOf_item_lt {node item : Json} {items : List Json} (mem : item ∈ items)
    (h : sizeOf (arr items) < sizeOf node) : sizeOf item < sizeOf node :=
  Nat.lt_trans (sizeOf_mem_items_lt (j := arr items) mem) h

/-- The items of the list under a key, as parts. -/
def partsAt (node : Json) (key : String) : List (Below node) :=
  match node.below? key with
  | some ⟨arr items, h⟩ =>
    items.attach.map fun ⟨item, mem⟩ =>
      ⟨item, sizeOf_item_lt mem h⟩
  | _ => []

/-- Whether the kind of a node is one of some names. -/
def kindIn (node : Json) (names : List String) : Bool := names.any (node.hasText "type" ·)

end Json

/-- The refusal of a construct found at a node. -/
def Refusal.at (path : String) (node : Json) (detail : String) : Refusal :=
  match Location.ofNode? path node with
  | .ok location => .unsupported node.kind location detail
  | .error e => .badPosition e

namespace Json

/-- The field of a node that every node of its kind has, which is an object. -/
def field (node : Json) (key : String) : Result Json :=
  match node.get? key with
  | none => .error (.missingField key)
  | some (obj entries) => .ok (obj entries)
  | some _ => .error (.malformedField key)

/-- A field that every node of its kind has, whatever it holds. -/
def anyField (node : Json) (key : String) : Result Json :=
  match node.get? key with
  | none => .error (.missingField key)
  | some v => .ok v

/-- A field that every node of its kind has, which is a list. -/
def listField (node : Json) (key : String) : Result (List Json) :=
  match node.get? key with
  | none => .error (.missingField key)
  | some (arr items) => .ok items
  | some _ => .error (.malformedField key)

mutual
/-- Removes the positions and comments of a tree, at every depth. -/
def stripPositions : Json → Json
  | arr items => arr (stripItems items)
  | obj entries => obj (stripEntries entries)
  | j => j
def stripItems : List Json → List Json
  | [] => []
  | j :: rest => stripPositions j :: stripItems rest
def stripEntries : List (String × Json) → List (String × Json)
  | [] => []
  | (k, j) :: rest =>
    if inheritedKeys.contains k then stripEntries rest
    else (k, stripPositions j) :: stripEntries rest
end

end Json

/-- A location where a position error is a refusal. -/
def Location.ofNodeOrRefuse (path : String) (node : Json) : Result Location :=
  match Location.ofNode path node with
  | .ok l => .ok l
  | .error e => .error (.badPosition e)

end Retype
