import Retype.Json.Route
import Retype.Syntax.Node
/-! # Walking a tree

A depth-first walk over the nodes of a tree. On the way down a visitor may put
another node in the place of the one it sees; the walk goes on inside the new
one. On the way up it may change the node once more. The children of a node
are the nodes under its keys, or in the lists under its keys, in the order of
the keys; keys that hold metadata are passed over.

The place of a node is the chain of its ancestors, each with a hole where the
walk went down. The ancestors show what the walk has already done to them.

A node may hand parts of itself on to the one that takes its place. What the
walk does to such a part shows in both, so the walk also tells what has become
of the nodes that lost their place.
-/

namespace Retype.Syntax

/-- One step down from a node: the entries before the one that the walk is in,
its key, the items around the hole if the entry is a list, and the entries
after it. -/
structure Frame where
  before : Entries
  key : String
  around : Option (List Json × List Json)
  after : Entries

namespace Frame

/-- The node with its hole filled. -/
def fill (f : Frame) (child : Json) : Json :=
  let value :=
    match f.around with
    | none => child
    | some (left, right) => .arr (left ++ child :: right)
  .obj (f.before ++ (f.key, value) :: f.after)

/-- The place of the hole in its list. -/
def index? (f : Frame) : Option Nat := f.around.map (·.1.length)

end Frame

/-- Where a node stands: the steps down to it, the last one first. -/
abbrev Place := List Frame

namespace Place

/-- The ancestors of a node that stands at a place, the nearest first. -/
def ancestors : Place → Json → List Json
  | [], _ => []
  | f :: up, node => f.fill node :: ancestors up (f.fill node)

/-- The places of a node and of its ancestors, the node's own first. -/
def path : Place → Json → List (Place × Json)
  | [], node => [([], node)]
  | f :: up, node => (f :: up, node) :: path up (f.fill node)

def parent? (place : Place) (node : Json) : Option Json := (ancestors place node).head?

/-- The kind of the parent. -/
def parentKind? (place : Place) (node : Json) : Option String :=
  (parent? place node).map Json.kind

/-- The kind of the parent's parent. -/
def grandparentKind? (place : Place) (node : Json) : Option String :=
  ((ancestors place node)[1]?).map Json.kind

/-- The key under which a node stands. -/
def key? (place : Place) : Option String := place.head?.map Frame.key

/-- The index at which a node stands, if it stands in a list. -/
def index? (place : Place) : Option Nat := place.head?.bind Frame.index?

end Place

/-- A part that a node hands on: where it stands in the node, and where in the
one that takes the node's place. -/
structure Handover where
  former : Json.Route
  present : Json.Route

/-- What a visitor makes of a node on the way down: the node now in its place,
fields that its parent gets, and, if it is another node than before, the parts
that were handed on to it. -/
structure Visit where
  node : Json
  parentFields : Entries
  handed : Option (List Handover)

namespace Visit

/-- The node stays, perhaps changed. -/
def keep (node : Json) : Visit := ⟨node, [], none⟩

/-- Another node takes the place of one and inherits its position and comments,
and the parts that are handed on to it. -/
def replace (node new : Json) (handed : List Handover) : Visit :=
  ⟨Json.inherit node new, [], some handed⟩

end Visit

/-- What is done to each node on the way down and on the way up. -/
structure Visitor (m : Type → Type) where
  enter : Place → Json → m Visit
  leave : Place → Json → m Json

/-- What came of a value: what stands in its place, what has become of it, and
fields that its parent gets. The first two differ where nodes were replaced. -/
structure Walked (α : Type) where
  present : α
  former : α
  parentFields : Entries

namespace Walked

variable {α : Type}

/-- Nothing came of a value. -/
def same (a : α) : Walked α := ⟨a, a, []⟩

/-- An item behind the items before it. -/
def snoc (done : Walked (List α)) (item : Walked α) : Walked (List α) :=
  ⟨done.present ++ [item.present], done.former ++ [item.former],
    done.parentFields ++ item.parentFields⟩

/-- The value as it stands under a key. -/
def under (w : Walked α) (key : String) : Walked (String × α) :=
  ⟨(key, w.present), (key, w.former), w.parentFields⟩

/-- The list as one value. -/
def array (w : Walked (List Json)) : Walked Json := ⟨.arr w.present, .arr w.former, w.parentFields⟩

/-- The object with the fields that its entries give it. -/
def object (w : Walked Entries) : Walked Json :=
  ⟨.obj (Entries.setAll w.present w.parentFields),
    .obj (Entries.setAll w.former w.parentFields), []⟩

end Walked

/-- What has become of a node that lost its place, given what has become of the
parts of the one that took it. -/
def takeBack (node replacement : Json) (handed : List Handover) : Json :=
  handed.foldl
    (fun node h =>
      match replacement.part? h.present with
      | some part => node.setPart h.former part
      | none => node)
    node

section
variable {m : Type → Type} [Monad m]

/-- Visits the nodes in a list, after the items before. -/
def walkItems (visit : Place → Json → m (Walked Json)) (frame : List Json → List Json → Frame)
    (up : Place) : Walked (List Json) → List Json → m (Walked (List Json))
  | done, [] => pure done
  | done, item :: rest => do
    let item ←
      if item.isNode then visit (frame done.present rest :: up) item
      else pure (Walked.same item)
    walkItems visit frame up (done.snoc item) rest

/-- Visits the node, or the nodes in the list, under a key. -/
def walkEntry (visit : Place → Json → m (Walked Json)) (up : Place) (before : Entries)
    (key : String) (after : Entries) : Json → m (Walked Json)
  | .arr items => do
    let frame := fun left right => ⟨before, key, some (left, right), after⟩
    return (← walkItems visit frame up (Walked.same []) items).array
  | value =>
    if value.isNode then visit (⟨before, key, none, after⟩ :: up) value
    else pure (Walked.same value)

/-- Visits the nodes under the entries of a node, after the entries before. A
key that a child has given its parent is not visited any more. -/
def walkEntries (visit : Place → Json → m (Walked Json)) (up : Place) :
    Walked Entries → Entries → m (Walked Entries)
  | done, [] => pure done
  | done, (key, value) :: rest => do
    let value ←
      if Json.metadataKeys.contains key || Entries.contains done.parentFields key then
        pure (Walked.same value)
      else walkEntry visit up done.present key rest value
    walkEntries visit up (done.snoc (value.under key)) rest

/-- Visits the children of a node. -/
def walkChildren (visit : Place → Json → m (Walked Json)) (up : Place) : Json → m (Walked Json)
  | .obj entries => do return (← walkEntries visit up (Walked.same []) entries).object
  | node => pure (Walked.same node)

/-- Walks the tree below a node at a place. The fuel bounds the depth; where
it runs out the tree stays as it is. -/
def walk (visitor : Visitor m) : Nat → Place → Json → m (Walked Json)
  | 0, _, node => pure (Walked.same node)
  | fuel + 1, place, node => do
    let entered ← visitor.enter place node
    let inside ← walkChildren (walk visitor fuel) place entered.node
    let left ← visitor.leave place inside.present
    let former :=
      match entered.handed with
      | none => left
      | some handed => takeBack node inside.former handed
    return ⟨left, former, entered.parentFields⟩

/-- Walks a whole tree. A root that was replaced has no parent to hold what
replaced it, so the answer is what has become of the root itself. -/
def walkTree (visitor : Visitor m) (fuel : Nat) (tree : Json) : m Json := do
  return (← walk visitor fuel [] tree).former

end

end Retype.Syntax
