import Retype.Migration.Rewrite
import Retype.Syntax.Walk
/-! # What a rewritten type keeps of the old one

Rewriting a type makes new nodes throughout, except for the keys of
properties: the signature of a property has the very key of the property. To
see which key went where, the keys are replaced by numbers and the type is
rewritten once more.
-/

namespace Retype.Migration

open Syntax (Handover)

/-- The kinds of nodes in Flow types that hand their keys on. -/
def propertyKinds : List String := ["ObjectTypeProperty"]

/-- The kinds of nodes in TypeScript types that were handed a key. -/
def signatureKinds : List String := ["TSPropertySignature", "TSMethodSignature"]

mutual

/-- The routes to the keys of the nodes of some kinds; nothing inside a key is
looked for. -/
def keyRoutes (kinds : List String) : Json → List Json.Route
  | .arr items => keyRoutesOfItems kinds 0 items
  | .obj entries =>
    keyRoutesOfEntries kinds (Json.kindIn (.obj entries) kinds) entries
  | _ => []

def keyRoutesOfItems (kinds : List String) : Nat → List Json → List Json.Route
  | _, [] => []
  | index, item :: rest =>
    (keyRoutes kinds item).map (.item index :: ·) ++ keyRoutesOfItems kinds (index + 1) rest

def keyRoutesOfEntries (kinds : List String) (isOwner : Bool) :
    List (String × Json) → List Json.Route
  | [] => []
  | (name, value) :: rest =>
    (if Json.metadataKeys.contains name then []
      else if isOwner && name == "key" then [[.key name]]
      else (keyRoutes kinds value).map (.key name :: ·))
    ++ keyRoutesOfEntries kinds isOwner rest

end

/-- The node that stands for the key with a number. -/
def numberedKey (number : Nat) : Json := .obj [("number", .int number)]

/-- The number of the key that a node stands for. -/
def keyNumber? : Json → Option Nat
  | .obj [("number", .int number)] => some number.toNat
  | _ => none

/-- The routes to the keys in the types that hang under some routes. -/
def keyRoutesUnder (slots : List Json.Route) (node : Json) : List Json.Route :=
  slots.flatMap fun slot =>
    match node.part? slot with
    | some type => (keyRoutes propertyKinds type).map (slot ++ ·)
    | none => []

/-- The node with numbers for the keys at the end of some routes. -/
def numberKeys (routes : List Json.Route) (node : Json) : Json :=
  routes.zipIdx.foldl (fun node (route, number) => node.setPart route (numberedKey number)) node

/-- The keys that a rewriting hands on, of the types that hang under some
routes. -/
def handedKeys (rewrite : Json → Rewrite Json) (slots : List Json.Route) (node : Json) :
    List Handover :=
  let routes := keyRoutesUnder slots node
  match (rewrite (numberKeys routes node)).run.run {} with
  | (.error _, _) => []
  | (.ok new, _) =>
    (keyRoutes signatureKinds new).filterMap fun present => do
      let number ← keyNumber? (← new.part? present)
      return ⟨← routes[number]?, present⟩

end Retype.Migration
