import Retype.Migration.Tree
/-!
# The type level of a tree

What runs of a tree is what is left once its types are erased: annotations,
type parameters and arguments, declarations of types, casts that check
nothing, the markers of names, and the import of the helpers together with
the calls of their checked cast. `Erasure.erase` computes it.

A tree is `wellPlaced` if its types stand where types belong. The direction
that is not immediate is that a node whose types alone have changed erases to
the same; `Retyped` says when that is, and each change that keeps it is a
lemma below.
-/

namespace Retype.Migration

/-- How a file calls its helpers, and whether a pattern with a default value
keeps the marker it may have. -/
structure Erasure where
  utilsModule : String
  utilsBinding : String
  keepsDefaultMarkers : Bool

/-- The erasure of a file. -/
def FileOptions.erasure (o : FileOptions) (keepsDefaultMarkers : Bool) : Erasure :=
  ⟨o.utilsModule, o.utilsBinding, keepsDefaultMarkers⟩

/-! ## What is erased -/

/-- The keys of a node that hold types, or say how types are meant. -/
def typeKeys : List String :=
  ["typeAnnotation", "returnType", "typeParameters", "typeArguments", "superTypeParameters",
    "implements", "variance", "readonly", "importKind", "exportKind"]

/-- Whether the entry of a node under a key is erased: positions, types, and
the marker of a name. -/
def isTypeLevel (owner : Json) (key : String) : Bool :=
  Json.metadataKeys.contains key || typeKeys.contains key ||
    (key == "optional" && owner.hasText "type" "Identifier")

/-- Declarations that declare types only. -/
def typeOnlyKinds : List String :=
  ["TypeAlias", "OpaqueType", "InterfaceDeclaration", "TSTypeAliasDeclaration",
    "TSInterfaceDeclaration"]

/-- Casts that do nothing when the program runs. -/
def assertionKinds : List String := ["TypeCastExpression", "TSAsExpression"]

/-- Whether the part of a node under a key is a name. -/
def isIdentifierAt (n : Json) (key name : String) : Bool :=
  match n.get? key with
  | some part => part.hasText "type" "Identifier" && part.hasText "name" name
  | none => false

/-- Whether a node is a call with one argument and type arguments. -/
def isTypedCall (n : Json) : Bool :=
  n.hasText "type" "CallExpression" && (n.itemsAt "arguments").length == 1 &&
    ["typeParameters", "typeArguments"].any fun key => (n.get? key).any Json.isObject

/-- The entries of which something is left. -/
def remaining (fields : List (String × Option Json)) : Entries :=
  fields.filterMap fun (key, value) => value.map (key, ·)

namespace Erasure

variable (e : Erasure)

/-- Whether an erased callee is the checked cast of the helpers. -/
def isHelperCast (callee : Json) : Bool :=
  callee.hasText "type" "MemberExpression" && isIdentifierAt callee "object" e.utilsBinding &&
    isIdentifierAt callee "property" "cast" && !callee.holds "computed"

/-- Whether an erased import imports the helpers and nothing else. -/
def isHelperImport (n : Json) : Bool :=
  match n.get? "specifiers", n.get? "source" with
  | some (.arr [specifier]), some source =>
    specifier.hasText "type" "ImportDefaultSpecifier" &&
      isIdentifierAt specifier "local" e.utilsBinding && source.hasText "value" e.utilsModule
  | _, _ => false

/-- What is left of the part of a node under a key: where default markers are
dropped, the pattern that has a default value loses its own. -/
def trim (owner : Json) (key : String) (part : Json) : Json :=
  if key == "left" && owner.hasText "type" "AssignmentPattern" && !e.keepsDefaultMarkers
  then part.erase "optional" else part

/-- What is left of a node, given what is left of its parts. -/
def ofParts (n : Json) (fields : List (String × Option Json)) : Option Json :=
  let erased := Json.obj (remaining fields)
  if n.kindIn typeOnlyKinds then none
  else if n.kindIn assertionKinds then (fields.lookup "expression").join
  else if isTypedCall n && (erased.get? "callee").any e.isHelperCast then
    (erased.itemsAt "arguments").head?
  else if n.hasText "type" "ImportDeclaration" && e.isHelperImport erased then none
  else some erased

mutual

/-- What is left of a value when its types are erased, if anything is. -/
def erase : Json → Option Json
  | .arr items => some (.arr (eraseItems items))
  | .obj entries => e.ofParts (.obj entries) (eraseEntries (.obj entries) entries)
  | v => some v

def eraseItems : List Json → List Json
  | [] => []
  | item :: rest => (erase item).toList ++ eraseItems rest

def eraseEntries (owner : Json) : List (String × Json) → List (String × Option Json)
  | [] => []
  | (key, value) :: rest =>
    if isTypeLevel owner key then eraseEntries owner rest
    else (key, (erase value).map (e.trim owner key)) :: eraseEntries owner rest

end

/-! ## Where types stand -/

/-- Whether a value has no marker that erasure would leave. -/
def markerFree (v : Json) : Bool := v.hasText "type" "Identifier" || (v.get? "optional").isNone

/-- Whether a node is no pattern with a default value whose marker would be
left. -/
def defaultUnmarked (n : Json) : Bool :=
  !e.keepsDefaultMarkers || !n.hasText "type" "AssignmentPattern" ||
    (n.get? "left").all markerFree

/-- Kinds of nodes that stand for types. -/
def typeNodeKinds : List String :=
  ["TypeAnnotation", "TypeParameterDeclaration", "TypeParameterInstantiation", "ClassImplements"]

/-- Whether a node is one that may stand where no type does: its kind is a
text and not that of a type. -/
def isRuntimeNode (n : Json) : Bool :=
  (match n.get? "type" with
    | some (.str kind) => !typeNodeKinds.contains kind
    | _ => false) && e.defaultUnmarked n

mutual

/-- Whether the nodes of types in a value stand only where types are erased. -/
def wellPlaced : Json → Bool
  | .arr items => itemsWellPlaced items
  | .obj entries =>
    !(Json.obj entries).isNode ||
      (e.isRuntimeNode (.obj entries) &&
        ((Json.obj entries).kindIn typeOnlyKinds || entriesWellPlaced (.obj entries) entries))
  | _ => true

def itemsWellPlaced : List Json → Bool
  | [] => true
  | item :: rest => wellPlaced item && itemsWellPlaced rest

def entriesWellPlaced (owner : Json) : List (String × Json) → Bool
  | [] => true
  | (key, value) :: rest =>
    (isTypeLevel owner key || wellPlaced value) && entriesWellPlaced owner rest

end

end Erasure

end Retype.Migration
