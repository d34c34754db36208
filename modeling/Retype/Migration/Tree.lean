import Retype.Migration.Rules
/-! # Rewriting a tree

A file is rewritten in two stages. The walk applies the rules to every node
and collects the parameters that wait for an inferred type. Then each of them
gets the type that was inferred for it, or is a finding. The parameters that
wait are found again in the rewritten tree, in the order of the walk.
-/

namespace Retype.Migration

/-- A bound on the depth of the walk. A node becomes at most a few nodes deep
for each level it has itself. -/
def walkFuel (tree : Json) : Nat := 8 * tree.depth + 8

/-- The first stage: the rewritten tree, and what was produced besides it. -/
def rewriteTree (o : FileOptions) (tree : Json) : Result Json × Progress :=
  (Syntax.walkTree (rewriter o) (walkFuel tree) tree).run.run {}

/-- A parameter stays without an annotation, which is a finding. -/
def leaveUnannotated (location : Location) : Recorded (Option Json) := do
  Recorded.note (.place .unannotatedParameter location)
  return none

/-- The type that an inferred type becomes. A type that no call constrains is
as good as `any`. The positions belong to another text and are dropped. -/
def migrateInferred (o : FileOptions) (type : Json) : Recorded TsType :=
  let type := type.stripPositions
  if type.hasText "type" "EmptyTypeAnnotation" then return TsType.word .any
  else migrateNode o.types type

/-- The annotation for an inferred type; `any` is written as an alias of it. -/
def annotationOf (t : TsType) : Recorded (Option Json) := do
  let t ← if t.isWord .any then inferredAny else pure t
  return some (TypeScript.annotationNode (TypeScript.encode t))

/-- The annotation for what was inferred, and the findings that go with it. A
construct without a counterpart leaves the parameter without an annotation. -/
def annotationInferred (o : FileOptions) (location : Location) (inferred : Option Json) :
    Recorded (Option Json) :=
  match inferred with
  | none => leaveUnannotated location
  | some type =>
    let migrated := migrateInferred o type
    let rest :=
      match migrated.result with
      | .error (.unsupported ..) => leaveUnannotated location
      | .error e => Recorded.refuse e
      | .ok t => annotationOf t
    ⟨migrated.findings ++ rest.findings, rest.result⟩

/-- Whether the parameters of a node wait for inferred types, given whether the
node stands inside a call of `createReactClass`. -/
def awaitsTypes (o : FileOptions) (inside : Bool) (n : Json) : Bool :=
  match enterRule? n.kind with
  | some .functionDeclaration => !o.isTestFile
  | some .classMethod => true
  | some .objectMethod => inside
  | _ => false

/-- Gives the unannotated parameters of a list their annotations, one each. -/
def setAnnotations : List (Option Json) → List Json → List Json
  | _, [] => []
  | [], params => params
  | a :: as, param :: rest =>
    if isUnannotated param then
      (match a with
        | some annotation => param.set "typeAnnotation" annotation
        | none => param) :: setAnnotations as rest
    else param :: setAnnotations (a :: as) rest

/-- Gives the unannotated parameters of a node their annotations. -/
def annotateParams (annotations : List (Option Json)) (n : Json) : Json :=
  match n.get? "params" with
  | some (.arr params) => n.set "params" (.arr (setAnnotations annotations params))
  | _ => n

/-- Takes the next annotations, one for each unannotated parameter of a node
that waits. -/
def takeAnnotations (o : FileOptions) (inside : Bool) (n : Json) :
    StateM (List (Option Json)) (List (Option Json)) :=
  if awaitsTypes o inside n then
    modifyGet fun left =>
      let count := (unannotatedParams n).length
      (left.take count, left.drop count)
  else return []

mutual

/-- Gives the parameters that wait in the tree below a node their annotations,
in the order of the walk. -/
def annotateTree (o : FileOptions) (inside : Bool) : Json → StateM (List (Option Json)) Json
  | .obj entries => do
    let inside := inside || isCreateReactClassCall (.obj entries)
    let own ← takeAnnotations o inside (.obj entries)
    let entries ← annotateEntries o inside entries
    return annotateParams own (.obj entries)
  | n => return n

def annotateEntries (o : FileOptions) (inside : Bool) :
    List (String × Json) → StateM (List (Option Json)) (List (String × Json))
  | [] => return []
  | (key, value) :: rest => do
    let value ← annotateValue o inside (Json.metadataKeys.contains key) value
    return (key, value) :: (← annotateEntries o inside rest)

/-- The value of an entry, unless the entry holds metadata. -/
def annotateValue (o : FileOptions) (inside isMetadata : Bool) :
    Json → StateM (List (Option Json)) Json
  | .arr items =>
    if isMetadata then return .arr items else return .arr (← annotateItems o inside items)
  | .obj entries =>
    if isMetadata || !Entries.contains entries "type" then return .obj entries
    else do
      let inside := inside || isCreateReactClassCall (.obj entries)
      let own ← takeAnnotations o inside (.obj entries)
      let entries ← annotateEntries o inside entries
      return annotateParams own (.obj entries)
  | v => return v

def annotateItems (o : FileOptions) (inside : Bool) :
    List Json → StateM (List (Option Json)) (List Json)
  | [] => return []
  | .obj entries :: rest => do
    let item ← annotateValue o inside false (.obj entries)
    return item :: (← annotateItems o inside rest)
  | item :: rest => return item :: (← annotateItems o inside rest)

end

/-- The second stage: the tree in which the parameters that wait have the given
annotations. -/
def annotateWaiting (o : FileOptions) (annotations : List (Option Json)) (tree : Json) : Json :=
  (annotateTree o false tree annotations).1

end Retype.Migration
