import Retype.Flow.Grammar
import Retype.Syntax.Node
/-! # Reading Flow types

Reads the grammar of `Retype.Flow.Grammar` out of syntax nodes. A node that is
no Flow type, or lacks a part of one, is refused with its place. The reading
descends into parts of the node only, so it ends.
-/

namespace Retype.Flow

variable (path : String)

/-- The object under a key: none if the key is missing or null. -/
def child (node : Json) (key : String) : Result (Option node.Below) :=
  match node.below? key with
  | none => .ok none
  | some ⟨.null, _⟩ => .ok none
  | some ⟨.obj entries, h⟩ => .ok (some ⟨.obj entries, h⟩)
  | some _ => .error (Refusal.at path node ("malformed " ++ Quoted.text key))

/-- Like `child`, where an empty object also counts as missing. -/
def nonemptyChild (node : Json) (key : String) : Result (Option node.Below) := do
  match ← child path node key with
  | some part => return if part.1.isTrue then some part else none
  | none => return none

/-- The object under a key that must be there. -/
def required (node : Json) (key : String) : Result node.Below := do
  match ← child path node key with
  | some part => return part
  | none => .error (Refusal.at path node ("missing " ++ Quoted.text key))

/-- The objects in the list under a key; other items are passed over. -/
def children (node : Json) (key : String) : Result (List node.Below) :=
  match node.below? key with
  | none => .ok []
  | some ⟨.null, _⟩ => .ok []
  | some ⟨.arr items, h⟩ =>
    .ok (items.attach.filterMap fun ⟨item, mem⟩ =>
      if item.isObject then
        some ⟨item, Json.sizeOf_item_lt mem h⟩
      else none)
  | some _ => .error (Refusal.at path node ("malformed " ++ Quoted.text key))

/-- The variance marker of a node, if it has one. -/
def variance (node : Json) : Result (Option Variance) := do
  match ← child path node "variance" with
  | none => return none
  | some ⟨mark, _⟩ =>
    match mark.textAt "kind" with
    | "plus" => return some .plus
    | "minus" => return some .minus
    | _ => .error (Refusal.at path mark "variance kind")

/-- Where a member stands: its line and column, or the beginning. -/
def sourceOrder (node : Json) : Result (Int × Int) :=
  match Location.ofNode? "" node with
  | .ok (some l) => .ok (l.start.line, l.start.column)
  | .ok none => .ok (0, 0)
  | .error e => .error (.badPosition e)

/-- Members in the order of the source, those at one place as they were. -/
def inSourceOrder {α : Type} (place : α → Result (Int × Int)) (members : List α) :
    Result (List α) := do
  let placed ← members.mapM fun m => do return (← place m, m)
  let sorted := placed.mergeSort fun a b =>
    a.1.1 < b.1.1 || (a.1.1 == b.1.1 && a.1.2 ≤ b.1.2)
  return sorted.map (·.2)

/-- A name, qualified or not. -/
def decodeEntity (node : Json) : Result FlowEntity :=
  if node.hasText "type" "Identifier" then .ok (.name ⟨node, node.textAt "name"⟩)
  else if node.hasText "type" "QualifiedTypeIdentifier" then do
    let ⟨qualification, _⟩ ← required path node "qualification"
    let qualification ← decodeEntity qualification
    let ⟨id, _⟩ ← required path node "id"
    match ← decodeEntity id with
    | .name id => return .qualified node qualification id
    | .qualified _ _ _ => .error (Refusal.at path node "qualified id")
  else .error (Refusal.at path node "")
termination_by sizeOf node

mutual

/-- The type that a node denotes. -/
def decodeType (node : Json) : Result FlowType :=
  match FlowKind.ofName? node.kind with
  | none => .error (Refusal.at path node "")
  | some (.keyword word) => .ok (.keyword node word)
  | some .booleanLiteral => .ok (.literal node (.boolean (node.holds "value")))
  | some .numberLiteral => .ok (.literal node (.number ((node.get? "value").getD .null)))
  | some .stringLiteral => .ok (.literal node (.string (node.textAt "value")))
  | some .array => do
    let ⟨element, _⟩ ← required path node "elementType"
    return .array node (← decodeType element)
  | some .nullable => do
    let ⟨inner, _⟩ ← required path node "typeAnnotation"
    return .nullable node (← decodeType inner)
  | some .tuple => do
    let parts ← children path node "types"
    return .tuple node (← parts.mapM fun ⟨part, _⟩ => decodeType part)
  | some .union => do
    let parts ← children path node "types"
    return .union node (← parts.mapM fun ⟨part, _⟩ => decodeType part)
  | some .intersection => do
    let parts ← children path node "types"
    return .intersection node (← parts.mapM fun ⟨part, _⟩ => decodeType part)
  | some .typeof => do
    let ⟨argument, _⟩ ← required path node "argument"
    if argument.hasText "type" "Identifier" || argument.hasText "type" "QualifiedTypeIdentifier"
    then return .typeof node (.generic argument (← decodeEntity path argument) none)
    else return .typeof node (← decodeType argument)
  | some .indexedAccess => do
    let ⟨object, _⟩ ← required path node "objectType"
    let object ← decodeType object
    let ⟨index, _⟩ ← required path node "indexType"
    return .indexedAccess node object (← decodeType index)
  | some .optionalIndexedAccess => do
    let ⟨object, _⟩ ← required path node "objectType"
    let object ← decodeType object
    let ⟨index, _⟩ ← required path node "indexType"
    return .optionalIndexedAccess node object (← decodeType index)
  | some .generic => do
    let ⟨id, _⟩ ← required path node "id"
    let id ← decodeEntity path id
    match ← child path node "typeParameters" with
    | none => return .generic node id none
    | some ⟨args, _⟩ => return .generic node id (some (← decodeArgs args))
  | some .function => do
    let rest ← nonemptyChild path node "rest"
    let thisParam ← nonemptyChild path node "this"
    let params ← children path node "params"
    let params ← params.mapM fun ⟨param, _⟩ => decodeParam param
    let ⟨result, _⟩ ← required path node "returnType"
    let result ← decodeType result
    let rest ← match rest with
      | none => pure none
      | some ⟨rest, _⟩ => some <$> decodeParam rest
    let thisParam ← match thisParam with
      | none => pure none
      | some ⟨param, _⟩ => some <$> decodeParam param
    match ← child path node "typeParameters" with
    | none => return .function node params result rest thisParam none
    | some ⟨typeParams, _⟩ =>
      return .function node params result rest thisParam (some (← decodeTypeParams typeParams))
  | some .object => do
    let properties ← children path node "properties"
    let indexers ← children path node "indexers"
    let calls ← children path node "callProperties"
    let slots ← children path node "internalSlots"
    let members ← inSourceOrder (fun m => sourceOrder m.1)
      (properties ++ indexers ++ calls ++ slots)
    let members ← members.mapM fun ⟨member, _⟩ => decodeMember member
    return .object node members (node.holds "exact")
termination_by sizeOf node

/-- The type arguments that a node denotes. -/
def decodeArgs (node : Json) : Result (FlowArgs FlowType) := do
  let params ← children path node "params"
  return ⟨node, ← params.mapM fun ⟨param, _⟩ => decodeType param⟩
termination_by sizeOf node

/-- The type parameters that a node denotes. The bound of one stands inside an
annotation node. -/
def decodeTypeParams (node : Json) : Result (FlowTypeParams FlowType) := do
  let params ← children path node "params"
  return ⟨node, ← params.mapM fun ⟨param, _⟩ => decodeTypeParam param⟩
termination_by sizeOf node

def decodeTypeParam (node : Json) : Result (FlowTypeParam FlowType) := do
  let bound ← nonemptyChild path node "bound"
  let default ← nonemptyChild path node "default"
  let bound ← match bound with
    | none => pure none
    | some ⟨bound, _⟩ => do
      let ⟨type, _⟩ ← required path bound "typeAnnotation"
      some <$> decodeType type
  let default ← match default with
    | none => pure none
    | some ⟨type, _⟩ => some <$> decodeType type
  return ⟨node, node.textAt "name", bound, default, ← variance path node⟩
termination_by sizeOf node

/-- The parameter of a function type that a node denotes. -/
def decodeParam (node : Json) : Result (FlowParam FlowType) := do
  let name ← nonemptyChild path node "name"
  let ⟨type, _⟩ ← required path node "typeAnnotation"
  let type ← decodeType type
  return ⟨node, name.map fun n => n.1.textAt "name", type, node.holds "optional"⟩
termination_by sizeOf node

/-- The member of an object type that a node denotes. -/
def decodeMember (node : Json) : Result (FlowMember FlowType) :=
  if node.hasText "type" "ObjectTypeProperty" then do
    let ⟨key, _⟩ ← required path node "key"
    let ⟨value, _⟩ ← required path node "value"
    let value ← decodeType value
    let variance ← variance path node
    return .property node key value
      { optional := node.holds "optional"
        variance := variance
        method := node.holds "method"
        kind := if node.holds "kind" then node.textAt "kind" else "init"
        isStatic := node.holds "static"
        proto := node.holds "proto" }
  else if node.hasText "type" "ObjectTypeSpreadProperty" then do
    let ⟨argument, _⟩ ← required path node "argument"
    return .spread node (← decodeType argument)
  else if node.hasText "type" "ObjectTypeIndexer" then do
    let id ← nonemptyChild path node "id"
    let ⟨key, _⟩ ← required path node "key"
    let key ← decodeType key
    let ⟨value, _⟩ ← required path node "value"
    let value ← decodeType value
    return .indexer node (id.map fun n => n.1.textAt "name") key value (← variance path node)
      (node.holds "static")
  else if node.hasText "type" "ObjectTypeCallProperty" then do
    let ⟨value, _⟩ ← required path node "value"
    return .callProperty node (← decodeType value)
  else if node.hasText "type" "ObjectTypeInternalSlot" then do
    let ⟨id, _⟩ ← required path node "id"
    return .internalSlot node (id.textAt "name")
  else .error (Refusal.at path node "")
termination_by sizeOf node

end

end Retype.Flow
