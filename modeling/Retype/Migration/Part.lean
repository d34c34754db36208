import Retype.Flow.Decode
import Retype.Flow.Outline
import Retype.Migration.Type
import Retype.TypeScript.Encode
/-! # Rewriting parts of types

The parts of types that have nodes of their own in a tree: a type, a list of
type parameters, a list of type arguments, and the name of a type.
-/

namespace Retype.Flow

/-- The sorts of parts. -/
inductive PartKind where
  | type
  | typeParams
  | typeArgs
  | entity
  deriving DecidableEq, Repr

/-- A part of a type. -/
inductive Part where
  | type (t : FlowType)
  | typeParams (params : FlowTypeParams FlowType)
  | typeArgs (args : FlowArgs FlowType)
  | entity (e : FlowEntity)

/-- The part that a node denotes. Nothing at all denotes no list. -/
def decodePart (path : String) (node : Json) : PartKind → Result Part
  | .type => .type <$> decodeType path node
  | .typeParams =>
    if node.isNull then .error (.malformedField "params")
    else .typeParams <$> decodeTypeParams path node
  | .typeArgs =>
    if node.isNull then .error (.malformedField "params") else .typeArgs <$> decodeArgs path node
  | .entity => .entity <$> decodeEntity path node

/-- The outline of a part. -/
def Part.outline : Part → Json
  | type t => Flow.outline t
  | typeParams params => outlineTypeParams params
  | typeArgs args => outlineArgs args
  | entity e => outlineEntity e

end Retype.Flow

namespace Retype.Migration

/-- The node of what a part of a type becomes. -/
def migratePart (c : TypeContext) : Flow.Part → Recorded Json
  | .type t => do return TypeScript.encode (← migrate c t)
  | .typeParams params => do return TypeScript.encodeTypeParams (← migrateTypeParams c params)
  | .typeArgs args => do return TypeScript.encodeArgs (← migrateArgs c args)
  | .entity e => return TypeScript.encodeEntity (migrateEntity e)

/-- The node of what the part of a type that a node denotes becomes. -/
def migratePartNode (c : TypeContext) (kind : Flow.PartKind) (node : Json) : Recorded Json := do
  migratePart c (← Recorded.ofResult (Flow.decodePart c.path node kind))

end Retype.Migration
