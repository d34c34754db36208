import Retype.Bridge.Connection
import Retype.Config.Encode
import Retype.Main
import Retype.Migration.Part
import Retype.Unreachable
import Retype.Proofs.Batch.Batching
import Retype.Proofs.Batch.Parameters
import Retype.Proofs.Dispatch.Action
import Retype.Proofs.Dispatch.Standing
import Retype.Proofs.Dispatch.Composition
import Retype.Proofs.Dispatch.Protocol
import Retype.Proofs.Frame.Cutting
import Retype.Proofs.Migration.Runtime
import Retype.Proofs.Run.Preservation
import Retype.Proofs.Inference.Running
import Retype.Proofs.Migration.Absorbing
import Retype.Proofs.Migration.Fences
import Retype.Proofs.Migration.Heads
import Retype.Proofs.Migration.Steady
import Retype.Proofs.Report.Algebra
import Retype.Proofs.Migration.Inferred
import Retype.Proofs.Migration.Trailing
import Retype.Proofs.Migration.Aliases
import Retype.Proofs.Migration.Comments
import Retype.Proofs.Migration.Literals
import Retype.Proofs.Migration.Marks
import Retype.Proofs.Migration.Noting
import Retype.Proofs.Migration.Casts
import Retype.Proofs.Migration.Accounting
import Retype.Proofs.Migration.Bindings
import Retype.Proofs.Migration.Scanning
import Retype.Proofs.Migration.Importing
import Retype.Proofs.Text.Utf8
import Retype.Proofs.Discovery.Streaming
import Retype.Proofs.Frame.Whole
import Retype.Proofs.Dispatch.Stalls
import Retype.Proofs.Report.Reviewed
import Retype.Proofs.Source.Display
import Retype.Proofs.Syntax.Traversal
import Retype.Proofs.Inference.Remarks
import Retype.Proofs.Batch.Fixups
import Retype.Proofs.Migration.Placeless
import Retype.Proofs.Config.Resolving
