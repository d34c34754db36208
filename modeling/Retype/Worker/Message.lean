import Retype.Frame.Reader
import Retype.Frame.Writer
import Retype.Report.Decode
import Retype.Report.Encode
/-! # Messages between the primary and its workers

The primary sends batches of files and asks for a report; a worker says that
it is ready for the next batch, and sends its report.
-/

namespace Retype

/-- Why what arrives is no message, or none that is expected. -/
inductive ProtocolError where
  | frame (cause : FrameError)
  /-- A frame that is no message. -/
  | unrecognized
  /-- A message that a worker does not take. -/
  | unexpected (kind : String)
  deriving DecidableEq, Repr

def ProtocolError.message : ProtocolError → String
  | frame cause => cause.message
  | unrecognized => "unrecognized message"
  | unexpected kind => "worker received unexpected " ++ Quoted.text kind ++ " message"

/-- Whether the failure is one of the protocol. -/
def ProtocolError.isOfProtocol : ProtocolError → Bool
  | frame cause => cause.isOfProtocol
  | _ => true

/-- A message of one side to the other. -/
inductive Message where
  | batch (files : List String)
  | next
  | reportRequest
  | report (data : Report)

namespace Message

/-- The `type` of a message. -/
def kindName : Message → String
  | batch _ => "batch"
  | next => "next"
  | reportRequest => "report-request"
  | report _ => "report"

def toJson : Message → Json
  | batch files => .obj [("type", .str "batch"), ("files", .arr (files.map Json.str))]
  | next => .obj [("type", .str "next")]
  | reportRequest => .obj [("type", .str "report-request")]
  | report data => .obj [("type", .str "report"), ("data", data.toJson)]

/-- The message that an object stands for; further keys do not count. -/
def ofJson? (j : Json) : Option Message :=
  match j.get? "type" with
  | some (.str "batch") =>
    (Validated.field (Validated.list Validated.text) j "files").map batch
  | some (.str "next") => some next
  | some (.str "report-request") => some reportRequest
  | some (.str "report") => (Validated.field Report.ofJson? j "data").map report
  | _ => none

/-- Receives a message; none at the end of the stream. -/
def receive (s : ByteStream) : Except ProtocolError (Option Message) × ByteStream :=
  match Frame.read s with
  | (.error e, s) => (.error (.frame e), s)
  | (.ok none, s) => (.ok none, s)
  | (.ok (some frame), s) =>
    match ofJson? frame with
    | some m => (.ok (some m), s)
    | none => (.error .unrecognized, s)

/-- The text that sends a message. -/
def written (m : Message) : String := Frame.write m.toJson

/-- The bytes that are written for a message, if it can be written. -/
def bytes? (m : Message) : Option (List UInt8) := Frame.bytes? m.toJson

end Message

end Retype
