import Retype.Frame.Stream
import Retype.Json.Writer
import Retype.Text.Utf8
/-! # Writing frames

The text of a frame: the header with the length of the body, and the body.
Both are ASCII.
-/

namespace Retype.Frame

/-- The header of a body of the given length. -/
def header (length : Nat) : List Char :=
  "Content-Length: ".toList ++ (toString length).toList ++ "\r\n\r\n".toList

/-- The text of the frame of a message. -/
def write (message : Json) : String :=
  let body := message.writeChars
  String.ofList (header body.length ++ body)

/-- The bytes of the frame of a message. -/
def bytes (message : Json) : List UInt8 := Utf8.encode (write message)

/-- The bytes that are written for a message, if it can be written: its body
is no longer than a read can ask for. -/
def bytes? (message : Json) : Option (List UInt8) :=
  if message.isWritable ∧ message.writeChars.length ≤ ByteStream.maxCount then
    some (bytes message)
  else none

end Retype.Frame
