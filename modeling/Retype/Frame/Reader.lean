import Retype.Frame.Stream
import Retype.Json.Reader
import Retype.Text.Numeral
import Retype.Text.Utf8
/-! # Reading frames

A frame is a header, an empty line and a body: the header gives the length of
the body in bytes, and the body is a JSON object. A stream may end between two
frames and nowhere else. Two failures are none of the protocol but of the
machine: a body longer than a read can ask for, and a number in it with more
digits than are read.
-/

namespace Retype

/-- Why a stream holds no frame. -/
inductive FrameError where
  | closedInHeader
  | closedInFrame
  | badLength
  | malformedBody
  | notAnObject
  /-- The body is longer than a read can ask for. -/
  | lengthTooLarge
  /-- A whole number in the body has too many digits. -/
  | tooManyDigits
  deriving DecidableEq, Repr

namespace FrameError

def message : FrameError → String
  | closedInHeader => "stream closed inside a frame header"
  | closedInFrame => "stream closed inside a frame"
  | badLength => "invalid Content-Length"
  | malformedBody => "malformed frame body"
  | notAnObject => "frame payload is not an object"
  | lengthTooLarge => "frame body is too long to be read"
  | tooManyDigits => "a number in a frame body has too many digits"

/-- Whether the failure is one of the protocol. -/
def isOfProtocol : FrameError → Bool
  | lengthTooLarge => false
  | tooManyDigits => false
  | _ => true

end FrameError

namespace Frame

def carriageReturn : UInt8 := 13

def lineFeed : UInt8 := 10

/-- The bytes that end a header, the last one first. -/
def headerEnd : List UInt8 := [lineFeed, carriageReturn, lineFeed, carriageReturn]

/-- Reads byte by byte until the header is over. `before` holds what has been
read, the last byte first. None stands for a stream that has ended. -/
def readHeader (before : List UInt8) (s : ByteStream) :
    Except FrameError (Option (List UInt8)) × ByteStream :=
  match _read : s.read 1 with
  | ([], rest) =>
    if before.isEmpty then (.ok none, rest) else (.error .closedInHeader, rest)
  | (b :: _, rest) =>
    let before := b :: before
    if headerEnd.isPrefixOf before then (.ok (some (before.drop 4).reverse), rest)
    else readHeader before rest
termination_by s.bytes.length
decreasing_by
  have := ByteStream.length_read_lt (s := s) (n := 1) (by simp [_read])
  simpa [_read] using this

/-- Reads the given number of bytes, piece by piece. -/
def readBody (before : List UInt8) (length : Nat) (s : ByteStream) :
    Except FrameError (List UInt8) × ByteStream :=
  if length = 0 then (.ok before, s)
  else
    match _read : s.read length with
    | ([], rest) => (.error .closedInFrame, rest)
    | (b :: bs, rest) => readBody (before ++ b :: bs) (length - (bs.length + 1)) rest
termination_by s.bytes.length
decreasing_by
  have := ByteStream.length_read_lt (s := s) (n := length) (by simp [_read])
  simpa [_read] using this

/-- The lines of a header. -/
def headerLines : List UInt8 → List (List UInt8)
  | [] => [[]]
  | [b] => [[b]]
  | b :: c :: rest =>
    if b = carriageReturn ∧ c = lineFeed then [] :: headerLines rest
    else consFirst b (headerLines (c :: rest))
where
  /-- Puts a byte in front of the first line. -/
  consFirst (b : UInt8) : List (List UInt8) → List (List UInt8)
    | [] => [[b]]
    | line :: more => (b :: line) :: more

/-- Bytes as characters, one each. -/
def chars (bs : List UInt8) : List Char := bs.map fun b => Char.ofNat b.toNat

/-- The blanks of ASCII. -/
def isAsciiBlank (c : Char) : Bool := c == ' ' || (0x09 ≤ c.toNat && c.toNat ≤ 0x0d)

def lengthKey : List Char := "content-length:".toList

/-- The number that a header line gives, if it is the line of the length; the
case of its key does not count. -/
def lengthOfLine? (line : List UInt8) : Option (Option Int) :=
  let cs := chars line
  if lengthKey.isPrefixOf (cs.map Char.toLower) then
    some (Numeral.intOfList? (Text.trimList isAsciiBlank ((cs.dropWhile (· ≠ ':')).drop 1)))
  else none

/-- The length that a header gives: the first line of a length decides. -/
def bodyLength (header : List UInt8) : Except FrameError Nat :=
  match (headerLines header).findSome? lengthOfLine? with
  | some (some n) => if 0 < n then .ok n.toNat else .error .badLength
  | _ => .error .badLength

/-- The object that a body spells. -/
def decodeBody (body : List UInt8) : Except FrameError Json :=
  match (Utf8.decode? body).map Json.read with
  | none => .error .malformedBody
  | some (.error .malformed) => .error .malformedBody
  | some (.error .tooManyDigits) => .error .tooManyDigits
  | some (.ok (.obj entries)) => .ok (.obj entries)
  | some (.ok _) => .error .notAnObject

/-- Reads one frame; none at the end of the stream. -/
def read (s : ByteStream) : Except FrameError (Option Json) × ByteStream :=
  match readHeader [] s with
  | (.error e, s) => (.error e, s)
  | (.ok none, s) => (.ok none, s)
  | (.ok (some header), s) =>
    match bodyLength header with
    | .error e => (.error e, s)
    | .ok length =>
      -- the first read of the body asks for all of it, a later one for less
      if ByteStream.mayAsk length then
        match readBody [] length s with
        | (.error e, s) => (.error e, s)
        | (.ok body, s) => ((decodeBody body).map some, s)
      else (.error .lengthTooLarge, s)

end Frame

end Retype
