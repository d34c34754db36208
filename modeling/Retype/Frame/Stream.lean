/-! # Byte streams

Bytes that arrive in pieces. A read asks for some number of bytes and gets at
least one of them, if there are any left, and perhaps fewer than it asked for.
-/

namespace Retype

/-- The bytes still to come, and how many of them the next reads return at
most. Where nothing is said a read returns all it asks for. -/
structure ByteStream where
  bytes : List UInt8
  cuts : List Nat
  deriving Repr

namespace ByteStream

/-- A stream that cuts nothing. -/
def ofBytes (bytes : List UInt8) : ByteStream := ⟨bytes, []⟩

/-- A read never returns nothing because of a cut. -/
def limit (s : ByteStream) (n : Nat) : Nat :=
  match s.cuts with
  | [] => n
  | cut :: _ => min n (max 1 cut)

/-- The most bytes that a read may ask for. -/
def maxCount : Nat := 1 <<< 63 - 1

/-- Whether a read may ask for so many bytes, however few of them it gets. -/
def mayAsk (n : Nat) : Bool := n ≤ maxCount

/-- Reads up to `n` bytes. -/
def read (s : ByteStream) (n : Nat) : List UInt8 × ByteStream :=
  (s.bytes.take (s.limit n), ⟨s.bytes.drop (s.limit n), s.cuts.tail⟩)

/-- The places of the streams that have something to read. -/
def readable (streams : List ByteStream) : List Nat :=
  (List.range streams.length).filter fun i =>
    match streams[i]? with
    | some s => !s.bytes.isEmpty
    | none => false

theorem read_bytes (s : ByteStream) (n : Nat) : (s.read n).1 ++ (s.read n).2.bytes = s.bytes := by
  simp [read]

theorem length_read_lt {s : ByteStream} {n : Nat} (h : (s.read n).1 ≠ []) :
    (s.read n).2.bytes.length < s.bytes.length := by
  have := congrArg List.length (s.read_bytes n)
  have : 0 < (s.read n).1.length := List.length_pos_iff.mpr h
  simp at *; omega

end ByteStream

end Retype
