/-! # UTF-8

Bytes read as text, one character at a time. Where the bytes are not UTF-8,
the reading names the longest piece that could have begun a character, so
that a lenient reader can put one replacement character in its place.
-/

namespace Retype.Utf8

/-- What stands at the front of some bytes. -/
inductive Front where
  /-- A character and what follows it. -/
  | char (c : Char) (rest : List UInt8)
  /-- Bytes that begin no character, and what follows them. -/
  | malformed (rest : List UInt8)

/-- How a first byte goes on: the number of further bytes, the bits of its
own, and the range of the second byte. -/
def lead? (b : UInt8) : Option (Nat × Nat × UInt8 × UInt8) :=
  if b < 0x80 then some (0, b.toNat, 0, 0)
  else if b < 0xc2 then none
  else if b < 0xe0 then some (1, b.toNat - 0xc0, 0x80, 0xbf)
  else if b == 0xe0 then some (2, 0, 0xa0, 0xbf)
  else if b == 0xed then some (2, 0xd, 0x80, 0x9f)
  else if b < 0xf0 then some (2, b.toNat - 0xe0, 0x80, 0xbf)
  else if b == 0xf0 then some (3, 0, 0x90, 0xbf)
  else if b == 0xf4 then some (3, 4, 0x80, 0x8f)
  else if b < 0xf4 then some (3, b.toNat - 0xf0, 0x80, 0xbf)
  else none

/-- Takes the further bytes of a character; the first of them has a range of
its own. -/
def further : Nat → Nat → UInt8 → UInt8 → List UInt8 → Front
  | 0, code, _, _, rest => .char (Char.ofNat code) rest
  | _ + 1, _, _, _, [] => .malformed []
  | more + 1, code, low, high, b :: rest =>
    if low ≤ b ∧ b ≤ high then further more (code * 64 + (b.toNat - 0x80)) 0x80 0xbf rest
    else .malformed (b :: rest)

/-- The front of bytes that begin with `b`. -/
def front (b : UInt8) (rest : List UInt8) : Front :=
  match lead? b with
  | none => .malformed rest
  | some (more, code, low, high) => further more code low high rest

/-- Text with a replacement character for each malformed piece, and whether
there was one. The fuel is the number of bytes. -/
def scan : Nat → List UInt8 → List Char × Bool
  | 0, _ => ([], false)
  | _ + 1, [] => ([], false)
  | fuel + 1, b :: rest =>
    match front b rest with
    | .char c rest =>
      let (cs, bad) := scan fuel rest
      (c :: cs, bad)
    | .malformed rest =>
      let (cs, _) := scan fuel rest
      ('\ufffd' :: cs, true)

/-- Bytes as text, if they are UTF-8. -/
def decode? (bs : List UInt8) : Option String :=
  match scan bs.length bs with
  | (cs, false) => some (String.ofList cs)
  | (_, true) => none

/-- Bytes as text, with a replacement character for each malformed piece. -/
def decodeLossy (bs : List UInt8) : String := String.ofList (scan bs.length bs).1

/-- The bytes of one character. -/
def encodeChar (c : Char) : List UInt8 :=
  let n := c.toNat
  let tail (k : Nat) : UInt8 := UInt8.ofNat (0x80 + n / Nat.pow 64 k % 64)
  if n < 0x80 then [UInt8.ofNat n]
  else if n < 0x800 then [UInt8.ofNat (0xc0 + n / 64), tail 0]
  else if n < 0x10000 then [UInt8.ofNat (0xe0 + n / 4096), tail 1, tail 0]
  else [UInt8.ofNat (0xf0 + n / 262144), tail 2, tail 1, tail 0]

/-- The bytes of a text. -/
def encode (s : String) : List UInt8 := s.toList.flatMap encodeChar

end Retype.Utf8
