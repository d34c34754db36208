/-! # Hexadecimal digits

Lower-case hexadecimal text of a fixed width, the value of a digit, and bytes
as two digits each.
-/

namespace Retype.Hex

/-- The lower-case digit of a value below sixteen. -/
def digit (n : Nat) : Char :=
  if n < 10 then Char.ofNat (0x30 + n) else Char.ofNat (0x57 + n)

/-- The last `width` hexadecimal digits of `n`, leading zeros kept. -/
def padded : Nat → Nat → List Char
  | 0, _ => []
  | width + 1, n => padded width (n / 16) ++ [digit (n % 16)]

/-- The value of a hexadecimal digit of either case. -/
def value? (c : Char) : Option Nat :=
  let n := c.toNat
  if 0x30 ≤ n ∧ n ≤ 0x39 then some (n - 0x30)
  else if 0x61 ≤ n ∧ n ≤ 0x66 then some (n - 0x57)
  else if 0x41 ≤ n ∧ n ≤ 0x46 then some (n - 0x37)
  else none

/-- Bytes as text. -/
def ofBytes (bytes : List UInt8) : List Char := bytes.flatMap fun b => padded 2 b.toNat

/-- The bytes of a text, up to the first pair of characters that is no byte. -/
def toBytes : List Char → List UInt8
  | a :: b :: rest =>
    match value? a, value? b with
    | some high, some low => UInt8.ofNat (high * 16 + low) :: toBytes rest
    | _, _ => []
  | _ => []

end Retype.Hex
