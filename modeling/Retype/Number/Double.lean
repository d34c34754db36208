/-! # Doubles

Binary floating-point numbers of 64 bits, held by their bits, with the few
operations a tree needs: sign, whole part, negation, order, sum, and the
number nearest to an exact quotient. Everything is exact arithmetic on the
significand and the exponent; no rounding happens except in `ofQuotient`.
-/

namespace Retype

/-- A 64-bit floating-point number, given by its bits: one for the sign,
eleven for the exponent, fifty-two for the fraction. -/
structure Double where
  bits : UInt64
  deriving DecidableEq, Repr, Inhabited

namespace Double

/-- The sign bit. It is also set on a negative zero. -/
def sign (x : Double) : Bool := x.bits >>> 63 == 1

/-- The eleven bits of the exponent. -/
def exponentBits (x : Double) : Nat := ((x.bits >>> 52) &&& 0x7ff).toNat

/-- The fifty-two bits of the fraction. -/
def fractionBits (x : Double) : Nat := (x.bits &&& 0xfffffffffffff).toNat

def isFinite (x : Double) : Bool := x.exponentBits != 2047

def isNaN (x : Double) : Bool := x.exponentBits == 2047 && x.fractionBits != 0

def isInfinite (x : Double) : Bool := x.exponentBits == 2047 && x.fractionBits == 0

/-- A finite number is `± significand * 2 ^ exponent`. -/
def significand (x : Double) : Nat :=
  if x.exponentBits == 0 then x.fractionBits else x.fractionBits + 1 <<< 52

/-- A finite number is `± significand * 2 ^ exponent`. -/
def exponent (x : Double) : Int :=
  if x.exponentBits == 0 then -1074 else (x.exponentBits : Int) - 1075

def isZero (x : Double) : Bool := x.isFinite && x.significand == 0

/-- The same number with the other sign. -/
def neg (x : Double) : Double := ⟨x.bits ^^^ 0x8000000000000000⟩

/-- The number with the given sign and the given bits below it. -/
def ofMagnitude (negative : Bool) (bits : Nat) : Double :=
  ⟨UInt64.ofNat (if negative then bits + 1 <<< 63 else bits)⟩

def zero (negative : Bool) : Double := ofMagnitude negative 0

def infinity (negative : Bool) : Double := ofMagnitude negative (2047 <<< 52)

def nan : Double := ofMagnitude false (2047 <<< 52 + 1 <<< 51)

/-- The magnitude of a finite number as a quotient of two natural numbers. -/
def quotient (x : Double) : Nat × Nat :=
  if 0 ≤ x.exponent then (x.significand <<< x.exponent.toNat, 1)
  else (x.significand, 1 <<< (-x.exponent).toNat)

/-- `num / den` to the nearest whole number, a half to the even neighbour. -/
def roundQuotient (num den : Nat) : Nat :=
  let q := num / den
  let r := num % den
  if 2 * r > den ∨ (2 * r = den ∧ q % 2 = 1) then q + 1 else q

/-- The number nearest to `± num / den`, ties to the even significand. The
exponent is the one that leaves fifty-three bits, but never below the least.
A significand that rounds up to the next power of two carries into the
exponent bits by itself. -/
def ofQuotient (negative : Bool) (num den : Nat) : Double :=
  if num = 0 then zero negative
  else
    let guess : Int := (num.log2 : Int) - (den.log2 : Int) - 52
    let scaled (e : Int) : Nat × Nat :=
      if 0 ≤ e then (num, den <<< e.toNat) else (num <<< (-e).toNat, den)
    let full (e : Int) : Bool := (scaled e).1 ≥ (scaled e).2 <<< 52
    let e := max (if full guess then guess else guess - 1) (-1074)
    let m := roundQuotient (scaled e).1 (scaled e).2
    if e > 971 then infinity negative
    else
      let bits := (e + 1074).toNat <<< 52 + m
      if bits ≥ 2047 <<< 52 then infinity negative else ofMagnitude negative bits

/-- The number nearest to `± digits * 10 ^ exponent`. Exponents far outside
the range are settled by their size alone. -/
def ofDecimal (negative : Bool) (digits : Nat) (exponent : Int) : Double :=
  if digits = 0 then zero negative
  else
    let places : Int := (digits.log2 : Int) * 30103 / 100000 + exponent
    if places > 400 then infinity negative
    else if places < -400 then zero negative
    else if 0 ≤ exponent then ofQuotient negative (digits * Nat.pow 10 exponent.toNat) 1
    else ofQuotient negative digits (Nat.pow 10 (-exponent).toNat)

/-- The double nearest to a whole number. -/
def ofInt (i : Int) : Double := ofQuotient (i < 0) i.natAbs 1

/-- A finite number as `mantissa * 2 ^ exponent` with a signed mantissa. -/
def signedSignificand (x : Double) : Int :=
  if x.sign then -(x.significand : Int) else x.significand

/-- The whole part of a finite number, toward zero. -/
def trunc (x : Double) : Int :=
  let m : Int := (x.quotient.1 / x.quotient.2 : Nat)
  if x.sign then -m else m

/-- A finite number without a fractional part. -/
def isWhole (x : Double) : Bool := x.isFinite && x.quotient.1 % x.quotient.2 == 0

/-- Whether a finite number and a whole number are the same number. -/
def isInt (x : Double) (i : Int) : Bool := x.isWhole && x.trunc == i

/-- The key by which numbers are ordered; both zeros have the same. -/
def orderKey (x : Double) : Int :=
  let m : Int := (x.exponentBits <<< 52 + x.fractionBits : Nat)
  if x.sign then -m else m

/-- Strict order; a NaN is below and above nothing. -/
def lt (x y : Double) : Bool := !x.isNaN && !y.isNaN && decide (x.orderKey < y.orderKey)

/-- Order; a NaN is not even below itself. -/
def le (x y : Double) : Bool := !x.isNaN && !y.isNaN && decide (x.orderKey ≤ y.orderKey)

/-- Equality of numbers; both zeros are equal and a NaN differs from itself. -/
def same (x y : Double) : Bool := !x.isNaN && !y.isNaN && x.orderKey == y.orderKey

def isNegative (x : Double) : Bool := x.lt (zero false)

def isPositive (x : Double) : Bool := (zero false).lt x

/-- The number nearest to the exact sum. An infinity absorbs what is finite;
opposite infinities have no sum. -/
def add (x y : Double) : Double :=
  if x.isNaN || y.isNaN then nan
  else if x.isInfinite then (if y.isInfinite && x.sign != y.sign then nan else x)
  else if y.isInfinite then y
  else
    let e := min x.exponent y.exponent
    let sum : Int := x.signedSignificand * (1 <<< (x.exponent - e).toNat : Nat)
      + y.signedSignificand * (1 <<< (y.exponent - e).toNat : Nat)
    if sum = 0 then zero (x.sign && y.sign)
    else if 0 ≤ e then ofQuotient (sum < 0) (sum.natAbs <<< e.toNat) 1
    else ofQuotient (sum < 0) sum.natAbs (1 <<< (-e).toNat)

def sub (x y : Double) : Double := x.add y.neg

/-- The number nearest to the exact product with a positive whole number. -/
def scale (x : Double) (factor : Nat) : Double :=
  if x.isFinite then ofQuotient x.sign (x.quotient.1 * factor) x.quotient.2 else x

end Double

end Retype
