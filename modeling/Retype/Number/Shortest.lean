import Retype.Number.Double
/-! # The shortest decimal of a double

The decimal with the fewest digits that reads back as the same double, and
of those the one nearest to it. A decimal reads back if it lies in the
interval of reals that round to the double; the ends belong to the interval
when the significand is even. On the grid of decimals with a given number of
digits only the two neighbours of the value need to be looked at.
-/

namespace Retype

/-- A positive decimal: `digits * 10 ^ exponent`. -/
structure Decimal where
  digits : Nat
  exponent : Int
  deriving DecidableEq, Repr, Inhabited

namespace Decimal

/-- The number of decimal digits of a natural number; zero has one. -/
def digitCount (n : Nat) : Nat := (toString n).length

/-- `10 ^ e` for an exponent of either sign, as a quotient. -/
def powerOfTen (e : Int) : Nat × Nat :=
  if 0 ≤ e then (Nat.pow 10 e.toNat, 1) else (1, Nat.pow 10 (-e).toNat)

/-- The exponent of the leading digit of the positive quotient `num / den`. -/
def leadingExponent (num den : Nat) : Int :=
  if den ≤ num then (digitCount (num / den) : Int) - 1
  else
    let guess := digitCount (den / num)
    if num * Nat.pow 10 (guess - 1) ≥ den then -((guess : Int) - 1) else -(guess : Int)

/-- The same decimal without trailing zeros in its digits. -/
def trimmed (d : Decimal) : Decimal :=
  let rec go : Nat → Nat → Int → Decimal
    | 0, n, e => ⟨n, e⟩
    | fuel + 1, n, e => if n % 10 = 0 ∧ n ≠ 0 then go fuel (n / 10) (e + 1) else ⟨n, e⟩
  go (digitCount d.digits) d.digits d.exponent

/-- The exponent of the leading digit of a decimal. -/
def leading (d : Decimal) : Int := d.exponent + (digitCount d.digits : Int) - 1

end Decimal

namespace Double

/-- The ends of the interval of reals that round to a finite positive
number, as `low / den` and `high / den`, with the number itself as
`value / den`. Below a power of two the spacing halves. -/
structure Neighbourhood where
  low : Nat
  value : Nat
  high : Nat
  den : Nat
  closed : Bool

def neighbourhood (x : Double) : Neighbourhood :=
  let m := x.significand
  let lower := if m = 1 <<< 52 ∧ x.exponent > -1074 then 4 * m - 1 else 4 * m - 2
  let scale := if 0 ≤ x.exponent then 1 <<< x.exponent.toNat else 1
  let den := if 0 ≤ x.exponent then 4 else 4 <<< (-x.exponent).toNat
  { low := lower * scale
    value := 4 * m * scale
    high := (4 * m + 2) * scale
    den := den
    closed := m % 2 == 0 }

namespace Neighbourhood

/-- Whether `digits * num / den'` lies in the interval. -/
def contains (n : Neighbourhood) (digits : Nat) (power : Nat × Nat) : Bool :=
  let here := digits * power.1 * n.den
  let low := n.low * power.2
  let high := n.high * power.2
  if n.closed then low ≤ here ∧ here ≤ high else low < here ∧ here < high

/-- The neighbours of the value on the grid of multiples of `power`: the
nearer one that lies in the interval, a tie to the even one. -/
def onGrid (n : Neighbourhood) (power : Nat × Nat) : Option Nat :=
  let num := n.value * power.2
  let den := n.den * power.1
  let below := num / den
  let r := num % den
  let first := if 2 * r < den ∨ (2 * r = den ∧ below % 2 = 0) then below else below + 1
  let second := if first = below then below + 1 else below
  if n.contains first power then some first
  else if n.contains second power then some second
  else none

end Neighbourhood

/-- The shortest decimal of a finite number's magnitude. Zero is `0`. -/
def shortest (x : Double) : Decimal :=
  if x.significand = 0 then ⟨0, 0⟩
  else
    let n := x.neighbourhood
    let leading := Decimal.leadingExponent n.value n.den
    let rec search : Nat → Int → Decimal
      | 0, e => ⟨(n.onGrid (Decimal.powerOfTen e)).getD 0, e⟩
      | more + 1, e =>
        match n.onGrid (Decimal.powerOfTen e) with
        | some digits => ⟨digits, e⟩
        | none => search more (e - 1)
    (search 17 leading).trimmed

/-- The magnitude rounded to a number of significant digits, a tie to the
even digit. -/
def toDigits (x : Double) (count : Nat) : Decimal :=
  if x.significand = 0 then ⟨0, 0⟩
  else
    let n := x.quotient
    let e := Decimal.leadingExponent n.1 n.2 - ((count : Int) - 1)
    let power := Decimal.powerOfTen e
    (Decimal.mk (roundQuotient (n.1 * power.2) (n.2 * power.1)) e).trimmed

end Double

end Retype
