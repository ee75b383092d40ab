/-
The fewest decimal digits that tell a binary number from all others.

A decimal tells the number if it lies in the interval of values that round to it.  For one digit,
then two and so on the two neighbours of the number with so many digits are tried; the nearer one
inside the interval is taken, and of two equally near ones that with the even last digit.
-/
import SchemaPaths.Decimal.Binary

namespace SchemaPaths
namespace Decimal
namespace Shortest

/-- A number with the bounds of its interval, in quarters of its last place: `number / den` and so
on.  The ends belong to it when the mantissa is even. -/
structure Interval where
  low : Nat
  number : Nat
  high : Nat
  den : Nat
  closed : Bool

/-- Below the least mantissa of 53 bits the numbers lie twice as close. -/
def interval (mantissa : Nat) (exponent : Int) : Interval :=
  let close := mantissa == Nat.pow 2 (Binary.precision - 1) && Binary.leastExponent < exponent
  let scale (n : Nat) : Nat := if 0 ≤ exponent then n * Nat.pow 2 exponent.toNat else n
  { low := scale (4 * mantissa - (if close then 1 else 2))
    number := scale (4 * mantissa)
    high := scale (4 * mantissa + 2)
    den := if 0 ≤ exponent then 4 else 4 * Nat.pow 2 (-exponent).toNat
    closed := mantissa % 2 == 0 }

/-- Whether `n` times a power of ten lies inside. -/
def Interval.holds (i : Interval) (n : Nat) (power : Int) : Bool :=
  let up := if 0 ≤ power then Nat.pow 10 power.toNat else 1
  let down := if 0 ≤ power then 1 else Nat.pow 10 (-power).toNat
  let value := n * up * i.den
  if i.closed then i.low * down ≤ value && value ≤ i.high * down
  else i.low * down < value && value < i.high * down

/-- How many digits stand before the point: the least power of ten above the number. -/
def places (i : Interval) : Int :=
  let estimate : Int := ((i.number.log2 : Int) - (i.den.log2 : Int)) * 30103 / 100000 - 1
  go 4 estimate
where
  below (power : Int) : Bool :=
    if 0 ≤ power then i.number < i.den * Nat.pow 10 power.toNat
    else i.number * Nat.pow 10 (-power).toNat < i.den
  go : Nat → Int → Int
    | 0, power => power
    | fuel + 1, power => if below power then power else go fuel (power + 1)

/-- The neighbour with its last digit at `power` that tells the number, if one does. -/
def neighbour? (i : Interval) (power : Int) : Option Nat :=
  let num := if 0 ≤ power then i.number else i.number * Nat.pow 10 (-power).toNat
  let den := if 0 ≤ power then i.den * Nat.pow 10 power.toNat else i.den
  let floor := num / den
  let nearest := Binary.roundEven num den
  let other := if nearest == floor then floor + 1 else floor
  if i.holds nearest power then some nearest
  else if i.holds other power then some other
  else none

/-- Digits and the power of ten of the last one, with `count` digits or more up to 17. -/
def search (i : Interval) (top : Int) : Nat → Nat → Nat × Int
  | 0, count => ((neighbour? i (top - count)).getD 0, top - count)
  | more + 1, count =>
    match neighbour? i (top - count) with
    | some n => (n, top - count)
    | none => search i top more (count + 1)

/-- The digits of a number above zero, the last of which is not zero, and how many of them, or of
the zeros that follow them, stand before the point. -/
def digits (mantissa : Nat) (exponent : Int) : List Char × Int :=
  let i := interval mantissa exponent
  let (n, power) := search i (places i) 16 1
  let all := (toString n).toList
  ((all.reverse.dropWhile (· == '0')).reverse, all.length + power)

end Shortest
end Decimal
end SchemaPaths
