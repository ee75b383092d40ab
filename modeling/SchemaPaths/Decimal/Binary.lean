/-
Binary numbers of double precision, and the one that is nearest to a decimal.

A finite number is a mantissa times a power of two.  The mantissa has at most 53 bits, and exactly
53 unless the exponent is the least there is, so every number has one form.
-/
namespace SchemaPaths
namespace Decimal

inductive Binary where
  | finite (negative : Bool) (mantissa : Nat) (exponent : Int)
  | infinite (negative : Bool)
  | notNumber
deriving DecidableEq, Repr

namespace Binary

def precision : Nat := 53
def leastExponent : Int := -1074
def greatestExponent : Int := 971

/-- A quotient rounded to a whole number, a half to the even one. -/
def roundEven (num den : Nat) : Nat :=
  let q := num / den
  let r := num % den
  if 2 * r < den then q
  else if den < 2 * r then q + 1
  else if q % 2 == 0 then q else q + 1

/-- `num / den` over a power of two, as a quotient again. -/
def scale (num den : Nat) (exponent : Int) : Nat × Nat :=
  if 0 ≤ exponent then (num, den * Nat.pow 2 exponent.toNat)
  else (num * Nat.pow 2 (-exponent).toNat, den)

/-- The exponent at which a quotient has a mantissa of 53 bits before it is rounded, or the
least. -/
def exponentFor (num den : Nat) : Int :=
  let low : Int := (num.log2 : Int) - (den.log2 : Int) - (precision : Int)
  let scaled := scale num den low
  let fitting := if scaled.1 / scaled.2 < Nat.pow 2 precision then low else low + 1
  max fitting leastExponent

/-- The number nearest to a quotient above zero. -/
def ofQuotient (negative : Bool) (num den : Nat) : Binary :=
  let e := exponentFor num den
  let scaled := scale num den e
  let m := roundEven scaled.1 scaled.2
  let (m, e) := if m == Nat.pow 2 precision then (Nat.pow 2 (precision - 1), e + 1) else (m, e)
  if greatestExponent < e then .infinite negative else .finite negative m e

/-- Powers of ten beyond which all numbers are infinite, or zero. -/
def greatestPower : Int := 310
def leastPower : Int := -330

def zero (negative : Bool) : Binary := .finite negative 0 leastExponent

/-- The number nearest to `digits` times a power of ten.  `count` is how many digits there are. -/
def ofDecimal (negative : Bool) (digits count : Nat) (power : Int) : Binary :=
  if digits == 0 then zero negative
  else if greatestPower < power + count then .infinite negative
  else if power + count < leastPower then zero negative
  else if 0 ≤ power then ofQuotient negative (digits * Nat.pow 10 power.toNat) 1
  else ofQuotient negative digits (Nat.pow 10 (-power).toNat)

end Binary
end Decimal
end SchemaPaths
