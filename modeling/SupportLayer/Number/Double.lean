/-
# Doubles, read from decimals

A double is a mantissa times a power of two, an infinity, or not a number. A decimal is
read as the double nearest to it, and of two equally near as the one with the even
mantissa; beyond the largest double it is an infinity. All of it is exact arithmetic on
natural numbers.

Key definitions: `Double`, `Double.roundQuotient`, `Double.ofQuotient`, `Double.ofDecimal`.
-/

namespace SupportLayer

/-- A double. The finite ones are `mantissa * 2 ^ exponent` with their sign; the mantissa
is below `mantissaLimit`, and at least `leastMantissa` unless the exponent is the least. -/
inductive Double where
  | finite (negative : Bool) (mantissa : Nat) (exponent : Int)
  | infinite (negative : Bool)
  | notANumber
  deriving DecidableEq, Repr

namespace Double

/-- A power of two. -/
def powerOfTwo (n : Nat) : Nat := Nat.pow 2 n

/-- A power of ten. -/
def powerOfTen (n : Nat) : Nat := Nat.pow 10 n

/-- The mantissa that no double reaches. -/
def mantissaLimit : Nat := powerOfTwo 53

/-- The least mantissa above the least exponent. -/
def leastMantissa : Nat := powerOfTwo 52

/-- The least exponent of a double. -/
def leastExponent : Int := -1074

/-- The greatest exponent of a double. -/
def greatestExponent : Int := 971

/-- The whole number nearest to `num / den`, the even one of two equally near. -/
def roundQuotient (num den : Nat) : Nat :=
  let quotient := num / den
  let twice := 2 * (num % den)
  if twice < den ∨ (twice = den ∧ quotient % 2 = 0) then quotient else quotient + 1

/-- The quotient `num / den` in units of `2 ^ exponent`, as numerator and denominator. -/
def inUnits (num den : Nat) (exponent : Int) : Nat × Nat :=
  (num * powerOfTwo (-exponent).toNat, den * powerOfTwo exponent.toNat)

/-- The exponent of the double nearest to a positive quotient, before rounding. -/
def unitExponent (num den : Nat) : Int :=
  let guess : Int := (Nat.log2 num : Int) - (Nat.log2 den : Int) - 53
  let scaled := inUnits num den guess
  let exponent := if mantissaLimit * scaled.2 ≤ scaled.1 then guess + 1 else guess
  max exponent leastExponent

/-- The double nearest to a quotient. -/
def ofQuotient (negative : Bool) (num den : Nat) : Double :=
  if num = 0 then .finite negative 0 leastExponent
  else
    let exponent := unitExponent num den
    let scaled := inUnits num den exponent
    let mantissa := roundQuotient scaled.1 scaled.2
    let (mantissa, exponent) :=
      if mantissa = mantissaLimit then (leastMantissa, exponent + 1) else (mantissa, exponent)
    if greatestExponent < exponent then .infinite negative
    else .finite negative mantissa exponent

/-- The double nearest to `digits * 10 ^ power`. A decimal with so large or so small a power
that it cannot be near any finite double but zero is settled without writing it out. -/
def ofDecimal (negative : Bool) (digits : Nat) (power : Int) : Double :=
  if digits = 0 then .finite negative 0 leastExponent
  else if 400 < power then .infinite negative
  else if power + (Nat.log2 digits + 1 : Int) < -400 then .finite negative 0 leastExponent
  else ofQuotient negative (digits * powerOfTen power.toNat) (powerOfTen (-power).toNat)

end Double

end SupportLayer
