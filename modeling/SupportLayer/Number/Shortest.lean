/-
# The shortest text of a double

A finite double is written with the fewest digits that read back as it, and with those
nearest to it among them; always positionally, with a point and at least one digit on
either side of it. The candidates with `n` digits are the two neighbours of the value on
the decimal grid of `n` digits; without any digit, the one candidate is the power of ten
above the value. Seventeen digits always suffice.

Key definitions: `Double.interval`, `Double.shortest`, `Double.text`.
-/
import SupportLayer.Number.Double
import SupportLayer.Text.Decimal

namespace SupportLayer.Double

/-- The numbers that read back as a double: those between `low / den` and `high / den`, the
ends included or not; the double itself is `value / den`. -/
structure Interval where
  low : Nat
  value : Nat
  high : Nat
  den : Nat
  closed : Bool

/-- The interval of a finite double. Its lower half is narrower where the doubles below it
lie closer together. -/
def interval (mantissa : Nat) (exponent : Int) : Interval :=
  let scale := powerOfTwo (exponent - 2).toNat
  let gap := if mantissa = leastMantissa ∧ leastExponent < exponent then 1 else 2
  { low := (4 * mantissa - gap) * scale
    value := 4 * mantissa * scale
    high := (4 * mantissa + 2) * scale
    den := powerOfTwo (2 - exponent).toNat
    closed := mantissa % 2 = 0 }

/-- The number `digits * 10 ^ power` lies in an interval. -/
def Interval.holds (i : Interval) (digits : Nat) (power : Int) : Bool :=
  let x := digits * powerOfTen power.toNat * i.den
  let low := i.low * powerOfTen (-power).toNat
  let high := i.high * powerOfTen (-power).toNat
  if i.closed then low ≤ x && x ≤ high else low < x && x < high

/-- The number of digits before the point of a positive quotient; zero or less counts the
zeros behind the point. -/
def magnitude (num den : Nat) : Int :=
  if den ≤ num then (Decimal.digits (num / den)).length
  else
    match (List.range 400).find? fun j => den ≤ num * powerOfTen (j + 1) with
    | some j => -(j : Int)
    | none => -400

/-- A decimal: digits and a power of ten. -/
structure Candidate where
  digits : Nat
  power : Int

/-- The value of an interval on the grid of a power of ten: the grid point below it, and
whether the one above is nearer. -/
def below (i : Interval) (power : Int) : Nat × Bool :=
  let num := i.value * powerOfTen (-power).toNat
  let den := i.den * powerOfTen power.toNat
  (num / den, den ≤ 2 * (num % den))

/-- The neighbour of the value on the grid of a power of ten that reads back, the nearer
one if both do. -/
def onGrid (i : Interval) (power : Int) : Option Candidate :=
  let (floor, upper) := below i power
  let lowFits := 0 < floor && i.holds floor power
  let highFits := i.holds (floor + 1) power
  if lowFits && (!highFits || !upper) then some ⟨floor, power⟩
  else if highFits then some ⟨floor + 1, power⟩
  else none

/-- The shortest decimal that reads back as a double that is not zero. -/
def shortest (mantissa : Nat) (exponent : Int) : Candidate :=
  let i := interval mantissa exponent
  let size := magnitude i.value i.den
  match (List.range 18).findSome? fun (n : Nat) => onGrid i (size - (n : Int)) with
  | some c => c
  | none => ⟨mantissa, exponent⟩

/-- A decimal written positionally. -/
def positional (c : Candidate) : List Char :=
  let digits := Decimal.digits c.digits
  if 0 ≤ c.power then digits ++ List.replicate c.power.toNat '0' ++ ['.', '0']
  else
    let places := (-c.power).toNat
    let padded := List.replicate (places + 1 - digits.length) '0' ++ digits
    padded.take (padded.length - places) ++ '.' :: padded.drop (padded.length - places)

/-- The text of a double. -/
def text : Double → List Char
  | .notANumber => ['N', 'a', 'N']
  | .infinite negative => (if negative then ['-'] else []) ++ ['i', 'n', 'f']
  | .finite negative mantissa exponent =>
    (if negative then ['-'] else []) ++
      (if mantissa = 0 then ['0', '.', '0'] else positional (shortest mantissa exponent))

end SupportLayer.Double
