/-
# Numbers

A number is read from the whole run of letters, digits and signs that it is written in, so
a run that is not a number through and through is none. Digits may be parted by single
underscores. Decimal integers have no leading zero and may have a sign; hexadecimal, octal
and binary ones have neither; all must fit in 64 bits. A float has a fraction, an exponent
or both, or is `inf` or `nan`; one that is too large for a double is refused if positive.

Key definitions: `Toml.grouped?`, `Toml.integer?`, `Toml.float?`.
-/
import SupportLayer.Number.Double
import SupportLayer.Toml.Lexical

namespace SupportLayer.Toml

/-- The digits of a run in which every underscore stands between two digits. -/
def grouped? (isDigit : Char → Bool) : List Char → Option (List Char)
  | [] => none
  | [c] => if isDigit c then some [c] else none
  | c :: d :: rest =>
    if isDigit c then
      if d = '_' then (grouped? isDigit rest).map (c :: ·)
      else (grouped? isDigit (d :: rest)).map (c :: ·)
    else none

/-- The number that digits of a base spell. -/
def ofDigits (base : Nat) (digits : List Char) : Nat :=
  digits.foldl (fun n c => n * base + (hexDigit? c).getD 0) 0

/-- A digit of a base of at most sixteen. -/
def isDigitOf (base : Nat) (c : Char) : Bool :=
  match hexDigit? c with
  | some d => d < base
  | none => false

/-- The sign of a run, whether it is a minus, and what follows it. -/
def signed : List Char → Bool × List Char
  | '-' :: rest => (true, rest)
  | '+' :: rest => (false, rest)
  | s => (false, s)

/-- The digits of a decimal whole number without a sign: no leading zero. -/
def wholeDigits? (s : List Char) : Option (List Char) :=
  match grouped? isDigit s with
  | some ['0'] => some ['0']
  | some ('0' :: _) => none
  | digits => digits

/-- An integer that fits in 64 bits. -/
def fitting? (n : Int) : Option Int :=
  if Int64.minValue.toInt ≤ n ∧ n ≤ Int64.maxValue.toInt then some n else none

/-- The integer of a base that digits spell. -/
def integerOfBase? (base : Nat) (s : List Char) : Option Int :=
  (grouped? (isDigitOf base) s).bind fun digits => fitting? (ofDigits base digits)

/-- The integer that a run spells. -/
def integer? : List Char → Option Int
  | '0' :: 'x' :: rest => integerOfBase? 16 rest
  | '0' :: 'o' :: rest => integerOfBase? 8 rest
  | '0' :: 'b' :: rest => integerOfBase? 2 rest
  | s =>
    let (negative, rest) := signed s
    (wholeDigits? rest).bind fun digits =>
      fitting? (if negative then -(ofDigits 10 digits : Int) else ofDigits 10 digits)

/-- The exponent of a float, from behind its letter. -/
def exponent? (s : List Char) : Option Int :=
  let (negative, rest) := signed s
  (grouped? isDigit rest).map fun digits =>
    if negative then -(ofDigits 10 digits : Int) else ofDigits 10 digits

/-- A letter that opens an exponent. -/
def isExponentLetter (c : Char) : Bool := c = 'e' || c = 'E'

/-- The parts of a float without its sign: the digits before and behind the point, and the
exponent. -/
def floatParts? (s : List Char) : Option (List Char × List Char × Int) :=
  let mantissa := s.takeWhile (!isExponentLetter ·)
  let whole := mantissa.takeWhile (· ≠ '.')
  match mantissa.dropWhile (· ≠ '.'), s.dropWhile (!isExponentLetter ·) with
  | [], [] => none
  | [], _ :: power => do pure (← wholeDigits? whole, [], ← exponent? power)
  | _ :: fraction, [] => do pure (← wholeDigits? whole, ← grouped? isDigit fraction, 0)
  | _ :: fraction, _ :: power => do
    pure (← wholeDigits? whole, ← grouped? isDigit fraction, ← exponent? power)

/-- The float that a run spells. -/
def float? (s : List Char) : Option Double :=
  let (negative, rest) := signed s
  if rest = ['i', 'n', 'f'] then some (.infinite negative)
  else if rest = ['n', 'a', 'n'] then some .notANumber
  else
    match floatParts? rest with
    | none => none
    | some (whole, fraction, power) =>
      let x := Double.ofDecimal negative (ofDigits 10 (whole ++ fraction)) (power - fraction.length)
      if x = .infinite false then none else some x

end SupportLayer.Toml
