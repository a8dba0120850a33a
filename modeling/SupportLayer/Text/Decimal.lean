/-
# Decimal text of whole numbers

A natural number is its base-ten digits without leading zeros; an integer is that of its
magnitude behind a minus sign if it is negative.

Key definitions: `Decimal.digits`, `Decimal.integer`, `Decimal.hex`.
Key theorem: `Decimal.foldl_digits`.
-/

namespace SupportLayer.Decimal

/-- The digits of a natural number, most significant first. -/
def digits (n : Nat) : List Char := Nat.toDigits 10 n

theorem digits_ne_nil (n : Nat) : digits n ≠ [] := Nat.toDigits_ne_nil

theorem isDigit_of_mem_digits {n : Nat} {c : Char} (h : c ∈ digits n) : c.isDigit = true :=
  Nat.isDigit_of_mem_toDigits (by decide) (by decide) h

theorem foldl_digits (n : Nat) :
    (digits n).foldl (fun m c => 10 * m + (c.toNat - '0'.toNat)) 0 = n :=
  Nat.ofDigitChars_ten_toDigits

/-- The sign that stands in front of an integer: a minus if it is negative. -/
def sign (n : Int) : List Char := if n < 0 then ['-'] else []

/-- The text of an integer. -/
def integer (n : Int) : List Char := sign n ++ digits n.natAbs

/-- The text of an integer, as a string. -/
def text (n : Int) : String := String.ofList (integer n)

/-- The text of a natural number in base sixteen, in small letters. -/
def hex (n : Nat) : List Char := Nat.toDigits 16 n

end SupportLayer.Decimal
