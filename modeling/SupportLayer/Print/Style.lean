/-
# Styles of text

How a placeholder wants its argument: plain or quoted, and if quoted, on one line or with
each element of a list on its own; how wide, on which side, with what fill; whether a sign
is always written, whether zeros fill the width, how many characters are kept.

Numbers and plain strings follow the style. A quoted string ignores it but for the quotes,
and a quoted list hands it on to its elements.

Key definitions: `Print.Style`, `Print.Style.padded`, `Print.Style.integerPieces`,
`Print.Style.textPieces`, `Print.Style.list`.
Key theorems: `Print.Style.flatten_integerPieces`, `Print.Style.flatten_textPieces`.
-/
import SupportLayer.Text.Decimal

namespace SupportLayer.Print

/-- The side on which a text stands in its width. -/
inductive Align where
  | left | center | right
  deriving DecidableEq, Repr

/-- The form of a placeholder: as it is, quoted, or quoted over several lines. -/
inductive Form where
  | plain | quoted | tall
  deriving DecidableEq, Repr

/-- What a placeholder asks for. -/
structure Style where
  fill : Char := ' '
  align : Option Align := none
  plus : Bool := false
  zeros : Bool := false
  width : Nat := 0
  precision : Option Nat := none
  form : Form := .plain
  deriving DecidableEq, Repr

namespace Style

/-- The pieces of a text with the fill that brings it up to the width. If it stands in the middle,
an odd fill goes right. -/
def padded (style : Style) (side : Align) (pieces : List (List Char)) : List (List Char) :=
  let missing := style.width - pieces.flatten.length
  let left := match style.align.getD side with
    | .left => 0
    | .center => missing / 2
    | .right => missing
  List.replicate left style.fill :: pieces ++ [List.replicate (missing - left) style.fill]

/-- The sign that a number is written with. -/
def sign (style : Style) (n : Int) : List Char :=
  if 0 ≤ n ∧ style.plus then ['+'] else Decimal.sign n

/-- The pieces of a number: its sign, then zeros if they fill the width; else padded on the
left. -/
def integerPieces (style : Style) (n : Int) : List (List Char) :=
  let sign := style.sign n
  let digits := Decimal.digits n.natAbs
  if style.zeros then
    [sign, List.replicate (style.width - (sign.length + digits.length)) '0', digits]
  else style.padded .right [sign, digits]

/-- A number. -/
def integer (style : Style) (n : Int) : List Char := (style.integerPieces n).flatten

/-- The pieces of a plain string: cut to the characters that are kept, then padded on the
right. -/
def textPieces (style : Style) (text : List Char) : List (List Char) :=
  style.padded .left [match style.precision with
    | some n => text.take n
    | none => text]

/-- Without a style, a number is its decimal text. -/
@[simp] theorem flatten_integerPieces (n : Int) :
    (({} : Style).integerPieces n).flatten = Decimal.integer n := by
  simp [integerPieces, padded, sign, Decimal.integer]

@[simp] theorem flatten_textPieces (text : List Char) :
    (({} : Style).textPieces text).flatten = text := by
  simp [textPieces, padded]

/-- A text moved four columns to the right. -/
def indent (text : List Char) : List Char :=
  "    ".toList ++ text.flatMap fun c => if c = '\n' then c :: "    ".toList else [c]

/-- A quoted list of elements that are already quoted. -/
def list (style : Style) (elements : List (List Char)) : List Char :=
  match style.form with
  | .tall =>
    if elements = [] then "[]".toList
    else "[\n".toList ++ (elements.flatMap fun e => indent e ++ ",\n".toList) ++ [']']
  | _ => '[' :: (", ".toList).intercalate elements ++ [']']

end Style

end SupportLayer.Print
