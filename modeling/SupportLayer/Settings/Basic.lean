/-
# Settings

The few things in which generated code may differ: the dialect it is written in, the width
of the convenience names `int` and `uint`, and whether the long numeric names exist.

Key definitions: `Dialect`, `IntWidth`, `Settings`, `IntWidth.ofBits`, `Settings.lines`.
-/
import SupportLayer.Text.Decimal

namespace SupportLayer

/-- The language that code is generated in. -/
inductive Dialect where
  | c
  | cpp
  deriving DecidableEq, Repr

namespace Dialect

/-- The name of a dialect in a settings file. -/
def key : Dialect → String
  | c => "c"
  | cpp => "cpp"

/-- The name of a dialect in the log. -/
def label : Dialect → String
  | c => "C"
  | cpp => "Cpp"

/-- The dialect with a name. -/
def ofKey? (name : String) : Option Dialect :=
  if name = "c" then some c else if name = "cpp" then some cpp else none

end Dialect

/-- The width of `int` and `uint`. -/
inductive IntWidth where
  | w32
  | w64
  deriving DecidableEq, Repr

namespace IntWidth

/-- The number of bits of a width. -/
def bits : IntWidth → Nat
  | w32 => 32
  | w64 => 64

/-- The width of a number of bits; any other number is handed back. -/
def ofBits (n : Nat) : Except Nat IntWidth :=
  if n = 32 then .ok w32 else if n = 64 then .ok w64 else .error n

/-- Why a number of bits is refused. -/
def refusal (n : Nat) : String := "int_width must be 32 or 64, got " ++ Decimal.text n

end IntWidth

/-- The settings. What is not set is C, 64 bits, without the long names. -/
structure Settings where
  dialect : Dialect := .c
  intWidth : IntWidth := .w64
  legacyAliases : Bool := false
  deriving DecidableEq, Repr

namespace Settings

/-- The defaults. -/
def default : Settings := {}

/-- The line of a settings file that sets the dialect. -/
def dialectLine (s : Settings) : String := "dialect = \"" ++ s.dialect.key ++ "\""

/-- The line that sets the width. -/
def widthLine (s : Settings) : String := "int_width = " ++ Decimal.text s.intWidth.bits

/-- The line that sets the long names. -/
def legacyLine (s : Settings) : String :=
  "legacy_aliases = " ++ (if s.legacyAliases then "true" else "false")

/-- The lines that set everything, in the order of the fields. -/
def lines (s : Settings) : List String := [s.dialectLine, s.widthLine, s.legacyLine]

/-- The text of those lines, each with its end. -/
def text (s : Settings) : String := String.join (s.lines.map (· ++ "\n"))

end Settings

end SupportLayer
