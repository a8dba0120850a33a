/-
# Text between quotes

The form in which reports show a text: between double quotes, with a backslash before a
quote or a backslash, the short names of NUL, tab, newline and carriage return, and the
number of every other character that has no mark of its own.

Key definitions: `Quoted.escape`, `Quoted.quote`.
-/
import SupportLayer.Text.Decimal
import SupportLayer.Text.Unmarked

namespace SupportLayer.Quoted

/-- How a character is shown between quotes. -/
def escape (c : Char) : List Char :=
  if c = '"' then ['\\', '"']
  else if c = '\\' then ['\\', '\\']
  else if c = '\x00' then ['\\', '0']
  else if c = '\t' then ['\\', 't']
  else if c = '\n' then ['\\', 'n']
  else if c = '\r' then ['\\', 'r']
  else if Text.isUnmarked c then ['\\', 'u', '\x7b'] ++ Decimal.hex c.toNat ++ ['\x7d']
  else [c]

/-- A text between quotes. -/
def quote (text : List Char) : List Char :=
  '"' :: text.flatMap escape ++ ['"']

end SupportLayer.Quoted
