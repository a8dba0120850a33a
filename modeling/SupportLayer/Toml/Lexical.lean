/-
# Characters, blanks, comments and the ends of lines

The smallest pieces of a TOML text. A line ends with a line feed, alone or behind a
carriage return; a carriage return by itself is nothing. Text and comments may hold tabs
and everything that is not an ASCII control.

Key definitions: `Toml.isBlank`, `Toml.isTextual`, `Toml.skipBlanks`, `Toml.newline?`,
`Toml.lineEnd?`, `Toml.skipFiller`.
-/

namespace SupportLayer.Toml

/-- A space or a tab. -/
def isBlank (c : Char) : Bool := c = ' ' || c = '\t'

/-- A character that text and comments may hold. -/
def isTextual (c : Char) : Bool := c = '\t' || (' ' ≤ c && c ≠ '\x7f')

/-- A decimal digit. -/
def isDigit (c : Char) : Bool := '0' ≤ c && c ≤ '9'

/-- The value of a hexadecimal digit of either case. -/
def hexDigit? (c : Char) : Option Nat :=
  if isDigit c then some (c.toNat - '0'.toNat)
  else if 'a' ≤ c && c ≤ 'f' then some (c.toNat - 'a'.toNat + 10)
  else if 'A' ≤ c && c ≤ 'F' then some (c.toNat - 'A'.toNat + 10)
  else none

/-- What is left behind spaces and tabs. -/
def skipBlanks (s : List Char) : List Char := s.dropWhile isBlank

/-- What is left behind one end of a line. -/
def newline? : List Char → Option (List Char)
  | '\n' :: rest => some rest
  | '\r' :: '\n' :: rest => some rest
  | _ => none

/-- What is left behind a comment, if one starts here. -/
def skipComment : List Char → List Char
  | '#' :: rest => rest.dropWhile isTextual
  | s => s

/-- What is left behind the rest of a line: blanks, perhaps a comment, and the end of the
line or of the text. -/
def lineEnd? (s : List Char) : Option (List Char) :=
  match skipComment (skipBlanks s) with
  | [] => some []
  | rest => newline? rest

/-- What is left behind everything that may stand between the items of an array: blanks,
ends of lines, and comments up to the end of their line. It stops at a character that
belongs to none of them, also inside a comment. -/
def skipFiller (inComment : Bool) : List Char → List Char
  | [] => []
  | '\n' :: rest => skipFiller false rest
  | '\r' :: '\n' :: rest => skipFiller false rest
  | c :: rest =>
    if inComment then if isTextual c then skipFiller true rest else c :: rest
    else if isBlank c then skipFiller false rest
    else if c = '#' then skipFiller true rest
    else c :: rest

end SupportLayer.Toml
