/-
# Showing a place in a text

A report shows the line in which a place starts, with its number, and carets under the
place: one for each byte of it, but no more than the line has left, and at least one.
Columns count characters.

Key definitions: `Toml.Position`, `Toml.position`, `Toml.report`.
-/
import SupportLayer.Text.Decimal
import SupportLayer.Toml.Node

namespace SupportLayer.Toml

/-- The characters before the place from which `n` bytes follow the start of a text, and
those from there on. -/
def splitAtByte (n : Nat) : List Char → List Char × List Char
  | [] => ([], [])
  | c :: rest =>
    if n = 0 then ([], c :: rest)
    else
      let (before, after) := splitAtByte (n - c.utf8Size) rest
      (c :: before, after)

/-- Where a place starts: the number of its line, counted from one, the number of
characters before it in the line, and the line. -/
structure Position where
  line : Nat
  column : Nat
  content : List Char

/-- The position of the start of a place. -/
def position (text : List Char) (span : Span) : Position :=
  let (before, after) := splitAtByte (Utf8.size text - span.start) text
  let head := (before.reverse.takeWhile (· ≠ '\n')).reverse
  { line := before.count '\n' + 1
    column := head.length
    content := head ++ after.takeWhile (· ≠ '\n') }

/-- The number of carets under a place. -/
def carets (span : Span) (p : Position) : Nat :=
  max 1 (min (span.start - span.stop) (Utf8.size p.content - p.column))

/-- The report of a problem at a place. -/
def report (text : List Char) (span : Span) (problem : List Char) : List Char :=
  let p := position text span
  let number := Decimal.digits p.line
  let gutter := List.replicate number.length ' '
  "TOML parse error at line ".toList ++ number ++ ", column ".toList ++
    Decimal.digits (p.column + 1) ++ ['\n'] ++
    gutter ++ " |\n".toList ++
    number ++ " | ".toList ++ p.content ++ ['\n'] ++
    gutter ++ " | ".toList ++ List.replicate p.column ' ' ++
    List.replicate (carets span p) '^' ++ ['\n'] ++
    problem ++ ['\n']

end SupportLayer.Toml
