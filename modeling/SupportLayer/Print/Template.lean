/-
# Printing by templates

The checked convention: a template of text and placeholders in braces, known before the
program runs to fit its arguments. A placeholder takes the next argument or the one with
its number, in a style; doubled braces are plain ones, and a percent sign is plain text.

Key definitions: `Print.Piece`, `Print.Template`, `Print.Template.parse?`, `Print.Value`,
`Print.Value.shown`, `Print.Template.render?`, `Print.writeChecked`, `Print.printChecked`.
-/
import SupportLayer.Print.Directive
import SupportLayer.Sequence.Text

namespace SupportLayer.Print

/-- A stretch of text, or a placeholder for an argument. -/
inductive Piece where
  | literal (text : List Char)
  | placeholder (argument : Nat) (style : Style)
  deriving DecidableEq, Repr

/-- A template: its pieces, in order. -/
abbrev Template := List Piece

/-- An argument of the checked convention. -/
inductive Value where
  | integer (n : Int64)
  | text (s : String)
  | integers (s : Sequence Int64)
  | texts (s : Sequence String)

/-- A value that can be shown, in the form that a style asks for. -/
def Style.shown {α : Type} [Shown α] (style : Style) (a : α) : List Char :=
  if style.form = .plain then Shown.display style a else Shown.quoted style a

/-- The text of an argument in a style. -/
def Value.shown (style : Style) : Value → List Char
  | integer n => style.shown n
  | text s => style.shown s
  | integers s => style.shown s
  | texts s => style.shown s

namespace Template

/-- A decimal number at the start of a text, if there is one, and what follows it. -/
def number? (s : List Char) : Option Nat × List Char :=
  let digits := s.takeWhile Char.isDigit
  let value := digits.foldl (fun n c => 10 * n + (c.toNat - '0'.toNat)) 0
  (if digits = [] then none else some value, s.dropWhile Char.isDigit)

/-- The side that a character asks for. -/
def align? (c : Char) : Option Align :=
  if c = '<' then some .left else if c = '^' then some .center
  else if c = '>' then some .right else none

/-- The side, and the fill in front of it, that a style starts with. -/
def alignment (style : Style) : List Char → Style × List Char
  | fill :: side :: rest =>
    match align? side, align? fill with
    | some a, _ => ({ style with fill, align := some a }, rest)
    | none, some a => ({ style with align := some a }, side :: rest)
    | none, none => (style, fill :: side :: rest)
  | [side] =>
    match align? side with
    | some a => ({ style with align := some a }, [])
    | none => (style, [side])
  | [] => (style, [])

/-- Whether a text starts with a character, and what follows it. -/
def flag (c : Char) : List Char → Bool × List Char
  | x :: rest => if x = c then (true, rest) else (false, x :: rest)
  | [] => (false, [])

/-- The precision that a style has behind its width. -/
def precision : List Char → Option Nat × List Char
  | '.' :: rest => number? rest
  | s => (none, s)

/-- The style behind the colon of a placeholder. -/
def style? (s : List Char) : Option Style :=
  let (style, s) := alignment {} s
  let (plus, s) := flag '+' s
  let (tall, s) := flag '#' s
  let (zeros, s) := flag '0' s
  let (width, s) := number? s
  let (precision, s) := precision s
  let style := { style with plus, zeros, width := width.getD 0, precision }
  match s, tall with
  | [], _ => some style
  | ['?'], true => some { style with form := .tall }
  | ['?'], false => some { style with form := .quoted }
  | _, _ => none

/-- The placeholder between two braces, and the number of the argument that is next behind
it. -/
def placeholder? (next : Nat) (inside : List Char) : Option (Piece × Nat) :=
  let (position, rest) := number? inside
  let following := if position.isSome then next else next + 1
  match rest with
  | [] => some (.placeholder (position.getD next) {}, following)
  | ':' :: spec => (style? spec).map fun style =>
    (.placeholder (position.getD next) style, following)
  | _ => none

/-- Where the reading of a template stands: in its text, behind a brace that may be doubled,
or in a placeholder, with its characters so far, last first. -/
inductive Reading where
  | text
  | opened
  | closed
  | inside (spec : List Char)

/-- The pieces of a template from where its reading stands. -/
def pieces? (next : Nat) : Reading → List Char → Option Template
  | .text, [] => some []
  | _, [] => none
  | .text, c :: rest =>
    if c = '\x7b' then pieces? next .opened rest
    else if c = '\x7d' then pieces? next .closed rest
    else (pieces? next .text rest).map (.literal [c] :: ·)
  | .closed, c :: rest =>
    if c = '\x7d' then (pieces? next .text rest).map (.literal ['\x7d'] :: ·) else none
  | .opened, c :: rest =>
    if c = '\x7b' then (pieces? next .text rest).map (.literal ['\x7b'] :: ·)
    else if c = '\x7d' then
      (pieces? (next + 1) .text rest).map (.placeholder next {} :: ·)
    else pieces? next (.inside [c]) rest
  | .inside spec, c :: rest =>
    if c = '\x7d' then
      match placeholder? next spec.reverse with
      | some (piece, following) => (pieces? following .text rest).map (piece :: ·)
      | none => none
    else pieces? next (.inside (c :: spec)) rest

/-- The template that a text spells. -/
def parse? (text : String) : Option Template := pieces? 0 .text text.toList

/-- The text of a piece, if its argument is there. -/
def pieceText? (args : List Value) : Piece → Option (List Char)
  | .literal text => some text
  | .placeholder argument style => args[argument]?.map (Value.shown style)

/-- The text of a template, if it fits its arguments. -/
def render? (template : Template) (args : List Value) : Option (List Char) :=
  (template.mapM (pieceText? args)).map List.flatten

end Template

/-- A failed write as a fault. -/
def faultOf {α : Type} : Except StreamError α → Except Fault α
  | .ok a => .ok a
  | .error cause => .error (.writeFailure cause)

/-- Writes the line of a rendered template. -/
def writeChecked (sink : Sink) (text : List Char) : Except Fault Nat × Sink :=
  let (answer, sink) := writeLine sink (Utf8.encode text)
  (faultOf answer, sink)

/-- The same for standard output, where a failed write is logged. -/
def printChecked (stdout : Sink) (text : List Char) : Printed Fault Nat :=
  match writeChecked stdout text with
  | (.ok count, sink) => ⟨.ok count, sink, []⟩
  | (.error fault, sink) => ⟨.error fault, sink, [.checkedPrintFailed fault]⟩

end SupportLayer.Print
