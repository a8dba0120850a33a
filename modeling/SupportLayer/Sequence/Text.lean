/-
# The text of sequences

A sequence is shown as `[ 1, 2, 3 ]`, and as `[ ]` when it is empty. Its elements are shown plain,
in no style of their own: what a placeholder asks for is not handed on to them. The text is made
in pieces, as it is sent to a sink. The quoted form is the list of the quoted elements.

A formatter stands between the pieces and the sink. It hears of a failed write that it failed, and
stops; the reason waits beside the sink until the formatter is done.

Key definitions: `Shown`, `Sequence.pieces`, `Sequence.display`, `Stream`, `Sequence.writeTo`.
-/
import SupportLayer.Print.Style
import SupportLayer.Sequence.Basic
import SupportLayer.Sink
import SupportLayer.Text.Quoted

namespace SupportLayer

open Print (Style)

/-- Values that can be shown in a style: plain, in the pieces in which they are written, and
quoted. -/
class Shown (α : Type) where
  pieces : Style → α → List (List Char)
  quoted : Style → α → List Char

namespace Shown

/-- The plain text of a value in a style. -/
def display {α : Type} [Shown α] (style : Style) (a : α) : List Char := (pieces style a).flatten

instance : Shown Int64 where
  pieces style n := style.integerPieces n.toInt
  quoted style n := style.integer n.toInt

instance : Shown UInt64 where
  pieces style n := style.integerPieces n.toNat
  quoted style n := style.integer n.toNat

instance : Shown String where
  pieces style s := style.textPieces s.toList
  quoted _ s := Quoted.quote s.toList

@[simp] theorem display_int64 (n : Int64) : display {} n = Decimal.integer n.toInt :=
  Style.flatten_integerPieces _

@[simp] theorem display_uint64 (n : UInt64) : display {} n = Decimal.integer n.toNat :=
  Style.flatten_integerPieces _

@[simp] theorem display_string (s : String) : display {} s = s.toList :=
  Style.flatten_textPieces _

end Shown

/-- A sink behind a formatter, and how its writes went so far. -/
structure Stream where
  sink : Sink
  outcome : Except StreamError Unit := .ok ()

namespace Stream

/-- Writes a piece of text; the formatter is told whether that went well. -/
def put (stream : Stream) (piece : List Char) : Bool × Stream :=
  match stream.sink.writeAll (Utf8.encode piece) with
  | (.ok (), sink) => (true, { stream with sink })
  | (.error cause, sink) => (false, ⟨sink, .error cause⟩)

/-- Writes pieces one after the other, up to the first that fails. -/
def puts (stream : Stream) : List (List Char) → Bool × Stream
  | [] => (true, stream)
  | piece :: pieces =>
    match stream.put piece with
    | (true, stream) => stream.puts pieces
    | (false, stream) => (false, stream)

end Stream

namespace Sequence

variable {α : Type} [Shown α]

/-- The pieces of elements from index `i` on: a space and the element, and a comma behind it
unless its index is `last`. -/
def elementPieces (last : Nat) : Nat → List α → List (List Char)
  | _, [] => []
  | i, a :: rest =>
    [' '] :: Shown.pieces {} a ++ (if i ≠ last then [[',']] else []) ++
      elementPieces last (i + 1) rest

/-- The pieces of a sequence. -/
def pieces (s : Sequence α) : List (List Char) :=
  ['['] :: elementPieces (s.length - 1) 0 s.toList ++ [[' ', ']']]

/-- The quoted form of a sequence. -/
def quoted (style : Style) (s : Sequence α) : List Char :=
  style.list (s.toList.map (Shown.quoted style))

instance : Shown (Sequence α) where
  pieces _ := pieces
  quoted := quoted

/-- The text of a sequence. -/
def display (s : Sequence α) : List Char := Shown.display {} s

/-- Sends a sequence to a sink piece by piece, then flushes it if no write failed. -/
def writeTo (sink : Sink) (s : Sequence α) : Except StreamError Unit × Sink :=
  match (Stream.mk sink (.ok ())).puts (Shown.pieces {} s) with
  | (true, stream) => stream.sink.flush
  | (false, stream) => (stream.outcome, stream.sink)

end Sequence

end SupportLayer
