/-
# Handles

Generated C code holds sequences of 64-bit slots by handles. A shelf keeps the live
sequences; a handle is null or the number under which one stands. The null handle reads as
a sequence that is empty for good: nothing is stored through it. Numbers are never used
twice, so a handle that was freed reads as null. A panic does not cross the boundary to C:
asking for more room than there can be ends the program.

Key definitions: `Shelf`, `Shelf.contents`, `Shelf.add`, `Shelf.create`, `Shelf.free`,
`Shelf.push`, `Shelf.tryGet`, `Shelf.data`, `Shelf.tryPop`.
-/
import SupportLayer.LogRecord
import SupportLayer.Sequence.Text
import SupportLayer.Sequence.View

namespace SupportLayer

/-- The live sequences by number, and the next number. -/
structure Shelf where
  live : List (Nat × Sequence Int64) := []
  next : Nat := 0

namespace Shelf

/-- A handle: a number, or null. -/
abbrev Handle := Option Nat

/-- The sequence of a number among the live ones. -/
def find? (number : Nat) : List (Nat × Sequence Int64) → Option (Sequence Int64)
  | [] => none
  | (n, s) :: rest => if n = number then some s else find? number rest

/-- The live sequences with that of a number replaced. -/
def replace (number : Nat) (s : Sequence Int64) :
    List (Nat × Sequence Int64) → List (Nat × Sequence Int64)
  | [] => []
  | (n, old) :: rest => if n = number then (n, s) :: rest else (n, old) :: replace number s rest

/-- The sequence behind a handle, if the handle is live. -/
def sequence? (shelf : Shelf) (h : Handle) : Option (Sequence Int64) :=
  h.bind fun number => find? number shelf.live

/-- What a handle reads as. -/
def contents (shelf : Shelf) (h : Handle) : Sequence Int64 := (shelf.sequence? h).getD .empty

/-- The shelf with the sequence behind a handle replaced; through null nothing is stored. -/
def store (shelf : Shelf) (h : Handle) (s : Sequence Int64) : Shelf :=
  match h with
  | some number => { shelf with live := replace number s shelf.live }
  | none => shelf

/-- A new handle for a sequence. -/
def add (shelf : Shelf) (s : Sequence Int64) : Handle × Shelf :=
  (some shelf.next, ⟨shelf.live ++ [(shelf.next, s)], shelf.next + 1⟩)

/-- A new handle for an empty sequence with room for some slots, or the panic that the program
ends with. -/
def create (shelf : Shelf) (room : Nat) : Except Panic (Handle × Shelf) :=
  (Sequence.withCapacity room).map shelf.add

/-- A new handle for the first `count` values; for none if there is no array of values. -/
def fill (shelf : Shelf) (values : Option (List Int64)) (count : Nat) : Handle × Shelf :=
  match values with
  | some values => shelf.add (.ofList (values.take count))
  | none => shelf.add .empty

/-- A new handle for a copy. -/
def copy (shelf : Shelf) (h : Handle) : Handle × Shelf := shelf.add (shelf.contents h)

/-- A new handle for the contents, which leave their old handle empty. -/
def transfer (shelf : Shelf) (h : Handle) : Handle × Shelf :=
  let (taken, left) := (shelf.contents h).transfer
  (shelf.store h left).add taken

/-- The shelf without the sequence of a handle. -/
def free (shelf : Shelf) (h : Handle) : Shelf :=
  match h with
  | some number => { shelf with live := shelf.live.filter fun entry => entry.1 ≠ number }
  | none => shelf

/-- The number of slots. -/
def length (shelf : Shelf) (h : Handle) : Nat := (shelf.contents h).length

/-- The new length, and the shelf with one more slot; nothing is stored through null, and
the answer is zero. -/
def push (shelf : Shelf) (h : Handle) (value : Int64) : Nat × Shelf :=
  match shelf.sequence? h with
  | some s => ((s.push value).1, shelf.store h (s.push value).2)
  | none => (0, shelf)

/-- The slot at an index, for callers who know that there is one. -/
def get (shelf : Shelf) (h : Handle) (index : Nat) : Option Int64 :=
  (shelf.contents h).getUnchecked index

/-- The storage behind a handle; null through null. -/
def data (shelf : Shelf) (h : Handle) : Option (RawView Int64) :=
  (shelf.sequence? h).map Sequence.rawView

/-- A write to the slot at an index, for callers who know that there is one. -/
def set (shelf : Shelf) (h : Handle) (index : Nat) (value : Int64) : Option Shelf :=
  ((shelf.contents h).set index value).map (shelf.store h)

/-- Removal of the last slot, for callers who know that there is one. -/
def pop (shelf : Shelf) (h : Handle) : Option (Int64 × Shelf) :=
  match (shelf.contents h).popUnchecked with
  | (some value, rest) => some (value, shelf.store h rest)
  | (none, _) => none

/-- The status of a checked call, and the cell that it stores its value in: none if the
caller passed null, and as it was if the call failed. -/
def outcome (cell : Option Int64) : Except Fault Int64 → Status × Option Int64
  | .ok value => (.ok, cell.map fun _ => value)
  | .error fault => (fault.status, cell)

/-- The slot at an index, checked. -/
def tryGet (shelf : Shelf) (h : Handle) (index : Nat) (cell : Option Int64) :
    Status × Option Int64 :=
  outcome cell ((shelf.contents h).tryGet index)

/-- Removal of the last slot, checked. -/
def tryPop (shelf : Shelf) (h : Handle) (cell : Option Int64) :
    (Status × Option Int64) × Shelf :=
  let (result, rest) := (shelf.contents h).tryPop
  (outcome cell result, shelf.store h rest)

/-- Prints the slots to standard output; a failure is logged and becomes a status. -/
def print (shelf : Shelf) (h : Handle) (stdout : Sink) : Status × Sink × List LogRecord :=
  match (shelf.contents h).writeTo stdout with
  | (.ok (), sink) => (.ok, sink, [])
  | (.error cause, sink) => ((Fault.writeFailure cause).status, sink, [.sequencePrintFailed cause])

theorem print_quiet (shelf : Shelf) (h : Handle) (stdout : Sink) :
    ∀ record ∈ (shelf.print h stdout).2.2, record.ofFrames = false := by
  unfold print
  split <;> simp [LogRecord.ofFrames]

end Shelf

end SupportLayer
