/-
# Named sequences

A run of steps on sequences that have names. A name that is mentioned for the first time
stands for the empty sequence. Every step answers something, and changes only the sequences
that it names.

Key definitions: `Registers`, `Registers.Step`, `Registers.Answer`, `Registers.step`.
-/
import SupportLayer.Sequence.Text

namespace SupportLayer

/-- Sequences by name, in the order in which the names came up. -/
abbrev Registers (α : Type) := List (String × Sequence α)

namespace Registers

variable {α : Type}

/-- The sequence of a name. -/
def lookup (name : String) : Registers α → Sequence α
  | [] => .empty
  | (n, s) :: rest => if n = name then s else lookup name rest

/-- The sequences with that of a name replaced. -/
def assign (name : String) (s : Sequence α) : Registers α → Registers α
  | [] => [(name, s)]
  | (n, old) :: rest => if n = name then (n, s) :: rest else (n, old) :: assign name s rest

/-- The sequences with a name mentioned. -/
def mention (name : String) (registers : Registers α) : Registers α :=
  registers.assign name (registers.lookup name)

/-- What can be done with named sequences. -/
inductive Step (α : Type) where
  | create (r : String)
  | createWithCapacity (r : String) (room : Nat)
  | fill (r : String) (elements : List α)
  | copy (r target : String)
  | transfer (r target : String)
  | push (r : String) (element : α)
  | pop (r : String)
  | tryPop (r : String)
  | popUnchecked (r : String)
  | get (r : String) (index : Nat)
  | tryGet (r : String) (index : Nat)
  | getUnchecked (r : String) (index : Nat)
  | set (r : String) (index : Nat) (element : α)
  | length (r : String)
  | isEmpty (r : String)
  | view (r : String)
  | iterate (r : String)
  | consume (r : String)
  | display (r : String)
  | quote (r : String)
  | quoteTall (r : String)
  | write (r : String) (sink : Sink)
  | compare (r other : String)

/-- What a step answers. -/
inductive Answer (α : Type) where
  | nothing
  | number (n : Nat)
  | flag (b : Bool)
  | element (a : α)
  | elements (l : List α)
  | text (t : List Char)
  | panic (p : Panic)
  | checked (r : Except Fault α)
  /-- The step is only for callers who know more than holds here. -/
  | outOfContract
  | view (s : Sequence α) (quoted : List Char)
  | written (r : Except StreamError Unit) (sink : Sink)
  | comparison (equal : Bool)

/-- The answer of a form that panics. -/
def Answer.ofPanicking : Except Panic α → Answer α
  | .ok a => .element a
  | .error p => .panic p

/-- The answer of a form for callers who know that it is in bounds. -/
def Answer.ofUnchecked : Option α → Answer α
  | some a => .element a
  | none => .outOfContract

/-- One step on named sequences. -/
def step [Shown α] [DecidableEq α] [Stored α] (registers : Registers α) :
    Step α → Answer α × Registers α
  | .create r => (.nothing, registers.assign r .empty)
  | .createWithCapacity r room =>
    match Sequence.withCapacity room with
    | .ok s => (.nothing, registers.assign r s)
    | .error p => (.panic p, registers.mention r)
  | .fill r elements => (.nothing, registers.assign r (.ofList elements))
  | .copy r target =>
    let registers := registers.mention r
    (.nothing, registers.assign target (registers.lookup r))
  | .transfer r target =>
    let (taken, left) := (registers.lookup r).transfer
    (.nothing, (registers.assign r left).assign target taken)
  | .push r element =>
    let (n, s) := (registers.lookup r).push element
    (.number n, registers.assign r s)
  | .pop r =>
    let (result, s) := (registers.lookup r).pop
    (.ofPanicking result, registers.assign r s)
  | .tryPop r =>
    let (result, s) := (registers.lookup r).tryPop
    (.checked result, registers.assign r s)
  | .popUnchecked r =>
    let (result, s) := (registers.lookup r).popUnchecked
    (.ofUnchecked result, registers.assign r s)
  | .get r index => (.ofPanicking ((registers.lookup r).get index), registers.mention r)
  | .tryGet r index => (.checked ((registers.lookup r).tryGet index), registers.mention r)
  | .getUnchecked r index =>
    (.ofUnchecked ((registers.lookup r).getUnchecked index), registers.mention r)
  | .set r index element =>
    match (registers.lookup r).set index element with
    | some s => (.nothing, registers.assign r s)
    | none => (.outOfContract, registers.mention r)
  | .length r => (.number (registers.lookup r).length, registers.mention r)
  | .isEmpty r => (.flag (registers.lookup r).isEmpty, registers.mention r)
  | .view r =>
    let s := registers.lookup r
    (.view s ("RawView \x7b elements: ".toList ++ s.quoted { form := .quoted } ++ " \x7d".toList),
      registers.mention r)
  | .iterate r => (.elements (registers.lookup r).toList, registers.mention r)
  | .consume r => (.elements (registers.lookup r).toList, registers.assign r .empty)
  | .display r => (.text (registers.lookup r).display, registers.mention r)
  | .quote r => (.text ((registers.lookup r).quoted { form := .quoted }), registers.mention r)
  | .quoteTall r => (.text ((registers.lookup r).quoted { form := .tall }), registers.mention r)
  | .write r sink =>
    let (result, sink) := (registers.lookup r).writeTo sink
    (.written result sink, registers.mention r)
  | .compare r other =>
    (.comparison (registers.lookup r = registers.lookup other),
      (registers.mention r).mention other)

/-- The answers of a run of steps, each with the sequences as the step left them, and the
sequences at the end. -/
def run [Shown α] [DecidableEq α] [Stored α] (registers : Registers α) :
    List (Step α) → List (Answer α × Registers α) × Registers α
  | [] => ([], registers)
  | s :: steps =>
    let (answer, registers) := registers.step s
    let (answers, last) := run registers steps
    ((answer, registers) :: answers, last)

end Registers

end SupportLayer
