/-
# Printing by percent directives

The unchecked convention: a format of bytes in which `%s` stands for the bytes of a string
handle, `%d` for the decimal text of a 32-bit integer and `%%` for a percent sign. The
arguments come as an array of untyped pointers with a count, and the array may be null.
A directive with no argument left is printed as it stands; a percent sign before any other
byte, or at the end, prints nothing and is logged. `expand` reads the format once, with a
second cursor for the slots of the array, and keeps account of the slots it reads and of what
it reads them as. That a slot holds what the directive reads it as is for the caller to see to.

Key definitions: `Print.Letter`, `Print.Argument`, `Print.Argument.bytes`, `Print.Arguments`,
`Print.Expansion`, `Print.expand`, `Print.writeUnchecked`, `Print.printUnchecked`.
-/
import SupportLayer.LogRecord
import SupportLayer.Sink
import SupportLayer.StringHandle

namespace SupportLayer.Print

/-- The byte that opens a directive. -/
def percent : UInt8 := 37

/-- The byte of a string directive. -/
def letterS : UInt8 := 115

/-- The byte of an integer directive. -/
def letterD : UInt8 := 100

/-- The byte that ends a line. -/
def newline : UInt8 := 10

/-- What a directive reads its argument as. -/
inductive Letter where
  | string
  | integer
  deriving DecidableEq, Repr

/-- The byte of a letter. -/
def Letter.byte : Letter → UInt8
  | string => letterS
  | integer => letterD

/-- The letter that a byte is. -/
def letter? (d : UInt8) : Option Letter :=
  if d = letterS then some .string else if d = letterD then some .integer else none

/-- What one slot of an argument array points at. The pointer has no type: it is told by the
handle that is read there for a string and the number that is read there for an integer. -/
structure Argument where
  handle : StringHandle
  value : Int32
  deriving DecidableEq, Repr

namespace Argument

/-- A pointer to a handle. What it is as a number is never asked by a directive that matches. -/
def text (handle : StringHandle) : Argument := ⟨handle, 0⟩

/-- A pointer to a number. -/
def integer (value : Int32) : Argument := ⟨.ofBytes [], value⟩

/-- The bytes that an argument prints, read as a letter says. -/
def bytes (a : Argument) : Letter → Bytes
  | .string => a.handle.contents
  | .integer => Utf8.encode (Decimal.integer a.value.toInt)

end Argument

/-- An argument array: its slots, none at all if it is null, and the count that goes with it. -/
structure Arguments where
  slots : Option (List Argument)
  count : Nat

/-- The argument in a slot, if the array is there and the count covers the slot. -/
def Arguments.slot? (args : Arguments) (n : Nat) : Option Argument :=
  match args.slots with
  | some slots => if n < args.count then slots[n]? else none
  | none => none

/-- A warning about the format: a byte that names no directive, or a lone percent sign at
the end. -/
inductive Warning where
  | unknown (byte : UInt8)
  | dangling
  deriving DecidableEq, Repr

/-- The record of a warning. -/
def Warning.record : Warning → LogRecord
  | unknown byte => .unknownDirective byte
  | dangling => .danglingPercent

/-- What a format and its arguments give: the text, the warnings in order, and the slots
read, in order, each with what it was read as. -/
structure Expansion where
  text : Bytes := []
  warnings : List Warning := []
  reads : List (Nat × Letter) := []
  deriving DecidableEq, Repr

namespace Expansion

/-- Bytes in front of an expansion. -/
def prepend (bytes : Bytes) (e : Expansion) : Expansion := { e with text := bytes ++ e.text }

/-- A warning ahead of those of an expansion. -/
def warn (w : Warning) (e : Expansion) : Expansion := { e with warnings := w :: e.warnings }

/-- The bytes of an argument, read from its slot, in front of an expansion that follows it. -/
def consume (slot : Nat) (letter : Letter) (a : Argument) (e : Expansion) : Expansion :=
  { e with text := a.bytes letter ++ e.text, reads := (slot, letter) :: e.reads }

end Expansion

/-- Expands a format whose next argument is that of slot `next`. -/
def expand (args : Arguments) (next : Nat) : Bytes → Expansion
  | [] => {}
  | b :: rest =>
    if b = percent then
      match rest with
      | [] => { warnings := [.dangling] }
      | d :: rest =>
        if d = percent then (expand args next rest).prepend [percent]
        else
          match letter? d with
          | some letter =>
            match args.slot? next with
            | none => (expand args next rest).prepend [percent, d]
            | some a => (expand args (next + 1) rest).consume next letter a
          | none => (expand args next rest).warn (.unknown d)
    else (expand args next rest).prepend [b]

section

variable {args : Arguments} {next : Nat} {b d : UInt8} {letter : Letter}

@[simp] theorem letter?_byte (letter : Letter) : letter? letter.byte = some letter := by
  cases letter <;> rfl

theorem eq_byte_of_letter? (h : letter? d = some letter) : d = letter.byte := by
  unfold letter? at h
  split at h
  · cases h; assumption
  · split at h <;> cases h
    assumption

theorem letter?_eq_none_iff : letter? d = none ↔ d ≠ letterS ∧ d ≠ letterD := by
  unfold letter?
  split
  · next hs => simp [hs]
  · next hs => split <;> simp_all

theorem ne_percent_of_letter? (h : letter? d = some letter) : d ≠ percent := by
  rintro rfl
  cases h

theorem expand_plain (h : b ≠ percent) (rest : Bytes) :
    expand args next (b :: rest) = (expand args next rest).prepend [b] := by
  rw [expand.eq_def]
  exact if_neg h

theorem expand_percent (rest : Bytes) :
    expand args next (percent :: percent :: rest) = (expand args next rest).prepend [percent] := by
  simp [expand]

theorem expand_filled (h : letter? d = some letter) {a : Argument}
    (ha : args.slot? next = some a) (rest : Bytes) :
    expand args next (percent :: d :: rest) =
      (expand args (next + 1) rest).consume next letter a := by
  simp [expand, ne_percent_of_letter? h, h, ha]

theorem expand_unfilled (h : letter? d = some letter) (ha : args.slot? next = none)
    (rest : Bytes) :
    expand args next (percent :: d :: rest) = (expand args next rest).prepend [percent, d] := by
  simp [expand, ne_percent_of_letter? h, h, ha]

theorem expand_unknown (hp : d ≠ percent) (h : letter? d = none) (rest : Bytes) :
    expand args next (percent :: d :: rest) = (expand args next rest).warn (.unknown d) := by
  simp [expand, hp, h]

end

/-- Writes a text and the end of its line, and flushes; answers the length of the text. -/
def writeLine (sink : Sink) (text : Bytes) : Except StreamError Nat × Sink :=
  match sink.deliver [text ++ [newline]] with
  | (.ok (), sink') => (.ok text.length, sink')
  | (.error cause, sink') => (.error cause, sink')

/-- What a print leaves behind: its answer, the sink, and the records it logged. -/
structure Printed (ε α : Type) where
  answer : Except ε α
  sink : Sink
  log : List LogRecord

/-- Expands a format and writes the line. The warnings are logged also if the write fails. -/
def writeUnchecked (sink : Sink) (format : Bytes) (args : Arguments) : Printed StreamError Nat :=
  let expansion := expand args 0 format
  let (answer, sink) := writeLine sink expansion.text
  ⟨answer, sink, expansion.warnings.map Warning.record⟩

/-- The same for standard output, where a failed write is logged and becomes a fault. -/
def printUnchecked (stdout : Sink) (format : Bytes) (args : Arguments) : Printed Fault Nat :=
  let printed := writeUnchecked stdout format args
  match printed.answer with
  | .ok count => ⟨.ok count, printed.sink, printed.log⟩
  | .error cause => ⟨.error (.writeFailure cause), printed.sink, printed.log ++ [.printFailed cause]⟩

theorem Warning.record_quiet (w : Warning) : w.record.ofFrames = false := by cases w <;> rfl

theorem printUnchecked_quiet (stdout : Sink) (format : Bytes) (args : Arguments) :
    ∀ record ∈ (printUnchecked stdout format args).log, record.ofFrames = false := by
  have warned : ∀ record ∈ (writeUnchecked stdout format args).log, record.ofFrames = false := by
    simp only [writeUnchecked, List.mem_map]
    rintro record ⟨w, -, rfl⟩
    exact w.record_quiet
  unfold printUnchecked
  simp only
  split
  · exact warned
  · intro record h
    rcases List.mem_append.mp h with h | h
    · exact warned record h
    · rw [List.mem_singleton.mp h]; rfl

/-- The entry point of generated C code: the format is a handle, the answer a number. -/
def println (stdout : Sink) (format : StringHandle) (args : Arguments) : Int × Sink × List LogRecord :=
  let printed := printUnchecked stdout format.contents args
  (printStatus printed.answer, printed.sink, printed.log)

end SupportLayer.Print
