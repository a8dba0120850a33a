/-
# Sinks

Where printed bytes go. A sink takes at most `limit` bytes in all and at most `chunk` bytes
a call; its first calls may be interrupted, and when it can take nothing of what it is
offered it refuses, with its own reason or with none. `writeAll` offers a run of bytes until
all of it is taken, starting over after an interruption and giving up at a refusal; a
refusal is final whatever its kind. `flush` is a separate call, counted, that may fail too.

Key definitions: `Sink`, `Sink.room`, `Sink.writeAll`, `Sink.flush`, `Sink.deliver`.
Key theorems: `Sink.writeAll_nil`, `Sink.room_le`.
-/
import SupportLayer.StreamError
import SupportLayer.Text.Utf8

namespace SupportLayer

/-- A sink: how it behaves, and what it has taken so far. -/
structure Sink where
  /-- The number of bytes it takes in all, if there is an end to it. -/
  limit : Option Nat := none
  /-- The number of bytes it takes in one call, if that is bounded. -/
  chunk : Option Nat := none
  /-- The reason it gives when it can take nothing. -/
  refusal : Option StreamError := none
  /-- The reason for which every flush fails. -/
  flushRefusal : Option StreamError := none
  /-- The number of calls still to be interrupted. -/
  interruptions : Nat := 0
  /-- The bytes taken. -/
  held : Bytes := []
  /-- The number of times it was flushed. -/
  flushes : Nat := 0

namespace Sink

/-- A sink that refuses every byte because its device is full. -/
def full : Sink := { limit := some 0, refusal := some .deviceFull }

/-- The number of bytes that one call takes of `offered` bytes. -/
def room (s : Sink) (offered : Nat) : Nat :=
  let capped := match s.chunk with
    | some c => min c offered
    | none => offered
  match s.limit with
  | some l => min capped (l - s.held.length)
  | none => capped

/-- No call takes more than it is offered. -/
theorem room_le (s : Sink) (offered : Nat) : s.room offered ≤ offered := by
  unfold room
  cases s.chunk <;> cases s.limit <;> simp only <;> omega

/-- The reason for which a call that takes nothing fails. -/
def refusalCause (s : Sink) : StreamError := s.refusal.getD .nothingTaken

/-- The sink after a call that takes `bytes`. -/
def take (s : Sink) (bytes : Bytes) : Sink := { s with held := s.held ++ bytes }

/-- The sink after an interrupted call. -/
def interrupt (s : Sink) : Sink := { s with interruptions := s.interruptions - 1 }

/-- Offers bytes until all are taken or the sink refuses. -/
def writeAll (s : Sink) (bytes : Bytes) : Except StreamError Unit × Sink :=
  if bytes = [] then (.ok (), s)
  else if 0 < s.interruptions then writeAll s.interrupt bytes
  else if s.room bytes.length = 0 then (.error s.refusalCause, s)
  else writeAll (s.take (bytes.take (s.room bytes.length))) (bytes.drop (s.room bytes.length))
termination_by bytes.length + s.interruptions
decreasing_by
  · simp only [interrupt]; omega
  · have := s.room_le bytes.length
    simp only [List.length_drop, take]
    omega

@[simp] theorem writeAll_nil (s : Sink) : s.writeAll [] = (.ok (), s) := by
  unfold writeAll; simp

/-- Asks the sink to pass on what it holds. -/
def flush (s : Sink) : Except StreamError Unit × Sink :=
  match s.flushRefusal with
  | some cause => (.error cause, { s with flushes := s.flushes + 1 })
  | none => (.ok (), { s with flushes := s.flushes + 1 })

/-- Writes the pieces of a text one after the other, stopping at the first failure. -/
def writePieces (s : Sink) : List Bytes → Except StreamError Unit × Sink
  | [] => (.ok (), s)
  | piece :: pieces =>
    match s.writeAll piece with
    | (.ok (), s') => writePieces s' pieces
    | failed => failed

/-- Writes the pieces of a text, then flushes once if all of them were written. -/
def deliver (s : Sink) (pieces : List Bytes) : Except StreamError Unit × Sink :=
  match s.writePieces pieces with
  | (.ok (), s') => s'.flush
  | failed => failed

end Sink

end SupportLayer
