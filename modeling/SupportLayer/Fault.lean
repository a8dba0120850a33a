/-
# Faults

What the checked entry points report instead of doing damage: an index past the end, a
removal from an empty sequence, a failed write, settings that cannot be read or that make
no sense. Each fault has a message and a status code, which is what generated C code sees.

Key definitions: `Fault`, `Fault.message`, `Fault.status`, `Fault.quoted`.
-/
import SupportLayer.StreamError

namespace SupportLayer

/-- The status codes that cross the C boundary. -/
inductive Status where
  | ok | outOfRange | emptyContainer | writeFailure | config
  deriving DecidableEq, Repr

/-- The number of a status. -/
def Status.code : Status → Nat
  | ok => 0
  | outOfRange => 1
  | emptyContainer => 2
  | writeFailure => 3
  | config => 4

/-- The causes of failure. -/
inductive Fault where
  | outOfRange (index length : Nat)
  | emptyContainer
  | writeFailure (cause : StreamError)
  | unreadableSettings (path reason : String)
  | invalidSettings (reason : String)
  deriving DecidableEq, Repr

namespace Fault

/-- The text of a fault. -/
def message : Fault → String
  | outOfRange index length =>
    "Index " ++ Decimal.text index ++ " out of range for array of length " ++ Decimal.text length
  | emptyContainer => "Cannot remove the last element of an empty array"
  | writeFailure cause => "Write failed: " ++ cause.text
  | unreadableSettings path reason =>
    "Failed to read runtime config at " ++ path ++ ": " ++ reason
  | invalidSettings reason => "Invalid runtime config: " ++ reason

/-- The status of a fault. Both faults of settings share one. -/
def status : Fault → Status
  | outOfRange _ _ => .outOfRange
  | emptyContainer => .emptyContainer
  | writeFailure _ => .writeFailure
  | unreadableSettings _ _ => .config
  | invalidSettings _ => .config

/-- The failure that a fault wraps, if it wraps one. -/
def source : Fault → Option StreamError
  | writeFailure cause => some cause
  | _ => none

/-- The form that shows how a fault is made up. -/
def quoted : Fault → String
  | outOfRange index length =>
    "OutOfRange \x7b index: " ++ Decimal.text index ++ ", length: " ++ Decimal.text length ++ " \x7d"
  | emptyContainer => "EmptyContainer"
  | writeFailure cause => "WriteFailure(" ++ cause.quoted ++ ")"
  | unreadableSettings path reason =>
    "Config \x7b path: " ++ String.ofList (Quoted.quote path.toList) ++ ", reason: " ++
      String.ofList (Quoted.quote reason.toList) ++ " \x7d"
  | invalidSettings reason =>
    "InvalidConfig(" ++ String.ofList (Quoted.quote reason.toList) ++ ")"

end Fault

/-- What printing returns to C code: the byte count, or the largest 32-bit number if the
count is larger, or -1 for any fault. -/
def printStatus : Except Fault Nat → Int
  | .ok count => min count 2147483647
  | .error _ => -1

end SupportLayer
