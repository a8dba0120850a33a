/-
# What can go wrong with a stream or a file

A failed read, write or flush has a kind and a text. It is either described in words by
the writer that failed, or in the fixed words of the library that noticed it, or is a bare
kind with the kind's own words, or carries a code of the operating system, whose text is the
system's message followed by the code.

Key definitions: `StreamError`, `StreamError.kind`, `StreamError.text`, `StreamError.quoted`.
-/
import SupportLayer.StreamError.SystemCode
import SupportLayer.Text.Quoted

namespace SupportLayer

/-- A failure of a stream or of the file system. -/
inductive StreamError where
  | described (kind : StreamError.Kind) (text : String)
  | fixed (kind : StreamError.Kind) (text : String)
  | bare (kind : StreamError.Kind)
  | system (code : Int)
  deriving DecidableEq, Repr

namespace StreamError

/-- The kind of a failure. -/
def kind : StreamError → Kind
  | described k _ => k
  | fixed k _ => k
  | bare k => k
  | system code => (systemCode code).kind

/-- The text of a failure. -/
def text : StreamError → String
  | described _ t => t
  | fixed _ t => t
  | bare k => k.words
  | system code =>
    (systemCode code).message ++ " (os error " ++ Decimal.text code ++ ")"

/-- The form that shows how a failure is made up. -/
def quoted : StreamError → String
  | described k t =>
    "Custom \x7b kind: " ++ k.name ++ ", error: " ++ String.ofList (Quoted.quote t.toList) ++ " \x7d"
  | fixed k t =>
    "Error \x7b kind: " ++ k.name ++ ", message: " ++ String.ofList (Quoted.quote t.toList) ++ " \x7d"
  | bare k => "Kind(" ++ k.name ++ ")"
  | system code =>
    "Os \x7b code: " ++ Decimal.text code ++ ", kind: " ++ (systemCode code).kind.name ++
      ", message: " ++ String.ofList (Quoted.quote (systemCode code).message.toList) ++ " \x7d"

/-- A writer that takes no byte of what it is offered, and gives no reason. -/
def nothingTaken : StreamError := .fixed .writeZero "failed to write whole buffer"

/-- The device is full. -/
def deviceFull : StreamError := .system 28

/-- No file or directory has the path. -/
def missing : StreamError := .system 2

/-- The path runs through something that is not a directory. -/
def notDirectory : StreamError := .system 20

/-- A directory stands where a file is wanted. -/
def directory : StreamError := .system 21

/-- The path, or a name in it, is too long. -/
def nameTooLong : StreamError := .system 36

/-- The path holds a NUL, which ends a path for the operating system. -/
def nulInPath : StreamError :=
  .fixed .invalidInput "file name contained an unexpected NUL byte"

/-- The bytes of a file spell no text. -/
def notText : StreamError := .fixed .invalidData "stream did not contain valid UTF-8"

end StreamError

end SupportLayer
