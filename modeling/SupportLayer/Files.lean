/-
# Files

What is asked of a file system: whether a path leads to a regular file, and what reading the file
gives. How the system gets there, over links, permissions or a change between the two, is left
open.

Key definitions: `Files`, `Files.readText`.
-/
import SupportLayer.Path
import SupportLayer.StreamError

namespace SupportLayer

/-- The files of a system, told by their paths. -/
structure Files where
  isFile : Path → Bool
  read : Path → Except StreamError Bytes

/-- The text of the file that a path leads to. -/
def Files.readText (fs : Files) (path : Path) : Except StreamError (List Char) :=
  match fs.read path with
  | .error cause => .error cause
  | .ok content =>
    match Utf8.decode? content with
    | some text => .ok text
    | none => .error .notText

end SupportLayer
