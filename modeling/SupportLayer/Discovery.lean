/-
# Finding the settings

Settings stand in a file of a fixed name. The one that counts is found by walking up from
a directory, lexically, until a directory holds a regular file of that name. Only that file
is read: if it cannot be read or makes no sense, that is the answer. Without any file the
defaults hold.

Key definitions: `Settings.fileName`, `Settings.find?`, `Settings.load`, `Settings.discover`.
-/
import SupportLayer.Files
import SupportLayer.LogRecord
import SupportLayer.Settings.Decode

namespace SupportLayer.Settings

/-- The name of a settings file. -/
def fileName : String := "biggie.toml"

/-- The settings file in the directory of a path. -/
def candidate (directory : Path) : Path := directory.child fileName.toList

/-- The first settings file on the walk up from `start`. -/
def find? (fs : Files) (start : Path) : Option Path :=
  (start.walk.map candidate).find? fs.isFile

/-- Reads the settings file at a path. -/
def load (syntaxError : List Char → String) (fs : Files) (path : Path) :
    Except Fault Settings × List LogRecord :=
  match fs.readText path with
  | .error cause =>
    (.error (.unreadableSettings (String.ofList path.text) cause.text), [])
  | .ok text =>
    match ofText syntaxError text with
    | .error fault => (.error fault, [])
    | .ok s => (.ok s, [.settingsLoaded (String.ofList path.text) s.dialect.label])

/-- The settings that hold at `start`. -/
def discover (syntaxError : List Char → String) (fs : Files) (start : Path) :
    Except Fault Settings × List LogRecord :=
  match find? fs start with
  | some path => load syntaxError fs path
  | none => (.ok .default, [.settingsAbsent (String.ofList start.text)])

end SupportLayer.Settings
