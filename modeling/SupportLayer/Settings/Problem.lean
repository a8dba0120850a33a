/-
# Problems in a settings file

What can be wrong with the values of a settings file, once its text can be read at all.
A problem is a cause and, where one is known, a place.

Key definitions: `Settings.Cause`, `Settings.Cause.text`, `Settings.Problem`.
-/
import SupportLayer.Number.Shortest
import SupportLayer.Settings.Basic
import SupportLayer.Text.Quoted
import SupportLayer.Toml.Node

namespace SupportLayer.Settings

/-- What a value turned out to be where something else was wanted. -/
inductive Found where
  | integer (n : Int)
  | float (x : Double)
  | text (s : List Char)
  | boolean (b : Bool)
  | sequence
  | map

/-- The words for what was found. -/
def Found.words : Found → List Char
  | integer n => "integer `".toList ++ Decimal.integer n ++ ['`']
  | float x => "floating point `".toList ++ x.text ++ ['`']
  | text s => "string ".toList ++ Quoted.quote s
  | boolean b => (if b then "boolean `true`" else "boolean `false`").toList
  | sequence => "sequence".toList
  | map => "map".toList

/-- What a node is found to be. Moments count as maps. -/
def Found.ofNode : Toml.Node → Found
  | .scalar _ (.text s) => text s
  | .scalar _ (.integer n) => integer n
  | .scalar _ (.float x) => float x
  | .scalar _ (.boolean b) => boolean b
  | .scalar _ .moment => map
  | .array _ _ => sequence
  | .tables _ => sequence
  | .table _ _ _ => map

/-- What was wanted. -/
inductive Wanted where
  | width | boolean | settings
  deriving DecidableEq, Repr

/-- The words for what was wanted. -/
def Wanted.words : Wanted → String
  | width => "u32"
  | boolean => "a boolean"
  | settings => "struct RuntimeConfig"

/-- What is wrong. -/
inductive Cause where
  /-- A key that is no setting. -/
  | unknownField (name : List Char)
  /-- A value of the wrong type. -/
  | wrongType (found : Found) (wanted : Wanted)
  /-- An integer that does not fit in 32 bits without a sign. -/
  | outOfRange (n : Int)
  /-- A width that is neither 32 nor 64. -/
  | width (n : Nat)
  /-- A dialect that is neither name nor table. -/
  | notADialect
  /-- A dialect that is not known. -/
  | unknownDialect (name : List Char)
  /-- A dialect given as a table without entries. -/
  | noDialect
  /-- A dialect given as a table with several entries. -/
  | severalDialects
  /-- A dialect given as a table whose entry is a table or an array with something in it. -/
  | dialectWithContent
  /-- A dialect given as a table whose entry is a repeated table. -/
  | dialectWithTables
  /-- A dialect given as a table whose entry is a value without parts. -/
  | dialectWithValue (type : String)

/-- The text of a cause. -/
def Cause.text : Cause → List Char
  | unknownField name =>
    "unknown field `".toList ++ name ++
      "`, expected one of `dialect`, `int_width`, `legacy_aliases`".toList
  | wrongType found wanted =>
    "invalid type: ".toList ++ found.words ++ (", expected " ++ wanted.words).toList
  | outOfRange n =>
    "invalid value: integer `".toList ++ Decimal.integer n ++ "`, expected u32".toList
  | width n => (IntWidth.refusal n).toList
  | notADialect => "wanted string or table".toList
  | unknownDialect name =>
    "unknown variant `".toList ++ name ++ "`, expected `c` or `cpp`".toList
  | noDialect => "wanted exactly 1 element, found 0 elements".toList
  | severalDialects => "wanted exactly 1 element, more than 1 element".toList
  | dialectWithContent => "expected empty table".toList
  | dialectWithTables => "expected empty array".toList
  | dialectWithValue type => ("expected table, found " ++ type).toList

/-- A cause, and its place if it has one of its own. -/
structure Problem where
  cause : Cause
  span : Option Toml.Span := none

/-- A problem that stands at `span` unless it already has a place. -/
def Problem.located (span : Option Toml.Span) (p : Problem) : Problem :=
  { p with span := p.span <|> span }

end SupportLayer.Settings
