/-
# Keys and values

A key is bare or quoted, and several parted by dots make a path. A value is a string, an
array, a table between braces, or a run of letters, digits and signs that is read as a
whole: a boolean, an integer, a float or a moment. Arrays may run over lines and may end in
a comma; tables between braces stay on their line, between the values in them, and may not.
Values nest less than eighty deep, and a path has fewer than eighty keys.

Key definitions: `Toml.key?`, `Toml.path?`, `Toml.scalar?`, `Toml.items?`, `Toml.pairs?`,
`Toml.value?`.
-/
import SupportLayer.Toml.Moment
import SupportLayer.Toml.Table
import SupportLayer.Toml.Text

namespace SupportLayer.Toml

/-- Neither nested values nor the keys of a path reach this number. -/
def nestingLimit : Nat := 80

/-- A character of a bare key. -/
def isBare (c : Char) : Bool :=
  isDigit c || ('a' ≤ c && c ≤ 'z') || ('A' ≤ c && c ≤ 'Z') || c = '_' || c = '-'

/-- A character of a run. -/
def isRun (c : Char) : Bool := isBare c || c = '+' || c = '.' || c = ':'

/-- A key without dots: in quotes of either kind, or bare. -/
def key? (s : List Char) : Option (Key × List Char) :=
  match s with
  | '"' :: rest => (basicText? .text rest).map fun r => (⟨r.1, Span.between s r.2⟩, r.2)
  | '\'' :: rest => (literalText? rest).map fun r => (⟨r.1, Span.between s r.2⟩, r.2)
  | _ =>
    let name := s.takeWhile isBare
    let rest := s.dropWhile isBare
    if name = [] then none else some (⟨name, Span.between s rest⟩, rest)

/-- The keys of a path, parted by dots with blanks around them. -/
def keys? (s : List Char) : Option (List Key × List Char) :=
  match key? (skipBlanks s) with
  | none => none
  | some (key, rest) =>
    match skipBlanks rest with
    | '.' :: next =>
      if next.length < s.length then (keys? next).map fun r => (key :: r.1, r.2) else none
    | rest => some ([key], rest)
termination_by s.length

/-- A path that is not too long: the steps before the last key, and the last key. -/
def path? (s : List Char) : Option (List Key × Key × List Char) :=
  match keys? s with
  | none => none
  | some (keys, rest) =>
    match keys.getLast? with
    | some last => if keys.length < nestingLimit then some (keys.dropLast, last, rest) else none
    | none => none

/-- The boolean that a run spells. -/
def boolean? (s : List Char) : Option Bool :=
  if s = ['t', 'r', 'u', 'e'] then some true
  else if s = ['f', 'a', 'l', 's', 'e'] then some false
  else none

/-- The value that a run spells. -/
def run? (s : List Char) : Option Scalar :=
  match boolean? s with
  | some b => some (.boolean b)
  | none =>
    if isMoment s then some .moment
    else
      match float? s, integer? s with
      | some x, _ => some (.float x)
      | none, some n => some (.integer n)
      | none, none => none

/-- A scalar and what is left behind it. A date may be parted from its time by one space. -/
def scalar? (s : List Char) : Option (Scalar × List Char) :=
  match text? s with
  | some (x, rest) => some (.text x, rest)
  | none =>
    let run := s.takeWhile isRun
    let rest := s.dropWhile isRun
    match isDate run, rest with
    | true, ' ' :: next =>
      if isClock (next.takeWhile isRun) then some (.moment, next.dropWhile isRun)
      else some (.moment, rest)
    | _, _ => (run? run).map (·, rest)

/-- The items of an array, from behind its bracket or a comma, with `item?` to read one. -/
def items? (item? : List Char → Option (Node × List Char)) (s : List Char) :
    Option (List Node × List Char) :=
  match skipFiller false s with
  | ']' :: rest => some ([], rest)
  | start =>
    match item? start with
    | none => none
    | some (node, rest) =>
      match skipFiller false rest with
      | ']' :: rest => some ([node], rest)
      | ',' :: next =>
        if next.length < s.length then (items? item? next).map fun r => (node :: r.1, r.2)
        else none
      | _ => none
termination_by s.length

/-- A dotted key with its value, and what is left behind the blanks that follow. -/
def pair? (item? : List Char → Option (Node × List Char)) (s : List Char) :
    Option (List Key × Key × Node × List Char) :=
  match path? s with
  | some (steps, key, '=' :: rest) =>
    (item? (skipBlanks rest)).map fun r => (steps, key, r.1, skipBlanks r.2)
  | _ => none

/-- The pairs of a table between braces put into `table`, from behind the brace or a comma. -/
def pairs? (item? : List Char → Option (Node × List Char)) (table : Node) (s : List Char) :
    Option (Node × List Char) :=
  match pair? item? s with
  | none => none
  | some (steps, key, value, rest) =>
    match table.insert? steps key value with
    | none => none
    | some table =>
      match rest with
      | '}' :: rest => some (table, rest)
      | ',' :: next => if next.length < s.length then pairs? item? table next else none
      | _ => none
termination_by s.length

/-- The table with its place. -/
def placed (span : Span) : Node → Node
  | .table origin _ entries => .table origin (some span) entries
  | node => node

/-- The value that starts here, nesting at most `depth` deep, and what is left behind it. -/
def value? : Nat → List Char → Option (Node × List Char)
  | 0, s => (scalar? s).map fun r => (.scalar (Span.between s r.2) r.1, r.2)
  | depth + 1, s =>
    match s with
    | '[' :: rest =>
      (items? (value? depth) rest).map fun r => (.array (Span.between s r.2) r.1, r.2)
    | '{' :: rest =>
      match skipBlanks rest with
      | '}' :: rest => some (.table .braces (some (Span.between s rest)) [], rest)
      | _ =>
        (pairs? (value? depth) (.table .braces none []) rest).map fun r =>
          (placed (Span.between s r.2) r.1, r.2)
    | _ => (scalar? s).map fun r => (.scalar (Span.between s r.2) r.1, r.2)

end SupportLayer.Toml
