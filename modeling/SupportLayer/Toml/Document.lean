/-
# Documents

A document is read line by line: blank lines and comments say nothing, a header in single
brackets opens a table, one in double brackets adds a table to those of its key, and any
other line puts a value into the table opened last, or into the document itself before any
header. Each line works on the tree as it stands, so the tree is never in pieces.

Key definitions: `Toml.Draft`, `Toml.Line`, `Toml.line?`, `Toml.Draft.add?`,
`Toml.read?`, `Toml.document?`.
-/
import SupportLayer.Toml.Value

namespace SupportLayer.Toml

/-- A document half read: its tree, and the path of the table opened last. -/
structure Draft where
  root : Node
  here : List Key

/-- What a line says. -/
inductive Line where
  | nothing
  | opens (steps : List Key) (key : Key) (place : Span)
  | repeats (steps : List Key) (key : Key) (place : Span)
  | binds (steps : List Key) (key : Key) (value : Node)

/-- The draft before the first line. -/
def Draft.empty : Draft := ⟨.empty, []⟩

/-- The draft after one more line. -/
def Draft.add? (draft : Draft) : Line → Option Draft
  | .nothing => some draft
  | .opens steps key place =>
    (draft.root.within? (Node.open? key place) steps).map (⟨·, steps ++ [key]⟩)
  | .repeats steps key place =>
    (draft.root.within? (Node.repeat? key place) steps).map (⟨·, steps ++ [key]⟩)
  | .binds steps key value =>
    (draft.root.within? (fun table => (table.reach value).insert? steps key value) draft.here).map
      (⟨·, draft.here⟩)

/-- What is left behind a closing bracket, or two. -/
def closed? (double : Bool) : List Char → Option (List Char)
  | ']' :: rest => if double then after? ']' rest else some rest
  | _ => none

/-- The header that starts here, from behind its opening brackets. -/
def header? (double : Bool) (start rest : List Char) : Option (Line × List Char) :=
  match path? rest with
  | none => none
  | some (steps, key, rest) =>
    match closed? double rest with
    | none => none
    | some rest =>
      let line := if double then Line.repeats steps key (Span.between start rest)
        else Line.opens steps key (Span.between start rest)
      (lineEnd? rest).map (line, ·)

/-- The line that starts here, behind its blanks, and what is left behind its end. -/
def line? (s : List Char) : Option (Line × List Char) :=
  match s with
  | [] => none
  | '[' :: '[' :: rest => header? true s rest
  | '[' :: rest => header? false s rest
  | c :: _ =>
    if c = '#' ∨ c = '\n' ∨ c = '\r' then (lineEnd? s).map (.nothing, ·)
    else
      match pair? (value? (nestingLimit - 1)) s with
      | none => none
      | some (steps, key, value, rest) => (lineEnd? rest).map (.binds steps key value, ·)

/-- Reads the lines of a text into a draft. -/
def read? (draft : Draft) (s : List Char) : Option Draft :=
  match skipBlanks s with
  | [] => some draft
  | start =>
    match line? start with
    | none => none
    | some (line, rest) =>
      match draft.add? line with
      | none => none
      | some draft => if rest.length < s.length then read? draft rest else none
termination_by s.length

/-- The text without a mark of byte order in front. -/
def withoutMark : List Char → List Char
  | c :: rest => if c = '\ufeff' then rest else c :: rest
  | [] => []

/-- The tree of a document. -/
def document? (text : List Char) : Option Node :=
  (read? .empty (withoutMark text)).map (·.root)

end SupportLayer.Toml
