/-
# Strings

The four kinds of string: basic and literal, each on one line or on several. Basic strings
know escapes; in literal ones every character stands for itself. On several lines a line
feed right behind the opening quotes is dropped, a carriage return before a line feed too,
and one or two quotes that do not close the string belong to it.

Key definitions: `Toml.basicText?`, `Toml.literalText?`, `Toml.multilineBasic?`,
`Toml.multilineLiteral?`, `Toml.text?`.
-/
import SupportLayer.Toml.Lexical

namespace SupportLayer.Toml

/-- The character that a letter behind a backslash stands for. -/
def shortEscape? (c : Char) : Option Char :=
  match c with
  | 'b' => some '\x08'
  | 't' => some '\t'
  | 'n' => some '\n'
  | 'f' => some '\x0c'
  | 'r' => some '\r'
  | '"' => some '"'
  | '\\' => some '\\'
  | _ => none

/-- The number of hexadecimal digits that a letter behind a backslash announces. -/
def longEscape? (c : Char) : Option Nat :=
  if c = 'u' then some 4 else if c = 'U' then some 8 else none

/-- The character with a scalar value. Surrogates have none. -/
def scalarValue? (n : Nat) : Option Char :=
  if n.isValidChar then some (Char.ofNat n) else none

/-- Where the reading of a basic string stands: in the text, behind a backslash, among the
digits of an escape, behind a backslash and blanks that must end their line, or among the
blanks and ends of lines that such a backslash removes. -/
inductive Reading where
  | text
  | backslash
  | code (left value : Nat)
  | lineBreak
  | trimming

/-- A character in front of a text that was read. -/
def withChar (c : Char) (read : Option (List Char × List Char)) :
    Option (List Char × List Char) :=
  read.map fun r => (c :: r.1, r.2)

/-- The text of a basic string on one line, from behind its opening quote, and what is left
behind its closing quote. -/
def basicText? : Reading → List Char → Option (List Char × List Char)
  | _, [] => none
  | .backslash, c :: rest =>
    match longEscape? c, shortEscape? c with
    | some n, _ => basicText? (.code n 0) rest
    | none, some x => withChar x (basicText? .text rest)
    | none, none => none
  | .code left value, c :: rest =>
    match hexDigit? c with
    | none => none
    | some d =>
      if left ≤ 1 then
        match scalarValue? (16 * value + d) with
        | some x => withChar x (basicText? .text rest)
        | none => none
      else basicText? (.code (left - 1) (16 * value + d)) rest
  | _, c :: rest =>
    if c = '"' then some ([], rest)
    else if c = '\\' then basicText? .backslash rest
    else if isTextual c then withChar c (basicText? .text rest)
    else none

/-- The text of a literal string on one line, from behind its opening quote. -/
def literalText? : List Char → Option (List Char × List Char)
  | [] => none
  | c :: rest =>
    if c = '\'' then some ([], rest)
    else if isTextual c then withChar c (literalText? rest)
    else none

/-- The quotes of the text and what is left, at three quotes in a row: they close the string,
but one or two that follow come first and belong to it. -/
def closing (quote : Char) : List Char → List Char × List Char
  | a :: b :: rest =>
    if a = quote then if b = quote then ([quote, quote], rest) else ([quote], b :: rest)
    else ([], a :: b :: rest)
  | [a] => if a = quote then ([quote], []) else ([], [a])
  | [] => ([], [])

/-- What is left behind three quotes in a row. -/
def tripleQuote? (quote : Char) : List Char → Option (List Char)
  | a :: b :: c :: rest => if a = quote ∧ b = quote ∧ c = quote then some rest else none
  | _ => none

/-- The text of a basic string on several lines, from behind its opening quotes. -/
def multilineBasic? : Reading → List Char → Option (List Char × List Char)
  | _, [] => none
  | .backslash, c :: rest =>
    match longEscape? c, shortEscape? c with
    | some n, _ => multilineBasic? (.code n 0) rest
    | none, some x => withChar x (multilineBasic? .text rest)
    | none, none =>
      if isBlank c then multilineBasic? .lineBreak rest
      else if c = '\n' then multilineBasic? .trimming rest
      else if c = '\r' then
        match rest with
        | '\n' :: rest => multilineBasic? .trimming rest
        | _ => none
      else none
  | .code left value, c :: rest =>
    match hexDigit? c with
    | none => none
    | some d =>
      if left ≤ 1 then
        match scalarValue? (16 * value + d) with
        | some x => withChar x (multilineBasic? .text rest)
        | none => none
      else multilineBasic? (.code (left - 1) (16 * value + d)) rest
  | .lineBreak, c :: rest =>
    if isBlank c then multilineBasic? .lineBreak rest
    else if c = '\n' then multilineBasic? .trimming rest
    else if c = '\r' then
      match rest with
      | '\n' :: rest => multilineBasic? .trimming rest
      | _ => none
    else none
  | state, c :: rest =>
    if c = '\n' then
      match state with
      | .trimming => multilineBasic? .trimming rest
      | _ => withChar '\n' (multilineBasic? .text rest)
    else if c = '\r' then
      match state, rest with
      | .trimming, '\n' :: rest => multilineBasic? .trimming rest
      | _, '\n' :: rest => withChar '\n' (multilineBasic? .text rest)
      | _, _ => none
    else if c = '"' then
      match tripleQuote? '"' (c :: rest) with
      | some rest => some (closing '"' rest)
      | none => withChar '"' (multilineBasic? .text rest)
    else if c = '\\' then multilineBasic? .backslash rest
    else
      match state with
      | .trimming =>
        if isBlank c then multilineBasic? .trimming rest
        else if isTextual c then withChar c (multilineBasic? .text rest)
        else none
      | _ => if isTextual c then withChar c (multilineBasic? .text rest) else none

/-- The text of a literal string on several lines, from behind its opening quotes. -/
def multilineLiteral? : List Char → Option (List Char × List Char)
  | [] => none
  | c :: rest =>
    if c = '\n' then withChar '\n' (multilineLiteral? rest)
    else if c = '\r' then
      match rest with
      | '\n' :: rest => withChar '\n' (multilineLiteral? rest)
      | _ => none
    else if c = '\'' then
      match tripleQuote? '\'' (c :: rest) with
      | some rest => some (closing '\'' rest)
      | none => withChar '\'' (multilineLiteral? rest)
    else if isTextual c then withChar c (multilineLiteral? rest)
    else none

/-- What is left behind the end of a line, if one stands here. -/
def skipNewline (s : List Char) : List Char := (newline? s).getD s

/-- The text of a string of any kind that starts here. -/
def text? (s : List Char) : Option (List Char × List Char) :=
  match tripleQuote? '"' s, tripleQuote? '\'' s, s with
  | some rest, _, _ => multilineBasic? .text (skipNewline rest)
  | none, some rest, _ => multilineLiteral? (skipNewline rest)
  | none, none, '"' :: rest => basicText? .text rest
  | none, none, '\'' :: rest => literalText? rest
  | none, none, _ => none

end SupportLayer.Toml
