/-
# Settings from a document

Only the top-level key `runtime` is looked at. It is a table whose keys are settings, or a
sequence of the settings in the order of their names; what is missing has its default. A
dialect is a name, or a table whose one key is the name and whose value is an empty table or
an empty array. Entries are read in the order of the file and the first problem ends the
reading.

A problem stands at the value that has it, or at the key if the value stands nowhere; an
unknown key stands at itself.

Key definitions: `Settings.dialect?`, `Settings.width?`, `Settings.legacy?`,
`Settings.ofEntries`, `Settings.ofItems`, `Settings.ofNode`, `Settings.ofDocument`,
`Settings.ofText`.
-/
import SupportLayer.Fault
import SupportLayer.Settings.Problem
import SupportLayer.Toml.Document
import SupportLayer.Toml.Excerpt

namespace SupportLayer.Settings

/-- The name of the type of a value without parts. -/
def typeName : Toml.Scalar → String
  | .text _ => "string"
  | .integer _ => "integer"
  | .float _ => "float"
  | .boolean _ => "boolean"
  | .moment => "datetime"

/-- The dialect with a name, or the problem at `span`. -/
def dialectNamed (name : List Char) (span : Option Toml.Span) : Except Problem Dialect :=
  match Dialect.ofKey? (String.ofList name) with
  | some d => .ok d
  | none => .error ⟨.unknownDialect name, span⟩

/-- What is wrong with the value under the name of a dialect, which says nothing more and so
has to be empty: a table or an array, but no repeated table, as that is never empty. -/
def contentProblem? (node : Toml.Node) : Option Problem :=
  match node with
  | .table _ _ [] => none
  | .table _ span (_ :: _) => some ⟨.dialectWithContent, span⟩
  | .array _ [] => none
  | .array span (_ :: _) => some ⟨.dialectWithContent, some span⟩
  | .tables [] => none
  | .tables (_ :: _) => some ⟨.dialectWithTables, node.span⟩
  | .scalar span value => some ⟨.dialectWithValue (typeName value), some span⟩

/-- The dialect that a table of entries selects. -/
def dialectOfEntries : Toml.Entries → Except Problem Dialect
  | [] => .error { cause := .noDialect }
  | [(key, node)] => do
    let d ← dialectNamed key.name (some key.span)
    match contentProblem? node with
    | none => pure d
    | some p => .error p
  | _ :: _ :: _ => .error { cause := .severalDialects }

/-- The dialect that a value selects. -/
def dialect? (node : Toml.Node) : Except Problem Dialect :=
  match node with
  | .scalar _ (.text name) => dialectNamed name node.span
  | .table _ span entries => (dialectOfEntries entries).mapError (·.located span)
  | _ => .error ⟨.notADialect, node.span⟩

/-- A problem of the type of a value. -/
def wrongType (node : Toml.Node) (wanted : Wanted) : Problem :=
  ⟨.wrongType (Found.ofNode node) wanted, node.span⟩

/-- The width that a value selects. A width that is not known is noticed only behind the
value, and so has no place of its own. -/
def width? (node : Toml.Node) : Except Problem IntWidth :=
  match node with
  | .scalar _ (.integer n) =>
    if 0 ≤ n ∧ n.toNat < UInt32.size then
      match IntWidth.ofBits n.toNat with
      | .ok w => .ok w
      | .error n => .error { cause := .width n }
    else .error ⟨.outOfRange n, node.span⟩
  | _ => .error (wrongType node .width)

/-- Whether a value asks for the long names. -/
def legacy? (node : Toml.Node) : Except Problem Bool :=
  match node with
  | .scalar _ (.boolean b) => .ok b
  | _ => .error (wrongType node .boolean)

/-- The settings with what one entry of a table sets. -/
def withEntry (s : Settings) (key : Toml.Key) (node : Toml.Node) : Except Problem Settings :=
  let place := node.span <|> some key.span
  if key.name = "dialect".toList then
    match dialect? node with
    | .ok d => .ok { s with dialect := d }
    | .error p => .error (p.located place)
  else if key.name = "int_width".toList then
    match width? node with
    | .ok w => .ok { s with intWidth := w }
    | .error p => .error (p.located place)
  else if key.name = "legacy_aliases".toList then
    match legacy? node with
    | .ok b => .ok { s with legacyAliases := b }
    | .error p => .error (p.located place)
  else .error ⟨.unknownField key.name, some key.span⟩

/-- The settings with what the entries of a table set. -/
def ofEntries : Settings → Toml.Entries → Except Problem Settings
  | s, [] => .ok s
  | s, (key, node) :: rest =>
    match withEntry s key node with
    | .ok s => ofEntries s rest
    | .error p => .error p

/-- The settings that the items of a sequence give: dialect, width and long names, as far
as there are items. -/
def ofItems : List Toml.Node → Except Problem Settings
  | [] => .ok .default
  | [d] => do pure { dialect := ← dialect? d }
  | [d, w] => do pure { dialect := ← dialect? d, intWidth := ← width? w }
  | d :: w :: l :: _ => do
    pure { dialect := ← dialect? d, intWidth := ← width? w, legacyAliases := ← legacy? l }

/-- The key that stands for a moment where a table is wanted. -/
def momentKey : List Char := "$__toml_private_datetime".toList

/-- The settings that the value of `runtime` gives. -/
def ofNode (node : Toml.Node) : Except Problem Settings :=
  let read :=
    match node with
    | .table _ _ entries => ofEntries .default entries
    | .array _ items => ofItems items
    | .tables items => ofItems items
    | .scalar _ .moment => .error { cause := .unknownField momentKey }
    | .scalar _ _ => .error (wrongType node .settings)
  read.mapError (·.located node.span)

/-- The settings of a document: the defaults if it has no key `runtime`. -/
def ofDocument : Toml.Node → Except Problem Settings
  | .table _ _ entries =>
    match entries.find? fun entry => entry.1.name = "runtime".toList with
    | some (key, node) => (ofNode node).mapError (·.located (some key.span))
    | none => .ok .default
  | _ => .ok .default

/-- The report of a problem in a text. -/
def Problem.report (text : List Char) (p : Problem) : String :=
  match p.span with
  | some span => String.ofList (Toml.report text span p.cause.text)
  | none => String.ofList (p.cause.text ++ ['\n'])

/-- The settings that a text gives. A text that is no document is refused in the words of the
parser, which are its own matter: `syntaxError` gives them. -/
def ofText (syntaxError : List Char → String) (text : List Char) : Except Fault Settings :=
  match Toml.document? text with
  | none => .error (.invalidSettings (syntaxError text))
  | some document =>
    match ofDocument document with
    | .ok s => .ok s
    | .error p => .error (.invalidSettings (p.report text))

end SupportLayer.Settings
