/-
# Documents as trees

What a TOML text says: scalars, arrays, and tables whose entries stay in the order in which
they were first named. Every node remembers where it stands, and a table how it came about,
because a table may be reopened only by the kind of line that made it.

A place is told by how much of the text is left when it starts and when it ends. Counted
from the end, it does not change when something is put in front of the document.

Key definitions: `Toml.Span`, `Toml.Key`, `Toml.Scalar`, `Toml.Node`, `Toml.Node.span`,
`Toml.lookup`, `Toml.update`.
Key theorems: `Toml.lookup_update_self`, `Toml.lookup_update_ne`.
-/
import SupportLayer.Number.Double
import SupportLayer.Text.Utf8

namespace SupportLayer.Toml

/-- A place in a text: the number of bytes left at its start and at its end. -/
structure Span where
  start : Nat
  stop : Nat
  deriving DecidableEq, Repr

/-- The place from which `before` is left to which `after` is left. -/
def Span.between (before after : List Char) : Span := ⟨Utf8.size before, Utf8.size after⟩

/-- A key as it is meant, and where it is written. -/
structure Key where
  name : List Char
  span : Span
  deriving DecidableEq, Repr

/-- The values without parts. Of a date or a time only the fact is kept. -/
inductive Scalar where
  | text (s : List Char)
  | integer (n : Int)
  | float (x : Double)
  | boolean (b : Bool)
  | moment
  deriving DecidableEq, Repr

/-- How a table came about: between braces, by a header of its own (or as the document
itself), as a step in the path of a header, or as a step in a dotted key. -/
inductive Origin where
  | braces | header | headerStep | keyStep
  deriving DecidableEq, Repr

/-- A value: a scalar, an array between brackets, the tables of a repeated header, or a
table with its entries. -/
inductive Node where
  | scalar (span : Span) (value : Scalar)
  | array (span : Span) (items : List Node)
  | tables (items : List Node)
  | table (origin : Origin) (span : Option Span) (entries : List (Key × Node))
  deriving Repr

/-- The entries of a table, in order. -/
abbrev Entries := List (Key × Node)

/-- The empty document. -/
def Node.empty : Node := .table .header none []

/-- The span of a table. -/
def Node.tableSpan : Node → Option Span
  | .table _ span _ => span
  | _ => none

/-- Where a node stands. Tables that no header or brace of their own brought about stand
nowhere; repeated tables reach from the first to the last. -/
def Node.span : Node → Option Span
  | .scalar span _ => some span
  | .array span _ => some span
  | .table _ span _ => span
  | .tables items =>
    match items.head?.bind tableSpan, items.getLast?.bind tableSpan with
    | some first, some last => some ⟨first.start, last.stop⟩
    | _, _ => none

/-- The node that a name is bound to. -/
def lookup (name : List Char) : Entries → Option Node
  | [] => none
  | (key, node) :: rest => if key.name = name then some node else lookup name rest

/-- Changes what a key is bound to, or binds it behind the other entries. -/
def update (key : Key) (change : Option Node → Option Node) : Entries → Option Entries
  | [] => (change none).map fun node => [(key, node)]
  | (key', node) :: rest =>
    if key'.name = key.name then (change (some node)).map fun node' => (key', node') :: rest
    else (update key change rest).map ((key', node) :: ·)

/-- The entries without those of a name. -/
def erase (name : List Char) (entries : Entries) : Entries :=
  entries.filter fun entry => entry.1.name ≠ name

theorem lookup_update_self {key : Key} {change : Option Node → Option Node} :
    ∀ {entries entries' : Entries}, update key change entries = some entries' →
      lookup key.name entries' = change (lookup key.name entries)
  | [], entries', h => by
    obtain ⟨node, hn, rfl⟩ := Option.map_eq_some_iff.1 h
    simp [lookup, hn]
  | (key', node) :: rest, entries', h => by
    unfold update at h
    split at h
    · next hk =>
      obtain ⟨node', hn, rfl⟩ := Option.map_eq_some_iff.1 h
      simp [lookup, hk, hn]
    · next hk =>
      obtain ⟨rest', hr, rfl⟩ := Option.map_eq_some_iff.1 h
      simp [lookup, hk, lookup_update_self hr]

theorem lookup_update_ne {key : Key} {change : Option Node → Option Node} {name : List Char}
    (hne : name ≠ key.name) :
    ∀ {entries entries' : Entries}, update key change entries = some entries' →
      lookup name entries' = lookup name entries
  | [], entries', h => by
    obtain ⟨node, hn, rfl⟩ := Option.map_eq_some_iff.1 h
    simp [lookup, hne.symm]
  | (key', node) :: rest, entries', h => by
    unfold update at h
    split at h
    · next hk =>
      obtain ⟨node', hn, rfl⟩ := Option.map_eq_some_iff.1 h
      simp [lookup, hk, hne.symm]
    · next hk =>
      obtain ⟨rest', hr, rfl⟩ := Option.map_eq_some_iff.1 h
      simp [lookup, lookup_update_ne hne hr]

end SupportLayer.Toml
