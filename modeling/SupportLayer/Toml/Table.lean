/-
# How tables grow

A line of a document either puts a value under a dotted key or opens a table. Dotted keys
go through tables that no header or brace has settled, and make those that are missing; the
last of them must be a table that dotted keys made. A header goes through any table not
between braces, and through the last of repeated tables, and makes those that are missing;
it may settle a table that only the paths of headers have named, which then counts as named
here. Anything else would say a thing twice and is refused.

Key definitions: `Toml.Node.insert?`, `Toml.Node.within?`, `Toml.Node.open?`,
`Toml.Node.repeat?`.
-/
import SupportLayer.Toml.Node

namespace SupportLayer.Toml.Node

/-- The last item changed. -/
def changeLast (change : Node → Option Node) : List Node → Option (List Node)
  | [] => none
  | [node] => (change node).map ([·])
  | node :: rest => (changeLast change rest).map (node :: ·)

/-- A table with a value put in under a key that must be new. -/
def bind? (key : Key) (value : Node) : Node → Option Node
  | .table origin span entries =>
    (update key (fun old => if old.isNone then some value else none) entries).map
      (.table origin span ·)
  | _ => none

/-- The table that one step of a dotted key leads to, changed. -/
def step? (change : Node → Option Node) : Option Node → Option Node
  | none => change (.table .keyStep none [])
  | some (.table .keyStep span entries) => change (.table .keyStep span entries)
  | some (.table .headerStep span entries) => change (.table .headerStep span entries)
  | some (.tables items) => (changeLast change items).map .tables
  | some _ => none

/-- A table that dotted keys made, with a value put in. -/
def bindStep? (key : Key) (value : Node) : Node → Option Node
  | .table .keyStep span entries => bind? key value (.table .keyStep span entries)
  | _ => none

/-- A table with a value put in behind the steps of a dotted key, of which there is one at
least. -/
def insertBehind? (key : Key) (value : Node) : List Key → Node → Option Node
  | [], node => bindStep? key value node
  | step :: steps, .table origin span entries =>
    (update step (step? (insertBehind? key value steps)) entries).map (.table origin span ·)
  | _ :: _, _ => none

/-- A table with a value put in under a dotted key: the steps before the last key, and the
last key. -/
def insert? (node : Node) (steps : List Key) (key : Key) (value : Node) : Option Node :=
  match steps with
  | [] => bind? key value node
  | _ :: _ => insertBehind? key value steps node

/-- The table behind a path of headers, changed. -/
def within? (change : Node → Option Node) : List Key → Node → Option Node
  | [], node => change node
  | step :: steps, .table origin span entries =>
    (update step (fun old =>
      match old with
      | none => within? change steps (.table .headerStep none [])
      | some (.table .braces _ _) => none
      | some (.table origin' span' entries') => within? change steps (.table origin' span' entries')
      | some (.tables items) => (changeLast (within? change steps) items).map .tables
      | some (.scalar _ _) => none
      | some (.array _ _) => none) entries).map (.table origin span ·)
  | _ :: _, _ => none

/-- A table in which a header settles the table of a key. One that the paths of earlier
headers named keeps its entries but moves behind the others. -/
def open? (key : Key) (place : Span) : Node → Option Node
  | .table origin span entries =>
    match lookup key.name entries with
    | none => some (.table origin span (entries ++ [(key, .table .header (some place) [])]))
    | some (.table .headerStep _ inner) =>
      some (.table origin span (erase key.name entries ++ [(key, .table .header (some place) inner)]))
    | some _ => none
  | _ => none

/-- A table in which a header of a repeated table adds one more to those of a key. -/
def repeat? (key : Key) (place : Span) : Node → Option Node
  | .table origin span entries =>
    (update key (fun old =>
      match old with
      | none => some (.tables [.table .header (some place) []])
      | some (.tables items) => some (.tables (items ++ [.table .header (some place) []]))
      | some _ => none) entries).map (.table origin span ·)
  | _ => none

/-- The table with its place reaching to where a value ends. -/
def reach (node value : Node) : Node :=
  match node, value.span with
  | .table origin (some place) entries, some span =>
    .table origin (some ⟨place.start, span.stop⟩) entries
  | _, _ => node

end SupportLayer.Toml.Node
