/-
# Trees with their places moved

Places are counted from the end of a text, so with more text behind them they all move by its
size. Nothing that makes a table grow decides by where something stands, only by names and by the
kind of node it meets; so each of these steps does on moved trees what it does on the trees
themselves, and the result is moved alike (`Draft.add?_moved`).

Key definitions: `Toml.Span.moved`, `Toml.Key.moved`, `Toml.Node.moved`, `Toml.Node.Carries`,
`Toml.Line.moved`, `Toml.Draft.moved`.
Key theorems: `Toml.update_moved`, `Toml.Node.insert?_moved`, `Toml.Node.carries_within?`,
`Toml.Draft.add?_moved`.
-/
import Mathlib
import SupportLayer.Toml.Document

namespace SupportLayer.Toml

/-- A place with `k` more bytes behind it. -/
def Span.moved (k : ℕ) (span : Span) : Span := ⟨span.start + k, span.stop + k⟩

/-- A key with `k` more bytes behind it. -/
def Key.moved (k : ℕ) (key : Key) : Key := ⟨key.name, key.span.moved k⟩

/-- A tree with `k` more bytes behind its text. -/
def Node.moved (k : ℕ) : Node → Node
  | .scalar span value => .scalar (span.moved k) value
  | .array span items => .array (span.moved k) (items.map (moved k))
  | .tables items => .tables (items.map (moved k))
  | .table origin span entries =>
    .table origin (span.map (·.moved k)) (entries.map fun e => (e.1.moved k, moved k e.2))
decreasing_by
  all_goals have hsize := List.sizeOf_lt_of_mem ‹_›
  · simp only [Node.array.sizeOf_spec]
    omega
  · simp only [Node.tables.sizeOf_spec]
    omega
  · have hentry : sizeOf e.2 < sizeOf e := by
      cases e
      simp only [Prod.mk.sizeOf_spec]
      omega
    simp only [Node.table.sizeOf_spec]
    omega

/-- Entries with `k` more bytes behind them. -/
def movedEntries (k : ℕ) (entries : Entries) : Entries :=
  entries.map fun e => (e.1.moved k, e.2.moved k)

variable {k : ℕ}

@[simp] theorem Key.name_moved (key : Key) : (key.moved k).name = key.name := rfl

@[simp] theorem movedEntries_nil : movedEntries k [] = [] := rfl

@[simp] theorem movedEntries_cons (key : Key) (node : Node) (rest : Entries) :
    movedEntries k ((key, node) :: rest) = (key.moved k, node.moved k) :: movedEntries k rest := rfl

theorem movedEntries_append (entries rest : Entries) :
    movedEntries k (entries ++ rest) = movedEntries k entries ++ movedEntries k rest :=
  List.map_append

theorem Node.moved_scalar (span : Span) (value : Scalar) :
    (Node.scalar span value).moved k = .scalar (span.moved k) value := by rw [moved]

theorem Node.moved_array (span : Span) (items : List Node) :
    (Node.array span items).moved k = .array (span.moved k) (items.map (moved k)) := by rw [moved]

theorem Node.moved_tables (items : List Node) :
    (Node.tables items).moved k = .tables (items.map (moved k)) := by rw [moved]

theorem Node.moved_table (origin : Origin) (span : Option Span) (entries : Entries) :
    (Node.table origin span entries).moved k =
      .table origin (span.map (·.moved k)) (movedEntries k entries) := by
  rw [moved, movedEntries]

theorem Node.tableSpan_moved (node : Node) :
    (node.moved k).tableSpan = node.tableSpan.map (·.moved k) := by
  cases node <;>
    simp only [moved_scalar, moved_array, moved_tables, moved_table, tableSpan, Option.map_none]

theorem Node.span_moved (node : Node) : (node.moved k).span = node.span.map (·.moved k) := by
  cases node with
  | scalar span value => rw [moved_scalar]; rfl
  | array span items => rw [moved_array]; rfl
  | table origin span entries => rw [moved_table]; rfl
  | tables items =>
    have hbind : ∀ node? : Option Node, (node?.map (moved k)).bind tableSpan =
        (node?.bind tableSpan).map (·.moved k) := by
      rintro (_ | node)
      · rfl
      · exact tableSpan_moved node
    simp only [moved_tables, span, List.head?_map, List.getLast?_map, hbind]
    cases items.head?.bind tableSpan <;> cases items.getLast?.bind tableSpan <;> rfl

/-! ### Entries -/

theorem lookup_moved (name : List Char) : ∀ entries : Entries,
    lookup name (movedEntries k entries) = (lookup name entries).map (·.moved k)
  | [] => rfl
  | (key, node) :: rest => by
    rw [movedEntries_cons, lookup, lookup, Key.name_moved]
    split
    · rfl
    · exact lookup_moved name rest

theorem erase_moved (name : List Char) (entries : Entries) :
    erase name (movedEntries k entries) = movedEntries k (erase name entries) := by
  simp only [erase, movedEntries, List.filter_map]
  rfl

/-- An update does on moved entries what it does on the entries. -/
theorem update_moved {key : Key} {change change' : Option Node → Option Node}
    (hchange : ∀ old, change' (old.map (Node.moved k)) = (change old).map (Node.moved k)) :
    ∀ entries : Entries, update (key.moved k) change' (movedEntries k entries) =
      (update key change entries).map (movedEntries k)
  | [] => by
    have hnone := hchange none
    rw [Option.map_none] at hnone
    simp only [movedEntries_nil, update, hnone, Option.map_map]
    rfl
  | (key', node) :: rest => by
    have hsome := hchange (some node)
    rw [Option.map_some] at hsome
    simp only [movedEntries_cons, update, Key.name_moved]
    by_cases hname : key'.name = key.name
    · simp only [if_pos hname, hsome, Option.map_map]
      rfl
    · simp only [if_neg hname, update_moved hchange rest, Option.map_map]
      rfl

namespace Node

/-- A change does on moved trees what another does on the trees. -/
def Carries (k : ℕ) (change change' : Node → Option Node) : Prop :=
  ∀ node, change' (node.moved k) = (change node).map (moved k)

variable {change change' : Node → Option Node}

theorem changeLast_moved (hchange : Carries k change change') : ∀ items : List Node,
    changeLast change' (items.map (moved k)) = (changeLast change items).map (List.map (moved k))
  | [] => rfl
  | [node] => by
    simp only [List.map_cons, List.map_nil, changeLast, hchange node, Option.map_map]
    rfl
  | node :: next :: rest => by
    have ih := changeLast_moved hchange (next :: rest)
    rw [List.map_cons] at ih
    simp only [List.map_cons, changeLast, ih, Option.map_map]
    rfl

theorem tables_changeLast_moved (hchange : Carries k change change') (items : List Node) :
    (changeLast change' (items.map (moved k))).map tables =
      ((changeLast change items).map tables).map (moved k) := by
  rw [changeLast_moved hchange, Option.map_map, Option.map_map]
  congr 1
  funext items'
  exact (moved_tables items').symm

/-- Moved entries of a table changed by an update. -/
theorem table_update_moved {origin : Origin} {span : Option Span} {entries : Entries} {key : Key}
    {change change' : Option Node → Option Node}
    (hchange : ∀ old, change' (old.map (moved k)) = (change old).map (moved k)) :
    (update (key.moved k) change' (movedEntries k entries)).map
        (table origin (span.map (·.moved k))) =
      ((update key change entries).map (table origin span)).map (moved k) := by
  rw [update_moved hchange, Option.map_map, Option.map_map]
  congr 1
  funext entries'
  exact (moved_table origin span entries').symm

/-! ### Dotted keys -/

variable {key : Key} {value : Node}

theorem carries_bind? : Carries k (bind? key value) (bind? (key.moved k) (value.moved k)) := by
  intro node
  cases node with
  | table origin span entries =>
    rw [moved_table]
    refine table_update_moved fun old => ?_
    cases old <;> rfl
  | _ => simp only [moved_scalar, moved_array, moved_tables, bind?, Option.map_none]

theorem carries_bindStep? :
    Carries k (bindStep? key value) (bindStep? (key.moved k) (value.moved k)) := by
  intro node
  cases node with
  | table origin span entries =>
    have hbind : bind? (key.moved k) (value.moved k) ((table origin span entries).moved k) = _ :=
      carries_bind? _
    rw [moved_table] at hbind ⊢
    cases origin with
    | keyStep => exact hbind
    | _ => rfl
  | _ => simp only [moved_scalar, moved_array, moved_tables, bindStep?, Option.map_none]

theorem step?_moved (hchange : Carries k change change') (old : Option Node) :
    step? change' (old.map (moved k)) = (step? change old).map (moved k) := by
  cases old with
  | none =>
    have hempty := hchange (.table .keyStep none [])
    rw [moved_table] at hempty
    exact hempty
  | some node =>
    rw [Option.map_some]
    cases node with
    | table origin span entries =>
      have htable := hchange (.table origin span entries)
      rw [moved_table] at htable ⊢
      cases origin with
      | keyStep => exact htable
      | headerStep => exact htable
      | _ => rfl
    | tables items =>
      rw [moved_tables]
      exact tables_changeLast_moved hchange items
    | scalar span value => rw [moved_scalar]; rfl
    | array span items => rw [moved_array]; rfl

theorem carries_insertBehind? : ∀ steps : List Key,
    Carries k (insertBehind? key value steps)
      (insertBehind? (key.moved k) (value.moved k) (steps.map (·.moved k)))
  | [] => carries_bindStep?
  | step :: steps => by
    intro node
    cases node with
    | table origin span entries =>
      rw [moved_table]
      exact table_update_moved (step?_moved (carries_insertBehind? steps))
    | _ =>
      simp only [List.map_cons, moved_scalar, moved_array, moved_tables, insertBehind?,
        Option.map_none]

/-- A dotted key puts its value into a moved table as into the table. -/
theorem insert?_moved (node : Node) (steps : List Key) :
    (node.moved k).insert? (steps.map (·.moved k)) (key.moved k) (value.moved k) =
      (node.insert? steps key value).map (moved k) := by
  cases steps with
  | nil => exact carries_bind? node
  | cons step steps => exact carries_insertBehind? (step :: steps) node

/-! ### Headers -/

theorem carries_within? (hchange : Carries k change change') : ∀ steps : List Key,
    Carries k (within? change steps) (within? change' (steps.map (·.moved k)))
  | [] => hchange
  | step :: steps => by
    have ih := carries_within? hchange steps
    intro node
    cases node with
    | table origin span entries =>
      rw [moved_table]
      refine table_update_moved fun old => ?_
      rcases old with _ | ⟨_ | _ | items | ⟨origin', span', entries'⟩⟩
      · have hempty := ih (.table .headerStep none [])
        rw [moved_table] at hempty
        exact hempty
      · rw [Option.map_some, moved_scalar]
        rfl
      · rw [Option.map_some, moved_array]
        rfl
      · rw [Option.map_some, moved_tables]
        exact tables_changeLast_moved ih items
      · have htable := ih (.table origin' span' entries')
        rw [moved_table] at htable
        rw [Option.map_some, moved_table]
        cases origin' with
        | braces => rfl
        | _ => exact htable
    | _ =>
      simp only [List.map_cons, moved_scalar, moved_array, moved_tables, within?, Option.map_none]

theorem carries_open? {place : Span} :
    Carries k (open? key place) (open? (key.moved k) (place.moved k)) := by
  intro node
  cases node with
  | table origin span entries =>
    simp only [moved_table, open?, Key.name_moved, lookup_moved]
    rcases lookup key.name entries with _ | ⟨_ | _ | _ | ⟨_ | _ | _ | _, span', inner⟩⟩ <;>
      simp only [Option.map_none, Option.map_some, moved_scalar, moved_array, moved_tables,
        moved_table, movedEntries_append, movedEntries_cons, movedEntries_nil, erase_moved]
  | _ => simp only [moved_scalar, moved_array, moved_tables, open?, Option.map_none]

theorem carries_repeat? {place : Span} :
    Carries k (repeat? key place) (repeat? (key.moved k) (place.moved k)) := by
  intro node
  cases node with
  | table origin span entries =>
    rw [moved_table]
    refine table_update_moved fun old => ?_
    rcases old with _ | ⟨_ | _ | items | ⟨origin', span', entries'⟩⟩
    · simp only [Option.map_none, Option.map_some, moved_tables, moved_table, List.map_cons,
        List.map_nil, movedEntries_nil]
    · rw [Option.map_some, moved_scalar]
      rfl
    · rw [Option.map_some, moved_array]
      rfl
    · simp only [Option.map_some, moved_tables, moved_table, List.map_append, List.map_cons,
        List.map_nil, movedEntries_nil]
    · rw [Option.map_some, moved_table]
      rfl
  | _ => simp only [moved_scalar, moved_array, moved_tables, repeat?, Option.map_none]

theorem reach_moved (node value : Node) :
    (node.moved k).reach (value.moved k) = (node.reach value).moved k := by
  cases node with
  | table origin span entries =>
    rw [moved_table]
    simp only [reach, span_moved]
    cases span with
    | none => rw [moved_table]; rfl
    | some place =>
      cases value.span with
      | none => rw [moved_table]; rfl
      | some => rw [moved_table]; rfl
  | _ => simp only [moved_scalar, moved_array, moved_tables, reach]

theorem placed_moved (place : Span) (node : Node) :
    placed (place.moved k) (node.moved k) = (placed place node).moved k := by
  cases node with
  | table origin span entries => simp only [placed, moved_table, Option.map_some]
  | _ => simp only [moved_scalar, moved_array, moved_tables, placed]

end Node

/-! ### Lines -/

/-- A line with `k` more bytes behind it. -/
def Line.moved (k : ℕ) : Line → Line
  | .nothing => .nothing
  | .opens steps key place => .opens (steps.map (·.moved k)) (key.moved k) (place.moved k)
  | .repeats steps key place => .repeats (steps.map (·.moved k)) (key.moved k) (place.moved k)
  | .binds steps key value => .binds (steps.map (·.moved k)) (key.moved k) (value.moved k)

/-- A draft with `k` more bytes behind what is read of it. -/
def Draft.moved (k : ℕ) (draft : Draft) : Draft :=
  ⟨draft.root.moved k, draft.here.map (·.moved k)⟩

theorem Draft.moved_empty : Draft.empty.moved k = .empty := by
  rw [moved, empty, Node.empty, Node.moved_table]
  rfl

/-- A moved line does to a moved draft what the line does to the draft. -/
theorem Draft.add?_moved (draft : Draft) (line : Line) :
    (draft.moved k).add? (line.moved k) = (draft.add? line).map (moved k) := by
  cases line with
  | nothing => rfl
  | opens steps key place =>
    simp only [Line.moved, add?, moved, Node.carries_within? Node.carries_open? steps draft.root,
      Option.map_map]
    congr 1
    funext root
    simp only [Function.comp_apply, moved, List.map_append, List.map_cons, List.map_nil]
  | repeats steps key place =>
    simp only [Line.moved, add?, moved, Node.carries_within? Node.carries_repeat? steps draft.root,
      Option.map_map]
    congr 1
    funext root
    simp only [Function.comp_apply, moved, List.map_append, List.map_cons, List.map_nil]
  | binds steps key value =>
    have hinsert : Node.Carries k (fun table => (table.reach value).insert? steps key value)
        (fun table => (table.reach (value.moved k)).insert? (steps.map (·.moved k)) (key.moved k)
          (value.moved k)) := by
      intro table
      beta_reduce
      rw [Node.reach_moved, Node.insert?_moved]
    simp only [Line.moved, add?, moved, Node.carries_within? hinsert draft.here draft.root,
      Option.map_map]
    rfl

end SupportLayer.Toml
