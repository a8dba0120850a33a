/-
# A table behind a document

By the time the lines of a document are read, the draft is a table with the entries of the
document, and what follows is read into that draft as into an empty one. If it is the header of a
name that is not bound yet, it puts its table behind those entries; each line under it changes
what that name is bound to, and an update goes past entries of other names. So the tree of the
whole is the tree of the second part with the entries of the first in front.

Key definitions: `Toml.Node.IsTable`, `Toml.Node.behind`, `Toml.Headerless`, `Toml.OneTable`.
Key theorems: `Toml.isTable_of_read?`, `Toml.update_append`, `Toml.read?_behind`,
`Toml.oneTable_bracketed`, `Toml.document?_behind`.
-/
import Mathlib
import SupportLayer.Proofs.Toml.Longer.Documents

namespace SupportLayer.Toml

variable {origin origin' : Origin} {span span' : Option Span} {entries front : Entries}

/-! ### Tables stay tables -/

/-- A tree that is a table. -/
inductive Node.IsTable : Node → Prop
  | intro {origin : Origin} {span : Option Span} {entries : Entries} :
      IsTable (.table origin span entries)

/-- A change that gives nothing but tables. -/
def Node.GivesTables (change : Node → Option Node) : Prop :=
  ∀ node node', change node = some node' → node'.IsTable

namespace Node

theorem isTable_of_map {α : Type} {read : Option α} {f : α → Entries} {node : Node}
    (h : read.map (fun a => table origin span (f a)) = some node) : node.IsTable := by
  obtain ⟨a, -, rfl⟩ := Option.map_eq_some_iff.mp h
  exact .intro

theorem givesTables_bind? (key : Key) (value : Node) : GivesTables (bind? key value) := by
  intro node node' h
  cases node with
  | table origin span entries => exact isTable_of_map h
  | _ => cases h

theorem givesTables_insert? (steps : List Key) (key : Key) (value : Node) :
    GivesTables fun table => table.insert? steps key value := by
  intro node node' h
  cases steps with
  | nil => exact givesTables_bind? key value node node' h
  | cons step steps =>
    cases node with
    | table origin span entries => exact isTable_of_map h
    | _ => cases h

theorem givesTables_open? (key : Key) (place : Span) : GivesTables (open? key place) := by
  intro node node' h
  unfold open? at h
  split at h
  · split at h
    · cases h
      exact .intro
    · cases h
      exact .intro
    · cases h
  · cases h

theorem givesTables_repeat? (key : Key) (place : Span) : GivesTables (repeat? key place) := by
  intro node node' h
  cases node with
  | table origin span entries => exact isTable_of_map h
  | _ => cases h

theorem givesTables_within? {change : Node → Option Node} (hchange : GivesTables change)
    (steps : List Key) : GivesTables (within? change steps) := by
  intro node node' h
  cases steps with
  | nil => exact hchange node node' h
  | cons step steps =>
    cases node with
    | table origin span entries => exact isTable_of_map h
    | _ => cases h

end Node

theorem isTable_of_add? {draft draft' : Draft} {line : Line} (hdraft : draft.root.IsTable)
    (h : draft.add? line = some draft') : draft'.root.IsTable := by
  cases line with
  | nothing =>
    cases h
    exact hdraft
  | opens steps key place =>
    obtain ⟨root, hroot, rfl⟩ := Option.map_eq_some_iff.mp h
    exact Node.givesTables_within? (Node.givesTables_open? key place) steps _ _ hroot
  | repeats steps key place =>
    obtain ⟨root, hroot, rfl⟩ := Option.map_eq_some_iff.mp h
    exact Node.givesTables_within? (Node.givesTables_repeat? key place) steps _ _ hroot
  | binds steps key value =>
    obtain ⟨root, hroot, rfl⟩ := Option.map_eq_some_iff.mp h
    refine Node.givesTables_within? ?_ draft.here _ _ hroot
    exact fun table table' hinsert => Node.givesTables_insert? steps key value _ table' hinsert

theorem isTable_of_read? (draft : Draft) (s : List Char) {draft' : Draft}
    (hdraft : draft.root.IsTable) (h : read? draft s = some draft') : draft'.root.IsTable := by
  fun_induction read? draft s with
  | case1 draft s hend =>
    cases h
    exact hdraft
  | case4 draft s line rest next hadd hshorter hopen hline ih =>
    exact ih (isTable_of_add? hdraft hadd) h
  | case2 | case3 | case5 => cases h

/-! ### Entries of other names -/

theorem names_movedEntries (k : ℕ) (entries : Entries) :
    names (movedEntries k entries) = names entries := by
  simp only [names, movedEntries, List.map_map]
  rfl

theorem update_append {key : Key} {change : Option Node → Option Node} :
    ∀ {front : Entries}, key.name ∉ names front →
      update key change (front ++ entries) = (update key change entries).map (front ++ ·)
  | [], _ => by
    simp only [List.nil_append, Option.map_id']
  | (key', node) :: front, hfront => by
    have hne : key'.name ≠ key.name := fun h => hfront (h ▸ List.mem_cons_self)
    have hrest : key.name ∉ names front := fun h => hfront (List.mem_cons_of_mem _ h)
    rw [List.cons_append, update, if_neg hne, update_append hrest, Option.map_map]
    rfl

/-- A table with entries in front of its own, as part of a tree. -/
def Node.behind (origin : Origin) (span : Option Span) (front : Entries) : Node → Node
  | .table _ _ entries => .table origin span (front ++ entries)
  | node => node

/-! ### Lines under a header -/

/-- A text in which no line opens a table, up to the first that cannot be read. -/
inductive Headerless : List Char → Prop
  | ends {s : List Char} : line? (skipBlanks s) = none → Headerless s
  | nothing {s rest : List Char} :
      line? (skipBlanks s) = some (.nothing, rest) → Headerless rest → Headerless s
  | binds {s rest : List Char} {steps : List Key} {key : Key} {value : Node} :
      line? (skipBlanks s) = some (.binds steps key value, rest) → Headerless rest → Headerless s

/-- A text of the header of a single key and lines that open no table. -/
inductive OneTable (name : List Char) : List Char → Prop
  | intro {s body : List Char} {key : Key} {place : Span} :
      line? (skipBlanks s) = some (.opens [] key place, body) → key.name = name →
      Headerless body → OneTable name s

theorem read?_eq_of_line (draft : Draft) {s rest : List Char} {line : Line}
    (hline : line? (skipBlanks s) = some (line, rest)) :
    read? draft s = (draft.add? line).bind fun draft' =>
      if rest.length < s.length then read? draft' rest else none := by
  rw [read?.eq_def]
  cases hstart : skipBlanks s with
  | nil =>
    rw [hstart] at hline
    cases hline
  | cons c start =>
    rw [hstart] at hline
    simp only [hline]
    cases draft.add? line <;> rfl

theorem read?_eq_of_noLine (draft : Draft) {s : List Char} (hline : line? (skipBlanks s) = none) :
    read? draft s = if skipBlanks s = [] then some draft else none := by
  rw [read?.eq_def]
  cases hstart : skipBlanks s with
  | nil => rfl
  | cons c start =>
    rw [hstart] at hline
    simp only [hline, reduceCtorEq, if_false]

theorem read?_last {draft draft' : Draft} {text : List Char} {line : Line}
    (hline : line? (skipBlanks text) = some (line, []))
    (hadd : draft.add? line = some draft') : read? draft text = some draft' := by
  have hshorter : 0 < text.length := by
    rw [List.length_pos_iff]
    rintro rfl
    cases hline
  rw [read?_line hline hadd hshorter, read?]
  rfl

/-- What a line under a header changes is what the name of the header is bound to. -/
theorem exists_update_of_binds (here : Key) (steps : List Key) (key : Key) (value : Node) :
    ∃ change, ∀ origin span entries,
      (Draft.mk (.table origin span entries) [here]).add? (.binds steps key value) =
        (update here change entries).map fun entries => ⟨.table origin span entries, [here]⟩ :=
  ⟨_, fun _ _ _ => Option.map_map _ _ _⟩

/-- Lines under a header are read behind other entries as without them. -/
theorem read?_behind {here : Key} {body : List Char} (hbody : Headerless body)
    (hfront : here.name ∉ names front) (entries : Entries) :
    (read? ⟨.table origin span (front ++ entries), [here]⟩ body).map (·.root) =
      (read? ⟨.table origin' span' entries, [here]⟩ body).map
        (·.root.behind origin span front) := by
  induction hbody generalizing entries with
  | ends hline =>
    rw [read?_eq_of_noLine _ hline, read?_eq_of_noLine _ hline]
    split <;> rfl
  | nothing hline _ ih =>
    rw [read?_eq_of_line _ hline, read?_eq_of_line _ hline]
    simp only [Draft.add?, Option.bind_some]
    split
    · exact ih entries
    · rfl
  | binds hline _ ih =>
    obtain ⟨change, hchange⟩ := exists_update_of_binds here _ _ _
    rw [read?_eq_of_line _ hline, read?_eq_of_line _ hline, hchange, hchange,
      update_append hfront]
    cases update here change entries with
    | none => rfl
    | some entries =>
      simp only [Option.map_some, Option.bind_some]
      split
      · exact ih entries
      · rfl

/-- A header of a name that is not bound yet. -/
theorem add?_opens {key : Key} {place : Span} {here : List Key} (hnew : key.name ∉ names entries) :
    (Draft.mk (.table origin span entries) here).add? (.opens [] key place) =
      some ⟨.table origin span (entries ++ [(key, .table .header (some place) [])]), [key]⟩ := by
  simp only [Draft.add?, Node.within?, Node.open?, lookup_eq_none_iff.mpr hnew, Option.map_some,
    List.nil_append]

theorem bind?_new {key : Key} {value : Node} (hnew : key.name ∉ names entries) :
    Node.bind? key value (.table origin span entries) =
      some (.table origin span (entries ++ [(key, value)])) := by
  have hupdate : update key (fun old => if old.isNone then some value else none)
      (entries ++ []) = some (entries ++ [(key, value)]) := update_append hnew
  rw [List.append_nil] at hupdate
  rw [Node.bind?, hupdate, Option.map_some]

theorem exists_reach {place : Span} (value : Node) :
    ∃ place', (Node.table origin (some place) entries).reach value =
      .table origin (some place') entries := by
  unfold Node.reach
  cases value.span with
  | none => exact ⟨place, rfl⟩
  | some span => exact ⟨_, rfl⟩

/-- A value bound under the header of the table that was opened last. -/
theorem add?_binds {here key : Key} {place : Span} {value : Node}
    (hnew : key.name ∉ names entries) :
    ∃ place', (Draft.mk (.table origin span [(here, .table .header (some place) entries)])
        [here]).add? (.binds [] key value) =
      some ⟨.table origin span [(here, .table .header (some place') (entries ++ [(key, value)]))],
        [here]⟩ := by
  obtain ⟨place', hreach⟩ : ∃ place', (Node.table .header (some place) entries).reach value =
      .table .header (some place') entries := exists_reach value
  refine ⟨place', ?_⟩
  simp only [Draft.add?, Node.within?, update, if_true, hreach, Node.insert?, bind?_new hnew,
    Option.map_some]

/-- A table is read behind other entries as without them, header and all. -/
theorem OneTable.read?_behind {name s : List Char} {here here' : List Key} (h : OneTable name s)
    (hfront : name ∉ names front) :
    (read? ⟨.table origin span front, here⟩ s).map (·.root) =
      (read? ⟨.table origin' span' [], here'⟩ s).map (·.root.behind origin span front) := by
  obtain ⟨hline, rfl, hbody⟩ := h
  rw [read?_eq_of_line _ hline, read?_eq_of_line _ hline, add?_opens hfront,
    add?_opens List.not_mem_nil, Option.bind_some, Option.bind_some]
  split
  · exact Toml.read?_behind hbody hfront _
  · rfl

/-! ### Plain headers -/

section

variable {c : Char} {name rest : List Char}

theorem ne_of_isBare {d : Char} (hc : isBare c) (hd : isBare d = false) : c ≠ d := by
  rintro rfl
  rw [hc] at hd
  cases hd

theorem key?_bare (hbare : ∀ d ∈ c :: name, isBare d) :
    key? (c :: name ++ ']' :: rest) =
      some (⟨c :: name, Span.between (c :: name ++ ']' :: rest) (']' :: rest)⟩, ']' :: rest) := by
  have hc : isBare c := hbare c List.mem_cons_self
  have htake : (c :: name ++ ']' :: rest).takeWhile isBare = c :: name := by
    rw [List.takeWhile_append_of_pos hbare, List.takeWhile_cons_of_neg (by decide), List.append_nil]
  have hdrop : (c :: name ++ ']' :: rest).dropWhile isBare = ']' :: rest := by
    rw [List.dropWhile_append_of_pos hbare, List.dropWhile_cons_of_neg (by decide)]
  rw [List.cons_append] at htake hdrop ⊢
  rw [key?_eq_bareKey? (ne_of_isBare hc (by decide)) (ne_of_isBare hc (by decide)), bareKey?, htake,
    hdrop, if_neg (List.cons_ne_nil _ _)]

/-- A bare name in brackets opens a table, whatever its line ends in. -/
theorem line?_bracketed {body : List Char} (hbare : ∀ d ∈ c :: name, isBare d)
    (hend : lineEnd? rest = some body) :
    ∃ span place, line? ('[' :: (c :: name ++ ']' :: rest)) =
      some (.opens [] ⟨c :: name, span⟩ place, body) := by
  have hc : isBare c := hbare c List.mem_cons_self
  have hblank : ¬ isBlank c := by
    simp [isBlank, ne_of_isBare hc (by decide : isBare ' ' = false),
      ne_of_isBare hc (by decide : isBare '\t' = false)]
  have hkeys : keys? (c :: name ++ ']' :: rest) =
      some ([⟨c :: name, Span.between (c :: name ++ ']' :: rest) (']' :: rest)⟩], ']' :: rest) := by
    rw [keys?, skipBlanks, List.cons_append, List.dropWhile_cons_of_neg hblank, ← List.cons_append,
      key?_bare hbare]
    rfl
  have hbracket : ∀ rest', c :: name ++ ']' :: rest ≠ '[' :: rest' := by
    intro rest' h
    exact ne_of_isBare hc (by decide) (List.cons.inj h).1
  have hpath : path? (c :: name ++ ']' :: rest) =
      some ([], ⟨c :: name, Span.between (c :: name ++ ']' :: rest) (']' :: rest)⟩,
        ']' :: rest) := by
    rw [path?, hkeys]
    rfl
  refine ⟨Span.between (c :: name ++ ']' :: rest) (']' :: rest),
    Span.between ('[' :: (c :: name ++ ']' :: rest)) rest, ?_⟩
  rw [line?_header hbracket, header?, hpath]
  simp only [closed?, Bool.false_eq_true, if_false, hend, Option.map_some]

/-- The header of a bare name, and lines that open no table. -/
theorem oneTable_bracketed {body : List Char} (hname : name ≠ []) (hbare : name.all isBare)
    (hend : lineEnd? rest = some body) (hbody : Headerless body) :
    OneTable name ('[' :: (name ++ ']' :: rest)) := by
  obtain ⟨c, name, rfl⟩ := List.exists_cons_of_ne_nil hname
  obtain ⟨span, place, hline⟩ := line?_bracketed (List.all_eq_true.mp hbare) hend
  exact .intro hline rfl hbody

end

/-! ### Documents -/

theorem withoutMark_append (text rest : List Char) :
    withoutMark (text ++ '\n' :: rest) = withoutMark text ++ '\n' :: rest := by
  cases text with
  | nil => rfl
  | cons c text =>
    rw [List.cons_append, withoutMark, withoutMark]
    split <;> rfl

/-- A line that opens a table starts with a bracket. -/
theorem eq_bracket_of_opens {c : Char} {s rest : List Char} {steps : List Key} {key : Key}
    {place : Span} (h : line? (c :: s) = some (.opens steps key place, rest)) : c = '[' := by
  by_contra hc
  rw [line?_other hc] at h
  split at h
  · obtain ⟨_, -, heq⟩ := Option.map_eq_some_iff.mp h
    cases heq
  · split at h
    · cases h
    · obtain ⟨_, -, heq⟩ := Option.map_eq_some_iff.mp h
      cases heq

/-- A text that starts with a header, behind blanks, has no mark of byte order. -/
theorem OneTable.withoutMark {name s : List Char} (h : OneTable name s) :
    Toml.withoutMark s = s := by
  obtain ⟨hline, -, -⟩ := h
  cases s with
  | nil => rfl
  | cons c s =>
    have hc : c ≠ '\ufeff' := by
      rintro rfl
      cases eq_bracket_of_opens hline
    rw [Toml.withoutMark, if_neg hc]

theorem isTable_of_document? {text : List Char} {document : Node}
    (h : document? text = some document) : document.IsTable := by
  obtain ⟨draft, hdraft, rfl⟩ := Option.map_eq_some_iff.mp h
  exact isTable_of_read? _ _ .intro hdraft

/-- A table behind a document that does not bind its name: its tree stands behind the entries
of the document. -/
theorem document?_behind {text s name : List Char}
    (hdocument : document? text = some (.table origin span entries)) (hname : name ∉ names entries)
    (htable : OneTable name s) :
    document? (text ++ '\n' :: s) =
      (document? s).map (·.behind origin (span.map (·.moved (shift s)))
        (movedEntries (shift s) entries)) := by
  obtain ⟨⟨_, here⟩, hdraft, rfl⟩ := Option.map_eq_some_iff.mp hdocument
  have hread := read?_append (u := s) .empty (Toml.withoutMark text) hdraft
  have hfront : name ∉ names (movedEntries (shift s) entries) := by
    rwa [names_movedEntries]
  calc document? (text ++ '\n' :: s)
      = (read? .empty (Toml.withoutMark text ++ '\n' :: s)).map (·.root) := by
        rw [document?, withoutMark_append]
    _ = (read? ((Draft.mk (.table origin span entries) here).moved (shift s)) s).map (·.root) := by
        rw [← hread, Draft.moved_empty]
    _ = (read? .empty s).map (·.root.behind origin (span.map (·.moved (shift s)))
          (movedEntries (shift s) entries)) := by
        rw [Draft.moved, Node.moved_table]
        exact htable.read?_behind hfront
    _ = (document? s).map (·.behind origin (span.map (·.moved (shift s)))
          (movedEntries (shift s) entries)) := by
        rw [document?, htable.withoutMark, Option.map_map]
        rfl

end SupportLayer.Toml
