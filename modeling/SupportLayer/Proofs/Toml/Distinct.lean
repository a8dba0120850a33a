/-
# No name is bound twice

Every change that a line makes to the tree leaves the tables in it with one entry for each of
their names: a value is bound only to a name that is new, and a table that is gone through is
changed in its place. So a tree read from a text has no name bound twice, at any depth, in
documents and in tables between braces alike.

Key definitions: `Toml.Node.Distinct`, `Toml.Node.Keeps`, `Toml.Node.KeepsBound`.
Key theorems: `Toml.Node.Distinct.update`, `Toml.Node.keeps_within?`,
`Toml.readsDistinct_value?`, `Toml.distinct_of_document?`.
-/
import Mathlib
import SupportLayer.Toml.Document

namespace SupportLayer.Toml

/-- The names that entries bind. -/
def names (entries : Entries) : List (List Char) := entries.map (·.1.name)

/-- An update leaves the names as they are, or adds that of the key behind them. -/
theorem names_update {key : Key} {change : Option Node → Option Node} :
    ∀ {entries entries' : Entries}, update key change entries = some entries' →
      names entries' = names entries ∨
        key.name ∉ names entries ∧ names entries' = names entries ++ [key.name]
  | [], _, h => by
    obtain ⟨node, -, rfl⟩ := Option.map_eq_some_iff.mp h
    exact .inr ⟨List.not_mem_nil, rfl⟩
  | (key', node) :: rest, _, h => by
    unfold update at h
    split at h
    · obtain ⟨node', -, rfl⟩ := Option.map_eq_some_iff.mp h
      exact .inl rfl
    · next hkey =>
      obtain ⟨rest', hrest, rfl⟩ := Option.map_eq_some_iff.mp h
      rcases names_update hrest with hsame | ⟨hnew, hadded⟩
      · exact .inl (congrArg (key'.name :: ·) hsame)
      · refine .inr ⟨?_, congrArg (key'.name :: ·) hadded⟩
        intro hmem
        rcases List.mem_cons.mp hmem with hhead | htail
        · exact hkey hhead.symm
        · exact hnew htail

/-- What an update binds is what was bound, or what its change makes of it. -/
theorem forall_update {P : Node → Prop} {key : Key} {change : Option Node → Option Node}
    (hchange : ∀ old node, (∀ n ∈ old, P n) → change old = some node → P node) :
    ∀ {entries entries' : Entries}, (∀ entry ∈ entries, P entry.2) →
      update key change entries = some entries' → ∀ entry ∈ entries', P entry.2
  | [], _, _, h => by
    obtain ⟨node, hnode, rfl⟩ := Option.map_eq_some_iff.mp h
    have := hchange none node (by simp) hnode
    simpa using this
  | (key', node) :: rest, _, hall, h => by
    obtain ⟨hhead, htail⟩ := List.forall_mem_cons.mp hall
    unfold update at h
    split at h
    · obtain ⟨node', hnode, rfl⟩ := Option.map_eq_some_iff.mp h
      have := hchange (some node) node' (by simpa using hhead) hnode
      exact List.forall_mem_cons.mpr ⟨this, htail⟩
    · obtain ⟨rest', hrest, rfl⟩ := Option.map_eq_some_iff.mp h
      exact List.forall_mem_cons.mpr ⟨hhead, forall_update hchange htail hrest⟩

theorem lookup_eq_none_iff {name : List Char} : ∀ {entries : Entries},
    lookup name entries = none ↔ name ∉ names entries
  | [] => by simp [lookup, names]
  | (key, node) :: rest => by
    have ih : lookup name rest = none ↔ name ∉ names rest := lookup_eq_none_iff
    unfold lookup
    split
    · next hkey => simp [names, hkey]
    · next hkey =>
      rw [ih]
      simp [names, Ne.symm hkey]

theorem mem_of_lookup {name : List Char} {node : Node} : ∀ {entries : Entries},
    lookup name entries = some node → ∃ key, key.name = name ∧ (key, node) ∈ entries
  | [], h => by cases h
  | (key, node') :: rest, h => by
    unfold lookup at h
    split at h
    · next hkey =>
      cases h
      exact ⟨key, hkey, List.mem_cons_self⟩
    · obtain ⟨key', hkey', hmem⟩ := mem_of_lookup h
      exact ⟨key', hkey', List.mem_cons_of_mem _ hmem⟩

theorem notMem_names_erase (name : List Char) (entries : Entries) :
    name ∉ names (erase name entries) := by
  simp [names, erase]

namespace Node

/-- No table in a tree binds a name twice. -/
inductive Distinct : Node → Prop
  | scalar {span : Span} {value : Scalar} : Distinct (.scalar span value)
  | array {span : Span} {items : List Node} :
      (∀ item ∈ items, Distinct item) → Distinct (.array span items)
  | tables {items : List Node} : (∀ item ∈ items, Distinct item) → Distinct (.tables items)
  | table {origin : Origin} {span : Option Span} {entries : Entries} :
      (names entries).Nodup → (∀ entry ∈ entries, Distinct entry.2) →
      Distinct (.table origin span entries)

/-- A change of a tree that binds no name twice. -/
def Keeps (change : Node → Option Node) : Prop :=
  ∀ node node', Distinct node → change node = some node' → Distinct node'

/-- A change of what a name is bound to, if it is bound, that binds no name twice. -/
def KeepsBound (change : Option Node → Option Node) : Prop :=
  ∀ old node, (∀ n ∈ old, Distinct n) → change old = some node → Distinct node

variable {origin : Origin} {span : Option Span} {es : Entries}

theorem Distinct.nodup (h : Distinct (.table origin span es)) : (names es).Nodup := by
  cases h with
  | table hnodup _ => exact hnodup

theorem Distinct.entries (h : Distinct (.table origin span es)) :
    ∀ entry ∈ es, Distinct entry.2 := by
  cases h with
  | table _ hentries => exact hentries

theorem Distinct.items {items : List Node} (h : Distinct (.tables items)) :
    ∀ item ∈ items, Distinct item := by
  cases h with
  | tables hitems => exact hitems

theorem Distinct.nil : Distinct (.table origin span []) := .table List.nodup_nil (by simp)

theorem Distinct.table' (h : Distinct (.table origin span es)) (origin' : Origin)
    (span' : Option Span) : Distinct (.table origin' span' es) := .table h.nodup h.entries

/-- An update binds no name twice, whatever it changes the value of its key to. -/
theorem Distinct.update {key : Key} {change : Option Node → Option Node} {node : Node}
    (h : Distinct (.table origin span es)) (hchange : KeepsBound change)
    (hnode : (update key change es).map (.table origin span ·) = some node) :
    Distinct node := by
  obtain ⟨entries', hupdate, rfl⟩ := Option.map_eq_some_iff.mp hnode
  refine .table ?_ (forall_update hchange h.entries hupdate)
  rcases names_update hupdate with hsame | ⟨hnew, hadded⟩
  · rw [hsame]
    exact h.nodup
  · rw [hadded, ← List.concat_eq_append]
    exact h.nodup.concat hnew

theorem changeLast_distinct {change : Node → Option Node} (hchange : Keeps change) :
    ∀ {items items' : List Node}, (∀ item ∈ items, Distinct item) →
      changeLast change items = some items' → ∀ item ∈ items', Distinct item
  | [], _, _, h => by cases h
  | [node], _, hall, h => by
    obtain ⟨node', hnode, rfl⟩ := Option.map_eq_some_iff.mp h
    have := hchange node node' (hall node (List.mem_singleton_self node)) hnode
    simpa using this
  | node :: next :: rest, _, hall, h => by
    obtain ⟨hhead, htail⟩ := List.forall_mem_cons.mp hall
    obtain ⟨rest', hrest, rfl⟩ := Option.map_eq_some_iff.mp h
    exact List.forall_mem_cons.mpr ⟨hhead, changeLast_distinct hchange htail hrest⟩

theorem tables_changeLast_distinct {change : Node → Option Node} {items : List Node} {node : Node}
    (hchange : Keeps change) (h : Distinct (.tables items))
    (hnode : (changeLast change items).map .tables = some node) : Distinct node := by
  obtain ⟨items', hitems, rfl⟩ := Option.map_eq_some_iff.mp hnode
  exact .tables (changeLast_distinct hchange h.items hitems)

/-! ### Dotted keys -/

variable {key : Key} {value : Node}

theorem keeps_bind? (hvalue : Distinct value) : Keeps (bind? key value) := by
  intro node node' hnode h
  cases node with
  | table origin span entries =>
    refine hnode.update ?_ h
    intro old new _ hnew
    beta_reduce at hnew
    split at hnew
    · cases hnew
      exact hvalue
    · cases hnew
  | _ => cases h

theorem keeps_bindStep? (hvalue : Distinct value) : Keeps (bindStep? key value) := by
  intro node node' hnode h
  unfold bindStep? at h
  split at h
  · exact keeps_bind? hvalue _ _ hnode h
  · cases h

theorem keepsBound_step? {change : Node → Option Node} (hchange : Keeps change) :
    KeepsBound (step? change) := by
  intro old node hold h
  unfold step? at h
  split at h
  · exact hchange _ _ .nil h
  · exact hchange _ _ (hold _ rfl) h
  · exact hchange _ _ (hold _ rfl) h
  · exact tables_changeLast_distinct hchange (hold _ rfl) h
  · cases h

theorem keeps_insertBehind? (hvalue : Distinct value) :
    ∀ steps : List Key, Keeps (insertBehind? key value steps)
  | [] => keeps_bindStep? hvalue
  | step :: steps => by
    intro node node' hnode h
    cases node with
    | table origin span entries =>
      exact hnode.update (keepsBound_step? (keeps_insertBehind? hvalue steps)) h
    | _ => cases h

theorem Distinct.insert? {node node' : Node} {steps : List Key} (hnode : Distinct node)
    (hvalue : Distinct value) (h : node.insert? steps key value = some node') : Distinct node' := by
  unfold Node.insert? at h
  split at h
  · exact keeps_bind? hvalue _ _ hnode h
  · exact keeps_insertBehind? hvalue _ _ _ hnode h

/-! ### Headers -/

theorem keeps_within? {change : Node → Option Node} (hchange : Keeps change) :
    ∀ steps : List Key, Keeps (within? change steps)
  | [] => hchange
  | step :: steps => by
    have ih := keeps_within? hchange steps
    intro node node' hnode h
    cases node with
    | table origin span entries =>
      refine hnode.update ?_ h
      intro old new hold hnew
      beta_reduce at hnew
      split at hnew
      · exact ih _ _ .nil hnew
      · cases hnew
      · exact ih _ _ (hold _ rfl) hnew
      · exact tables_changeLast_distinct ih (hold _ rfl) hnew
      · cases hnew
      · cases hnew
    | _ => cases h

theorem Distinct.concat (h : Distinct (.table origin span es)) (hnew : key.name ∉ names es)
    (hvalue : Distinct value) : Distinct (.table origin span (es ++ [(key, value)])) := by
  refine .table ?_ ?_
  · have hnames : names (es ++ [(key, value)]) = (names es).concat key.name := by simp [names]
    rw [hnames]
    exact h.nodup.concat hnew
  · intro entry hentry
    rcases List.mem_append.mp hentry with hold | hlast
    · exact h.entries entry hold
    · rw [List.mem_singleton.mp hlast]
      exact hvalue

theorem Distinct.erase (h : Distinct (.table origin span es)) (name : List Char) :
    Distinct (.table origin span (Toml.erase name es)) :=
  .table (h.nodup.sublist (List.filter_sublist.map _))
    fun entry hentry => h.entries entry (List.mem_of_mem_filter hentry)

theorem keeps_open? {place : Span} : Keeps (open? key place) := by
  intro node node' hnode h
  cases node with
  | table origin span entries =>
    simp only [open?] at h
    split at h
    · next hnew =>
      cases h
      exact hnode.concat (lookup_eq_none_iff.mp hnew) .nil
    · next inner hold =>
      cases h
      obtain ⟨key', -, hmem⟩ := mem_of_lookup hold
      have hinner : Distinct (.table .headerStep _ inner) := hnode.entries _ hmem
      exact (hnode.erase key.name).concat (notMem_names_erase _ _) (hinner.table' _ _)
    · cases h
  | _ => cases h

theorem keeps_repeat? {place : Span} : Keeps (repeat? key place) := by
  intro node node' hnode h
  cases node with
  | table origin span entries =>
    refine hnode.update ?_ h
    intro old new hold hnew
    beta_reduce at hnew
    split at hnew
    · cases hnew
      exact .tables (by simpa using Distinct.nil)
    · next items =>
      cases hnew
      refine .tables fun item hitem => ?_
      rcases List.mem_append.mp hitem with hbefore | hlast
      · exact (hold _ rfl).items item hbefore
      · rw [List.mem_singleton.mp hlast]
        exact .nil
    · cases hnew
  | _ => cases h

theorem Distinct.reach {node : Node} (h : Distinct node) (value : Node) :
    Distinct (node.reach value) := by
  unfold Node.reach
  split
  · exact h.table' _ _
  · exact h

theorem Distinct.placed {node : Node} (h : Distinct node) (place : Span) :
    Distinct (Toml.placed place node) := by
  unfold Toml.placed
  split
  · exact h.table' _ _
  · exact h

end Node

/-! ### Values -/

/-- The reader gives only trees that bind no name twice. -/
def ReadsDistinct (item? : List Char → Option (Node × List Char)) : Prop :=
  ∀ s r, item? s = some r → r.1.Distinct

theorem distinct_of_items? {item? : List Char → Option (Node × List Char)}
    (hitem : ReadsDistinct item?) (s : List Char) {r : List Node × List Char}
    (h : items? item? s = some r) : ∀ item ∈ r.1, item.Distinct := by
  fun_induction items? item? s generalizing r with
  | case1 s rest hclosed =>
    cases h
    exact List.forall_mem_nil _
  | case3 s node rest rest' hclosed _ hnode =>
    cases h
    simpa using hitem _ _ hnode
  | case4 s node rest next hcomma hshorter _ hnode ih =>
    obtain ⟨r, hrest, rfl⟩ := Option.map_eq_some_iff.mp h
    exact List.forall_mem_cons.mpr ⟨hitem _ _ hnode, ih hrest⟩
  | case2 | case5 | case6 => cases h

theorem distinct_of_pair? {item? : List Char → Option (Node × List Char)}
    (hitem : ReadsDistinct item?) {s rest : List Char} {steps : List Key} {key : Key} {value : Node}
    (h : pair? item? s = some (steps, key, value, rest)) : value.Distinct := by
  unfold pair? at h
  split at h
  · obtain ⟨r, hr, he⟩ := Option.map_eq_some_iff.mp h
    cases he
    exact hitem _ _ hr
  · cases h

theorem distinct_of_pairs? {item? : List Char → Option (Node × List Char)}
    (hitem : ReadsDistinct item?) (table : Node) (s : List Char) {r : Node × List Char}
    (htable : table.Distinct) (h : pairs? item? table s = some r) : r.1.Distinct := by
  fun_induction pairs? item? table s with
  | case3 table s steps key value table' hinsert rest hpair =>
    cases h
    exact htable.insert? (distinct_of_pair? hitem hpair) hinsert
  | case4 table s steps key value table' hinsert next hshorter hpair ih =>
    exact ih (htable.insert? (distinct_of_pair? hitem hpair) hinsert) h
  | case1 | case2 | case5 | case6 => cases h

/-- A value binds no name twice, however deep it is nested. -/
theorem readsDistinct_value? : ∀ depth : Nat, ReadsDistinct (value? depth)
  | 0 => by
    intro s r h
    obtain ⟨_, -, rfl⟩ := Option.map_eq_some_iff.mp h
    exact .scalar
  | depth + 1 => by
    have ih := readsDistinct_value? depth
    intro s r h
    unfold value? at h
    split at h
    · obtain ⟨r, hitems, rfl⟩ := Option.map_eq_some_iff.mp h
      exact .array (distinct_of_items? ih _ hitems)
    · split at h
      · cases h
        exact .nil
      · obtain ⟨r, hpairs, rfl⟩ := Option.map_eq_some_iff.mp h
        exact (distinct_of_pairs? ih _ _ .nil hpairs).placed _
    · obtain ⟨_, -, rfl⟩ := Option.map_eq_some_iff.mp h
      exact .scalar

/-! ### Lines -/

/-- The value that a line puts in, if it does, binds no name twice. -/
def Line.Distinct : Line → Prop
  | .binds _ _ value => value.Distinct
  | _ => True

theorem distinct_of_header? {double : Bool} {start rest : List Char} {r : Line × List Char}
    (h : header? double start rest = some r) : r.1.Distinct := by
  unfold header? at h
  split at h
  · cases h
  · split at h
    · cases h
    · obtain ⟨_, -, rfl⟩ := Option.map_eq_some_iff.mp h
      cases double <;> trivial

theorem distinct_of_line? {s : List Char} {r : Line × List Char} (h : line? s = some r) :
    r.1.Distinct := by
  unfold line? at h
  split at h
  · cases h
  · exact distinct_of_header? h
  · exact distinct_of_header? h
  · split at h
    · obtain ⟨_, -, rfl⟩ := Option.map_eq_some_iff.mp h
      trivial
    · split at h
      · cases h
      · next hpair =>
        obtain ⟨_, -, rfl⟩ := Option.map_eq_some_iff.mp h
        exact distinct_of_pair? (readsDistinct_value? _) hpair

theorem distinct_of_add? {draft draft' : Draft} {line : Line} (hdraft : draft.root.Distinct)
    (hline : line.Distinct) (h : draft.add? line = some draft') : draft'.root.Distinct := by
  cases line with
  | nothing =>
    cases h
    exact hdraft
  | opens steps key place =>
    obtain ⟨root, hroot, rfl⟩ := Option.map_eq_some_iff.mp h
    exact Node.keeps_within? Node.keeps_open? _ _ _ hdraft hroot
  | repeats steps key place =>
    obtain ⟨root, hroot, rfl⟩ := Option.map_eq_some_iff.mp h
    exact Node.keeps_within? Node.keeps_repeat? _ _ _ hdraft hroot
  | binds steps key value =>
    obtain ⟨root, hroot, rfl⟩ := Option.map_eq_some_iff.mp h
    refine Node.keeps_within? ?_ _ _ _ hdraft hroot
    exact fun table table' htable hinsert => (htable.reach value).insert? hline hinsert

theorem distinct_of_read? (draft : Draft) (s : List Char) {draft' : Draft}
    (hdraft : draft.root.Distinct) (h : read? draft s = some draft') : draft'.root.Distinct := by
  fun_induction read? draft s with
  | case1 draft s hend =>
    cases h
    exact hdraft
  | case4 draft s line rest next hadd hshorter _ hline ih =>
    exact ih (distinct_of_add? hdraft (distinct_of_line? hline) hadd) h
  | case2 | case3 | case5 => cases h

/-- A document binds no name twice, in none of its tables. -/
theorem distinct_of_document? {text : List Char} {document : Node}
    (h : document? text = some document) : document.Distinct := by
  obtain ⟨draft, hdraft, rfl⟩ := Option.map_eq_some_iff.mp h
  exact distinct_of_read? _ _ .nil hdraft

end SupportLayer.Toml
