/-
# The order of entries decides only which problem is reported

What an entry sets does not depend on the entries around it, and no two entries set the same field,
so a table of settings may be put into any order, between any other tables. What is wrong with an
entry does not depend on the others either, and reading ends at the first entry that is wrong; so a
table is refused for that one, whatever is right in front of it and whatever stands behind it
(`ofEntries_eq_error_iff`).

Two texts that say the same say it in different places. `Toml.Node.plain` forgets the places, and
no reader looks at them but to tell where a problem stands (`verdict_ofEntries_plain`). The order is
that of the lines that bind the entries (`tabulates_lines`).

Key definitions: `Toml.Node.plain`, `Toml.Reordered`, `Toml.Binds`, `Settings.Tabulates`.
Key theorems: `Settings.verdict_ofEntries_plain`, `Settings.ofEntries_reordered`,
`Settings.ofEntries_eq_error_iff`, `Settings.tabulates_lines`, `Settings.ofText_tabulated`,
`Settings.ofText_reordered`.
-/
import Mathlib
import SupportLayer.Proofs.Settings.Offences
import SupportLayer.Proofs.Toml.Longer.Tables

namespace SupportLayer

namespace Toml

/-! ### Trees without places -/

/-- Nowhere in particular. -/
def Span.nowhere : Span := ⟨0, 0⟩

/-- A tree as it is meant, wherever it stands and however its tables came about. -/
def Node.plain : Node → Node
  | .scalar _ value => .scalar .nowhere value
  | .array _ items => .array .nowhere (items.map plain)
  | .tables items => .tables (items.map plain)
  | .table _ _ entries =>
    .table .braces none (entries.map fun e => (⟨e.1.name, .nowhere⟩, plain e.2))
decreasing_by
  all_goals have hsize := List.sizeOf_lt_of_mem ‹_›
  · simp only [Node.array.sizeOf_spec]
    omega
  · simp only [Node.tables.sizeOf_spec]
    omega
  · have hentry : sizeOf e.2 < sizeOf e := by
      cases e
      simp only [Prod.mk.sizeOf_spec]
      omega
    simp only [Node.table.sizeOf_spec]
    omega

/-- An entry as it is meant. -/
def plainEntry (entry : Key × Node) : Key × Node := (⟨entry.1.name, .nowhere⟩, entry.2.plain)

@[simp] theorem Node.plain_scalar (span : Span) (value : Scalar) :
    (Node.scalar span value).plain = .scalar .nowhere value := by rw [plain]

@[simp] theorem Node.plain_array (span : Span) (items : List Node) :
    (Node.array span items).plain = .array .nowhere (items.map plain) := by rw [plain]

@[simp] theorem Node.plain_tables (items : List Node) :
    (Node.tables items).plain = .tables (items.map plain) := by rw [plain]

@[simp] theorem Node.plain_table (origin : Origin) (span : Option Span) (entries : Entries) :
    (Node.table origin span entries).plain = .table .braces none (entries.map plainEntry) := by
  rw [plain]
  rfl

/-- The same entries are bound, in any order and wherever they stand. -/
def Reordered (entries entries' : Entries) : Prop :=
  (entries.map plainEntry).Perm (entries'.map plainEntry)

theorem names_map_plainEntry (entries : Entries) :
    names (entries.map plainEntry) = names entries := by
  simp [names, plainEntry]

theorem names_perm {entries entries' : Entries} (h : entries.Perm entries') :
    (names entries).Perm (names entries') := h.map _

theorem lookup_perm {name : List Char} {entries entries' : Entries} (h : entries.Perm entries')
    (hnodup : (names entries).Nodup) : lookup name entries = lookup name entries' := by
  induction h with
  | nil => rfl
  | cons entry h ih =>
    rw [lookup, lookup, ih (List.nodup_cons.mp hnodup).2]
  | swap a b rest =>
    have hne : b.1.name ≠ a.1.name := by
      intro heq
      simp [names, heq] at hnodup
    simp only [lookup]
    by_cases hb : b.1.name = name
    · simp only [if_pos hb, if_neg (hb ▸ hne.symm)]
    · simp only [if_neg hb]
  | trans h _ ih ih' => exact (ih hnodup).trans (ih' ((names_perm h).nodup_iff.mp hnodup))

/-! ### Lines under a header -/

/-- A text of lines that bind these entries, one after the other, between lines that say nothing. -/
inductive Binds : List Char → Entries → Prop
  | ends {s : List Char} : skipBlanks s = [] → Binds s []
  | nothing {s rest : List Char} {entries : Entries} :
      line? (skipBlanks s) = some (.nothing, rest) → rest.length < s.length → Binds rest entries →
      Binds s entries
  | binds {s rest : List Char} {key : Key} {value : Node} {entries : Entries} :
      line? (skipBlanks s) = some (.binds [] key value, rest) → rest.length < s.length →
      Binds rest entries → Binds s ((key, value) :: entries)

/-- Lines under a header bind their entries in their order. -/
theorem Binds.read?_eq {origin : Origin} {span : Option Span} {here : Key} {body : List Char}
    {before entries : Entries} (h : Binds body entries) (hnodup : (names (before ++ entries)).Nodup)
    (place : Span) :
    ∃ place', read? ⟨.table origin span [(here, .table .header (some place) before)], [here]⟩ body =
      some ⟨.table origin span [(here, .table .header (some place') (before ++ entries))],
        [here]⟩ := by
  induction h generalizing before place with
  | ends hblank =>
    refine ⟨place, ?_⟩
    unfold read?
    rw [hblank, List.append_nil]
  | nothing hline hshorter _ ih =>
    obtain ⟨place', hread⟩ := ih hnodup place
    exact ⟨place', (read?_line hline rfl hshorter).trans hread⟩
  | @binds _ _ key value entries hline hshorter _ ih =>
    have hassoc : before ++ (key, value) :: entries = before ++ [(key, value)] ++ entries := by simp
    rw [hassoc] at hnodup ⊢
    have hnew : key.name ∉ names before := by
      intro hmem
      simp only [names, List.map_append, List.nodup_append] at hnodup
      exact hnodup.1.2.2 _ hmem _ (List.mem_singleton_self _) rfl
    obtain ⟨place', hadd⟩ := add?_binds hnew
    obtain ⟨place'', hread⟩ := ih hnodup place'
    exact ⟨place'', (read?_line hline hadd hshorter).trans hread⟩

theorem Binds.headerless {s : List Char} {entries : Entries} (h : Binds s entries) :
    Headerless s := by
  induction h with
  | ends hblank => exact .ends (by rw [hblank, line?])
  | nothing hline _ _ ih => exact .nothing hline ih
  | binds hline _ _ ih => exact .binds hline ih

end Toml

namespace Settings

open SupportLayer.Toml (lookup names plainEntry Reordered)

/-! ### Readers do not look at places -/

theorem verdict_dialectNamed (name : List Char) (span span' : Option Toml.Span) :
    verdict (dialectNamed name span) = verdict (dialectNamed name span') := by
  unfold dialectNamed
  cases Dialect.ofKey? (String.ofList name) <;> rfl

theorem contentProblem?_plain (node : Toml.Node) :
    (contentProblem? node.plain).map (·.cause) = (contentProblem? node).map (·.cause) := by
  match node with
  | .scalar _ _ => rw [Toml.Node.plain_scalar]; rfl
  | .array _ [] => rw [Toml.Node.plain_array]; rfl
  | .array _ (_ :: _) => rw [Toml.Node.plain_array]; rfl
  | .tables [] => rw [Toml.Node.plain_tables]; rfl
  | .tables (_ :: _) => rw [Toml.Node.plain_tables]; rfl
  | .table _ _ [] => rw [Toml.Node.plain_table]; rfl
  | .table _ _ (_ :: _) => rw [Toml.Node.plain_table]; rfl

theorem verdict_dialectOfEntries_plain (key : Toml.Key) (content : Toml.Node) :
    verdict (dialectOfEntries [plainEntry (key, content)]) =
      verdict (dialectOfEntries [(key, content)]) := by
  have hcontent := contentProblem?_plain content
  simp only [dialectOfEntries, dialectNamed, plainEntry, bind, Except.bind, pure, Except.pure]
  cases Dialect.ofKey? (String.ofList key.name) with
  | none => rfl
  | some d =>
    cases h : contentProblem? content.plain <;> cases h' : contentProblem? content <;>
      simp_all

theorem verdict_dialect?_plain (node : Toml.Node) :
    verdict (dialect? node.plain) = verdict (dialect? node) := by
  match node with
  | .scalar _ value =>
    rw [Toml.Node.plain_scalar]
    cases value with
    | text name => exact verdict_dialectNamed name _ _
    | _ => rfl
  | .array _ _ => rw [Toml.Node.plain_array]; rfl
  | .tables _ => rw [Toml.Node.plain_tables]; rfl
  | .table _ _ [] => rw [Toml.Node.plain_table]; rfl
  | .table _ _ (_ :: _ :: _) => rw [Toml.Node.plain_table]; rfl
  | .table _ _ [(key, content)] =>
    rw [Toml.Node.plain_table, dialect?, dialect?, verdict_located, verdict_located]
    exact verdict_dialectOfEntries_plain key content

theorem verdict_width?_plain (node : Toml.Node) :
    verdict (width? node.plain) = verdict (width? node) := by
  cases node with
  | scalar _ value =>
    rw [Toml.Node.plain_scalar]
    cases value with
    | integer n =>
      simp only [width?]
      split
      · split <;> rfl
      · rfl
    | _ => rfl
  | array _ _ => rw [Toml.Node.plain_array]; rfl
  | tables _ => rw [Toml.Node.plain_tables]; rfl
  | table _ _ _ => rw [Toml.Node.plain_table]; rfl

theorem verdict_legacy?_plain (node : Toml.Node) :
    verdict (legacy? node.plain) = verdict (legacy? node) := by
  cases node with
  | scalar _ value => rw [Toml.Node.plain_scalar]; cases value <;> rfl
  | array _ _ => rw [Toml.Node.plain_array]; rfl
  | tables _ => rw [Toml.Node.plain_tables]; rfl
  | table _ _ _ => rw [Toml.Node.plain_table]; rfl

theorem verdict_withEntry_plain (base : Settings) (key : Toml.Key) (node : Toml.Node) :
    verdict (withEntry base (plainEntry (key, node)).1 node.plain) =
      verdict (withEntry base key node) := by
  have hname : (plainEntry (key, node)).1.name = key.name := rfl
  rcases name_cases key.name with h | h | h | h
  · rw [withEntry_eq_dialect h, withEntry_eq_dialect (hname.trans h), verdict_withField,
      verdict_withField, verdict_dialect?_plain]
  · rw [withEntry_eq_width h, withEntry_eq_width (hname.trans h), verdict_withField,
      verdict_withField, verdict_width?_plain]
  · rw [withEntry_eq_legacy h, withEntry_eq_legacy (hname.trans h), verdict_withField,
      verdict_withField, verdict_legacy?_plain]
  · rw [withEntry_eq_unknown h, withEntry_eq_unknown (hname ▸ h)]
    rfl

/-- Entries of the same name and meaning are wrong in the same way. -/
theorem Offends.of_plain {name : List Char} {node node' : Toml.Node} {cause : Cause}
    (hplain : node'.plain = node.plain) (h : Offends name node cause) :
    Offends name node' cause := by
  let key : Toml.Key := ⟨name, .nowhere⟩
  have hverdict :
      verdict (withEntry .default key node') = verdict (withEntry .default key node) := by
    rw [← verdict_withEntry_plain, ← verdict_withEntry_plain .default key node, hplain]
    rfl
  have hrefused : verdict (withEntry .default key node) = .error cause := verdict_withEntry.mpr h
  exact verdict_withEntry.mp (hverdict.trans hrefused)

theorem verdict_ofEntries_plain (base : Settings) (entries : Toml.Entries) :
    verdict (ofEntries base (entries.map plainEntry)) = verdict (ofEntries base entries) := by
  induction entries generalizing base with
  | nil => rfl
  | cons entry rest ih =>
    obtain ⟨key, node⟩ := entry
    have hentry := verdict_withEntry_plain base key node
    have hcons : (((key, node) :: rest).map plainEntry : Toml.Entries) =
        ((plainEntry (key, node)).1, node.plain) :: rest.map plainEntry := rfl
    rw [hcons, ofEntries, ofEntries]
    cases h : withEntry base key node with
    | ok s =>
      rw [h, verdict_ok, verdict_eq_ok_iff] at hentry
      rw [hentry]
      exact ih s
    | error p =>
      rw [h] at hentry
      obtain ⟨p', hp', hcause⟩ := verdict_eq_error_iff.mp hentry
      rw [hp']
      exact congrArg Except.error hcause

/-! ### Entries in any order -/

theorem EntriesSay.of_perm {base s : Settings} {entries entries' : Toml.Entries}
    (hperm : entries.Perm entries') (hnodup : (names entries).Nodup)
    (h : EntriesSay Blank base entries s) : EntriesSay Blank base entries' s := by
  obtain ⟨hnames, hfields⟩ := h
  refine ⟨fun name hname => hnames ((Toml.names_perm hperm).mem_iff.mpr hname), ?_⟩
  rwa [Toml.lookup_perm hperm hnodup, Toml.lookup_perm hperm hnodup,
    Toml.lookup_perm hperm hnodup] at hfields

/-- Entries give the same settings in any order. -/
theorem ofEntries_reordered {base s : Settings} {entries entries' : Toml.Entries}
    (hnodup : (names entries).Nodup) (h : Reordered entries entries') :
    ofEntries base entries = .ok s ↔ ofEntries base entries' = .ok s := by
  have hplain : ∀ entries : Toml.Entries,
      ofEntries base entries = .ok s ↔ ofEntries base (entries.map plainEntry) = .ok s := by
    intro entries
    rw [← verdict_eq_ok_iff, ← verdict_ofEntries_plain, verdict_eq_ok_iff]
  have hnodup' : (names (entries.map plainEntry)).Nodup := by rwa [Toml.names_map_plainEntry]
  have hnodup'' := (Toml.names_perm h).nodup_iff.mp hnodup'
  rw [hplain entries, hplain entries', ofEntries_eq_ok_iff hnodup', ofEntries_eq_ok_iff hnodup'']
  exact ⟨.of_perm h hnodup', .of_perm h.symm hnodup''⟩

/-- Entries are refused for the first of them that is wrong, with the problem that it has
alone: those in front of it each set a field. -/
theorem ofEntries_eq_error_iff {base : Settings} {entries : Toml.Entries} {p : Problem} :
    ofEntries base entries = .error p ↔
      ∃ front key node back, entries = front ++ (key, node) :: back ∧
        (∀ entry ∈ front, Sets entry.1.name entry.2) ∧ withEntry .default key node = .error p := by
  constructor
  · intro h
    induction entries generalizing base with
    | nil => cases h
    | cons entry rest ih =>
      obtain ⟨key, node⟩ := entry
      rw [ofEntries] at h
      cases hentry : withEntry base key node with
      | error q =>
        rw [hentry] at h
        cases h
        exact ⟨[], key, node, rest, rfl, List.forall_mem_nil _, (withEntry_problem hentry).1 _⟩
      | ok s =>
        rw [hentry] at h
        obtain ⟨front, key', node', back, rfl, hfront, hproblem⟩ := ih h
        have hsets : Sets key.name node := exists_withEntry_iff.mp ⟨s, hentry⟩
        exact ⟨(key, node) :: front, key', node', back, rfl,
          List.forall_mem_cons.mpr ⟨hsets, hfront⟩, hproblem⟩
  · rintro ⟨front, key, node, back, rfl, hfront, hproblem⟩
    induction front generalizing base with
    | nil =>
      have hbase : withEntry base key node = .error p := (withEntry_problem hproblem).1 _
      simp only [List.nil_append, ofEntries, hbase]
    | cons entry front ih =>
      obtain ⟨hsets, hrest⟩ := List.forall_mem_cons.mp hfront
      obtain ⟨s, hs⟩ : ∃ s, withEntry base entry.1 entry.2 = .ok s := exists_withEntry_iff.mpr hsets
      simpa only [List.cons_append, ofEntries, hs] using ih hrest

/-! ### Texts -/

/-- A text has a table of settings with these entries, in their order in the document. -/
def Tabulates (text : List Char) (entries : Toml.Entries) : Prop :=
  ∃ document origin span, Toml.document? text = some document ∧
    lookup "runtime".toList document.entries = some (.table origin span entries)

theorem Tabulates.nodup {text : List Char} {entries : Toml.Entries} (h : Tabulates text entries) :
    (names entries).Nodup := by
  obtain ⟨document, origin, span, hdocument, hlookup⟩ := h
  obtain ⟨key, -, hmem⟩ := Toml.mem_of_lookup hlookup
  have hdistinct := Toml.distinct_of_document? hdocument
  cases document with
  | table => exact (hdistinct.entries _ hmem).nodup
  | _ => cases hlookup

/-- The entries of lines under the header stand in the order of the lines. -/
theorem tabulates_lines {s body : List Char} {key : Toml.Key} {place : Toml.Span}
    {entries : Toml.Entries}
    (hline : Toml.line? (Toml.skipBlanks s) = some (.opens [] key place, body))
    (hname : key.name = "runtime".toList) (hbody : Toml.Binds body entries)
    (hshorter : body.length < s.length) (hnodup : (names entries).Nodup) : Tabulates s entries := by
  have htable : Toml.OneTable "runtime".toList s := .intro hline hname hbody.headerless
  have hfresh : key.name ∉ names [] := List.not_mem_nil
  have hopens : Toml.Draft.empty.add? (.opens [] key place) =
      some ⟨.table .header none [(key, .table .header (some place) [])], [key]⟩ :=
    Toml.add?_opens hfresh
  have hnodup' : (names ([] ++ entries)).Nodup := hnodup
  obtain ⟨place', hread⟩ := hbody.read?_eq hnodup' place
  have hdocument : Toml.document? s =
      some (.table .header none [(key, .table .header (some place') entries)]) := by
    rw [Toml.document?, htable.withoutMark, Toml.read?_line hline hopens hshorter]
    exact congrArg (Option.map _) hread
  refine ⟨_, .header, some place', hdocument, ?_⟩
  simp only [Toml.Node.entries, lookup, if_pos hname]

/-- The problem of an entry stands at the entry, so no place further out is put in. -/
theorem located_ofEntries (entries : Toml.Entries) (span : Option Toml.Span) :
    (ofEntries .default entries).mapError (·.located span) = ofEntries .default entries := by
  cases h : ofEntries .default entries with
  | ok s => rfl
  | error p =>
    obtain ⟨_, key, node, _, -, -, hproblem⟩ := ofEntries_eq_error_iff.mp h
    exact congrArg Except.error ((withEntry_problem hproblem).2 _)

variable {syntaxError : List Char → String}

/-- A text with a table of settings gives what the entries of the table give. -/
theorem ofText_tabulated {text : List Char} {entries : Toml.Entries} (h : Tabulates text entries) :
    ofText syntaxError text =
      (ofEntries .default entries).mapError fun p => .invalidSettings (p.report text) := by
  obtain ⟨document, origin, span, hdocument, hlookup⟩ := h
  have hfound := find?_eq_lookup "runtime".toList document.entries
  rw [hlookup, Option.map_eq_some_iff] at hfound
  obtain ⟨⟨key, node⟩, hfind, rfl⟩ := hfound
  have hread : ofDocument document = ofEntries .default entries := by
    cases document with
    | table _ _ top =>
      rw [Toml.Node.entries] at hfind
      simp only [ofDocument, hfind, ofNode, located_ofEntries]
    | _ => cases hfind
  rw [ofText, hdocument]
  simp only [hread]
  cases ofEntries .default entries <;> rfl

/-- **The order of entries decides only which problem is reported.** Two texts whose tables of
settings have the same entries in any order give the same settings, or none, whatever other tables
and keys stand around them. A text that is refused is refused for the first entry that is wrong,
with the problem that it has alone; and so is every text in which entries that set fields stand in
front of the same entry, and any others behind it. -/
theorem ofText_reordered {text : List Char} {entries : Toml.Entries} (h : Tabulates text entries) :
    (∀ text' entries', Tabulates text' entries' → Reordered entries entries' →
      ∀ s, ofText syntaxError text = .ok s ↔ ofText syntaxError text' = .ok s) ∧
    ∀ fault, ofText syntaxError text = .error fault →
      ∃ front key node back p, entries = front ++ (key, node) :: back ∧
        (∀ entry ∈ front, Sets entry.1.name entry.2) ∧ Offends key.name node p.cause ∧
        withEntry .default key node = .error p ∧ fault = .invalidSettings (p.report text) ∧
        ∀ text' front' key' node' back', Tabulates text' (front' ++ (key', node') :: back') →
          (∀ entry ∈ front', Sets entry.1.name entry.2) →
          key'.name = key.name → node'.plain = node.plain →
          ∃ p', p'.cause = p.cause ∧ withEntry .default key' node' = .error p' ∧
            ofText syntaxError text' = .error (.invalidSettings (p'.report text')) := by
  constructor
  · intro text' entries' h' hreordered s
    rw [ofText_tabulated h, ofText_tabulated h', mapError_eq_ok_iff, mapError_eq_ok_iff]
    exact ofEntries_reordered h.nodup hreordered
  · intro fault hfault
    rw [ofText_tabulated h] at hfault
    obtain ⟨p, hp, rfl⟩ := mapError_eq_error_iff.mp hfault
    obtain ⟨front, key, node, back, rfl, hfront, hproblem⟩ := ofEntries_eq_error_iff.mp hp
    have hoffends : Offends key.name node p.cause :=
      verdict_withEntry.mp (verdict_eq_error_iff.mpr ⟨p, hproblem, rfl⟩)
    refine ⟨front, key, node, back, p, rfl, hfront, hoffends, hproblem, rfl, ?_⟩
    intro text' front' key' node' back' h' hfront' hname hplain
    -- the same entry elsewhere is wrong in the same way, and nothing in front of it is
    have hoffends' : Offends key'.name node' p.cause := hname ▸ hoffends.of_plain hplain
    have hrefused : verdict (withEntry .default key' node') = .error p.cause :=
      verdict_withEntry.mpr hoffends'
    obtain ⟨p', hproblem', hcause⟩ := verdict_eq_error_iff.mp hrefused
    have hread : ofEntries .default (front' ++ (key', node') :: back') = .error p' :=
      ofEntries_eq_error_iff.mpr ⟨front', key', node', back', rfl, hfront', hproblem'⟩
    refine ⟨p', hcause, hproblem', ?_⟩
    rw [ofText_tabulated h', hread]
    rfl

/-- A narrow width and the long names. -/
def widthFirst : List Char := "[runtime]\nint_width = 32\nlegacy_aliases = true\n".toList

/-- The same the other way round, and beside another key. -/
def widthLast : List Char :=
  "name = 'x'\nruntime = \x7b legacy_aliases = true, int_width = 32 \x7d\n".toList

/-- A width that is none. -/
def noWidth : List Char := "[runtime]\nint_width = 16\n".toList

/-- The same, behind an entry that is right and in front of one that is not. -/
def noWidthBetween : List Char :=
  "[runtime]\nlegacy_aliases = true\nint_width = 16\ndialect = 'rust'\n".toList

/-- The two ways round give the same settings, and a width that is none is what both texts with it
are refused for. -/
theorem ofText_reordered_widths :
    ofText (fun _ => "") widthLast = .ok ⟨.c, .w32, true⟩ ∧
      ofText (fun _ => "") noWidthBetween = .error
        (.invalidSettings (Problem.report noWidthBetween ⟨.width 16, some ⟨20, 18⟩⟩)) := by
  have hfirst : Tabulates widthFirst
      [(⟨"int_width".toList, ⟨37, 28⟩⟩, .scalar ⟨25, 23⟩ (.integer 32)),
        (⟨"legacy_aliases".toList, ⟨22, 8⟩⟩, .scalar ⟨5, 1⟩ (.boolean true))] :=
    ⟨.table .header none [(⟨"runtime".toList, ⟨46, 39⟩⟩, _)], .header, some ⟨47, 1⟩, by cbv, rfl⟩
  have hlast : Tabulates widthLast
      [(⟨"legacy_aliases".toList, ⟨40, 26⟩⟩, .scalar ⟨23, 19⟩ (.boolean true)),
        (⟨"int_width".toList, ⟨17, 8⟩⟩, .scalar ⟨5, 3⟩ (.integer 32))] :=
    ⟨.table .header none [(⟨"name".toList, ⟨63, 59⟩⟩, .scalar ⟨56, 53⟩ (.text ['x'])),
      (⟨"runtime".toList, ⟨52, 45⟩⟩, _)], .braces, some ⟨42, 1⟩, by cbv, rfl⟩
  have hnone : Tabulates noWidth
      [(⟨"int_width".toList, ⟨15, 6⟩⟩, .scalar ⟨3, 1⟩ (.integer 16))] :=
    ⟨.table .header none [(⟨"runtime".toList, ⟨24, 17⟩⟩, _)], .header, some ⟨25, 1⟩, by cbv, rfl⟩
  have hbetween : Tabulates noWidthBetween
      ([(⟨"legacy_aliases".toList, ⟨54, 40⟩⟩, .scalar ⟨37, 33⟩ (.boolean true))] ++
        (⟨"int_width".toList, ⟨32, 23⟩⟩, .scalar ⟨20, 18⟩ (.integer 16)) ::
        [(⟨"dialect".toList, ⟨17, 10⟩⟩, .scalar ⟨7, 1⟩ (.text "rust".toList))]) :=
    ⟨.table .header none [(⟨"runtime".toList, ⟨63, 56⟩⟩, _)], .header, some ⟨64, 1⟩, by cbv, rfl⟩
  constructor
  · have hswapped : Reordered
        [(⟨"int_width".toList, ⟨37, 28⟩⟩, .scalar ⟨25, 23⟩ (.integer 32)),
          (⟨"legacy_aliases".toList, ⟨22, 8⟩⟩, .scalar ⟨5, 1⟩ (.boolean true))]
        [(⟨"legacy_aliases".toList, ⟨40, 26⟩⟩, .scalar ⟨23, 19⟩ (.boolean true)),
          (⟨"int_width".toList, ⟨17, 8⟩⟩, .scalar ⟨5, 3⟩ (.integer 32))] := by
      simpa [Reordered, plainEntry] using List.Perm.swap _ _ _
    have hgiven : ofText (fun _ => "") widthFirst = .ok ⟨.c, .w32, true⟩ := by
      rw [ofText_tabulated hfirst]
      rfl
    exact ((ofText_reordered hfirst).1 _ _ hlast hswapped _).mp hgiven
  · have hrefused : ofText (fun _ => "") noWidth = .error
        (.invalidSettings (Problem.report noWidth ⟨.width 16, some ⟨3, 1⟩⟩)) := by
      rw [ofText_tabulated hnone]
      rfl
    obtain ⟨front, key, node, back, p, hentries, -, -, hproblem, -, helsewhere⟩ :=
      (ofText_reordered hnone).2 _ hrefused
    -- the only entry is the one that is wrong
    rcases List.append_eq_singleton_iff.mp hentries.symm with ⟨rfl, honly⟩ | ⟨-, hnot⟩
    · cases honly
      obtain ⟨p', -, hproblem', hrefused'⟩ := helsewhere _ _ _ _ _ hbetween
        (List.forall_mem_singleton.mpr (.legacyAliases rfl .boolean)) rfl (by simp)
      cases hproblem'
      exact hrefused'
    · cases hnot

end Settings

end SupportLayer
