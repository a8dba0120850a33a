/-
# Which documents say settings

The values that are settings, as a grammar over trees: what says a dialect, a width, the long
names, and settings as a whole. Each reader gives a value iff the grammar has it, so a document
is accepted iff it says settings, and what is given are those settings. Entries are read one
after the other, each on top of the settings so far; as no name is bound twice, this is the same
as to look up each field on its own.

What may stand under the name of a dialect is left open in the grammar. The readers let an empty
table stand there and an empty array as well (`Blank`); a grammar with the empty table alone is
too narrow (`ofText_not_emptyTable`).

Key definitions: `Settings.SaysDialect`, `Settings.SaysWidth`, `Settings.SaysLegacy`,
`Settings.Fields`, `Settings.Says`, `Settings.DocumentSays`.
Key theorems: `Settings.dialect?_eq_ok_iff`, `Settings.width?_eq_ok_iff`,
`Settings.ofEntries_eq_ok_iff`, `Settings.ofNode_eq_ok_iff`, `Settings.ofText_eq_ok_iff`,
`Settings.ofText_accepts`.
-/
import Mathlib
import SupportLayer.Settings.Decode
import SupportLayer.Proofs.Toml.Distinct

namespace SupportLayer

/-- The entries of a tree that is a table. -/
def Toml.Node.entries : Toml.Node → Toml.Entries
  | .table _ _ entries => entries
  | _ => []

namespace Settings

open SupportLayer.Toml (lookup names)

/-! ### The grammar -/

/-- A table without entries. -/
inductive EmptyTable : Toml.Node → Prop
  | intro {origin : Toml.Origin} {span : Option Toml.Span} : EmptyTable (.table origin span [])

/-- An array without items, or without tables. -/
inductive EmptyArray : Toml.Node → Prop
  | array {span : Toml.Span} : EmptyArray (.array span [])
  | tables : EmptyArray (.tables [])

/-- A table or an array with nothing in it. -/
def Blank (node : Toml.Node) : Prop := EmptyTable node ∨ EmptyArray node

section

variable (Void : Toml.Node → Prop)

/-- A dialect is said by its name, or by a table that binds its name alone, to a void value. -/
inductive SaysDialect : Toml.Node → Dialect → Prop
  | name {span : Toml.Span} {name : List Char} {d : Dialect} :
      name = d.key.toList → SaysDialect (.scalar span (.text name)) d
  | table {origin : Toml.Origin} {span : Option Toml.Span} {key : Toml.Key} {content : Toml.Node}
      {d : Dialect} : key.name = d.key.toList → Void content →
      SaysDialect (.table origin span [(key, content)]) d

/-- A width is said by its number of bits. -/
inductive SaysWidth : Toml.Node → IntWidth → Prop
  | bits {span : Toml.Span} {n : Int} {w : IntWidth} :
      n = w.bits → SaysWidth (.scalar span (.integer n)) w

/-- Whether there are long names is said by a boolean. -/
inductive SaysLegacy : Toml.Node → Bool → Prop
  | boolean {span : Toml.Span} {b : Bool} : SaysLegacy (.scalar span (.boolean b)) b

/-- A value that a node says, or the default if there is no node. -/
def Given {α : Type} (P : Toml.Node → α → Prop) (default : α) : Option Toml.Node → α → Prop
  | none, a => a = default
  | some node, a => P node a

/-- Each field is said by its node; one without a node is as in `base`. -/
structure Fields (base : Settings) (dialect intWidth legacyAliases : Option Toml.Node)
    (s : Settings) : Prop where
  dialect : Given (SaysDialect Void) base.dialect dialect s.dialect
  intWidth : Given SaysWidth base.intWidth intWidth s.intWidth
  legacyAliases : Given SaysLegacy base.legacyAliases legacyAliases s.legacyAliases

/-- The names of the fields, in order. -/
def fieldNames : List (List Char) :=
  ["dialect".toList, "int_width".toList, "legacy_aliases".toList]

/-- Each field is said by what its name is bound to. -/
def EntriesSay (base : Settings) (entries : Toml.Entries) (s : Settings) : Prop :=
  names entries ⊆ fieldNames ∧
    Fields Void base (lookup "dialect".toList entries) (lookup "int_width".toList entries)
      (lookup "legacy_aliases".toList entries) s

/-- Settings are said by a table that binds names of fields only, or by the first three items of
a sequence, as far as there are items. -/
inductive Says : Toml.Node → Settings → Prop
  | table {origin : Toml.Origin} {span : Option Toml.Span} {entries : Toml.Entries}
      {s : Settings} : EntriesSay Void .default entries s → Says (.table origin span entries) s
  | array {span : Toml.Span} {items : List Toml.Node} {s : Settings} :
      Fields Void .default items[0]? items[1]? items[2]? s → Says (.array span items) s
  | tables {items : List Toml.Node} {s : Settings} :
      Fields Void .default items[0]? items[1]? items[2]? s → Says (.tables items) s

/-- A document says settings by what `runtime` is bound to; without it, it says the defaults. -/
def DocumentSays (document : Toml.Node) (s : Settings) : Prop :=
  Given (Says Void) .default (lookup "runtime".toList document.entries) s

end

/-! ### Fields -/

theorem mapError_eq_ok_iff {ε ε' α : Type} {f : ε → ε'} {x : Except ε α} {a : α} :
    x.mapError f = .ok a ↔ x = .ok a := by
  cases x <;> simp [Except.mapError]

theorem bind_eq_ok_iff {ε α β : Type} {x : Except ε α} {f : α → Except ε β} {b : β} :
    x >>= f = .ok b ↔ ∃ a, x = .ok a ∧ f a = .ok b := by
  cases x <;> simp [bind, Except.bind]

theorem pure_eq_ok_iff {ε α : Type} {a b : α} : (pure a : Except ε α) = .ok b ↔ a = b := by
  simp [pure, Except.pure]

theorem ofKey?_eq_some_iff {name : String} {d : Dialect} :
    Dialect.ofKey? name = some d ↔ name = d.key := by
  unfold Dialect.ofKey?
  split
  · next hc =>
    subst hc
    cases d <;> decide
  · next hc =>
    split
    · next hcpp =>
      subst hcpp
      cases d <;> decide
    · next hcpp => cases d <;> simp [Dialect.key, hc, hcpp]

theorem dialectNamed_eq_ok_iff {name : List Char} {span : Option Toml.Span} {d : Dialect} :
    dialectNamed name span = .ok d ↔ name = d.key.toList := by
  have hname : name = d.key.toList ↔ Dialect.ofKey? (String.ofList name) = some d := by
    rw [ofKey?_eq_some_iff, ← String.toList_inj, String.toList_ofList]
  rw [hname]
  unfold dialectNamed
  cases Dialect.ofKey? (String.ofList name) <;> simp

theorem contentProblem?_eq_none_iff {node : Toml.Node} :
    contentProblem? node = none ↔ Blank node := by
  constructor
  · intro h
    unfold contentProblem? at h
    split at h
    · exact .inl .intro
    · cases h
    · exact .inr .array
    · cases h
    · exact .inr .tables
    · cases h
    · cases h
  · rintro (h | h)
    · cases h
      rfl
    · cases h <;> rfl

theorem dialectOfEntries_eq_ok_iff {entries : Toml.Entries} {d : Dialect} :
    dialectOfEntries entries = .ok d ↔
      ∃ key content, entries = [(key, content)] ∧ key.name = d.key.toList ∧ Blank content := by
  match entries with
  | [] => simp [dialectOfEntries]
  | [(key, content)] =>
    simp only [dialectOfEntries, bind_eq_ok_iff, dialectNamed_eq_ok_iff,
      ← contentProblem?_eq_none_iff]
    constructor
    · rintro ⟨d', hname, h⟩
      split at h
      · next hblank =>
        cases h
        exact ⟨key, content, rfl, hname, hblank⟩
      · cases h
    · rintro ⟨_, _, he, hname, hblank⟩
      cases he
      refine ⟨d, hname, ?_⟩
      rw [hblank]
      rfl
  | _ :: _ :: _ => simp [dialectOfEntries]

theorem dialect?_eq_ok_iff {node : Toml.Node} {d : Dialect} :
    dialect? node = .ok d ↔ SaysDialect Blank node d := by
  constructor
  · intro h
    unfold dialect? at h
    split at h
    · exact .name (dialectNamed_eq_ok_iff.mp h)
    · obtain ⟨key, content, rfl, hname, hblank⟩ :=
        dialectOfEntries_eq_ok_iff.mp (mapError_eq_ok_iff.mp h)
      exact .table hname hblank
    · cases h
  · rintro (hname | ⟨hname, hblank⟩)
    · exact dialectNamed_eq_ok_iff.mpr hname
    · exact mapError_eq_ok_iff.mpr (dialectOfEntries_eq_ok_iff.mpr ⟨_, _, rfl, hname, hblank⟩)

theorem ofBits_eq_ok_iff {n : Nat} {w : IntWidth} : IntWidth.ofBits n = .ok w ↔ n = w.bits := by
  unfold IntWidth.ofBits
  split
  · next h => cases w <;> simp [h, IntWidth.bits]
  · split
    · next h => cases w <;> simp [h, IntWidth.bits]
    · cases w <;> simp [*, IntWidth.bits]

/-- A value gives a width iff it says it: it is an integer, and no other than 32 or 64. -/
theorem width?_eq_ok_iff {node : Toml.Node} {w : IntWidth} :
    width? node = .ok w ↔ SaysWidth node w := by
  constructor
  · intro h
    unfold width? at h
    split at h
    · next span n =>
      split at h
      · next hrange =>
        split at h
        · next w' hbits =>
          cases h
          have hn := ofBits_eq_ok_iff.mp hbits
          exact .bits (by omega)
        · cases h
      · cases h
    · cases h
  · rintro ⟨rfl⟩
    have hrange : 0 ≤ (w.bits : Int) ∧ (w.bits : Int).toNat < UInt32.size := by cases w <;> decide
    have hbits : IntWidth.ofBits (w.bits : Int).toNat = .ok w := ofBits_eq_ok_iff.mpr rfl
    simp only [width?, if_pos hrange, hbits]

theorem legacy?_eq_ok_iff {node : Toml.Node} {b : Bool} :
    legacy? node = .ok b ↔ SaysLegacy node b := by
  constructor
  · intro h
    unfold legacy? at h
    split at h
    · cases h
      exact .boolean
    · cases h
  · rintro ⟨⟩
    rfl

/-! ### Entries

What an entry sets stays as it is behind it, because no later entry has its name. -/

section

variable {base s : Settings} {key : Toml.Key} {node : Toml.Node}

theorem withEntry_dialect (h : key.name = "dialect".toList) :
    withEntry base key node = .ok s ↔
      ∃ d, SaysDialect Blank node d ∧ s = { base with dialect := d } := by
  simp only [withEntry, if_pos h, ← dialect?_eq_ok_iff]
  cases dialect? node with
  | ok d => simp [eq_comm (a := s)]
  | error p => simp

theorem withEntry_width (h : key.name = "int_width".toList) :
    withEntry base key node = .ok s ↔
      ∃ w, SaysWidth node w ∧ s = { base with intWidth := w } := by
  have hdialect : key.name ≠ "dialect".toList := h ▸ by decide
  simp only [withEntry, if_neg hdialect, if_pos h, ← width?_eq_ok_iff]
  cases width? node with
  | ok w => simp [eq_comm (a := s)]
  | error p => simp

theorem withEntry_legacy (h : key.name = "legacy_aliases".toList) :
    withEntry base key node = .ok s ↔
      ∃ b, SaysLegacy node b ∧ s = { base with legacyAliases := b } := by
  have hdialect : key.name ≠ "dialect".toList := h ▸ by decide
  have hwidth : key.name ≠ "int_width".toList := h ▸ by decide
  simp only [withEntry, if_neg hdialect, if_neg hwidth, if_pos h, ← legacy?_eq_ok_iff]
  cases legacy? node with
  | ok b => simp [eq_comm (a := s)]
  | error p => simp

theorem withEntry_unknown (h : key.name ∉ fieldNames) : withEntry base key node ≠ .ok s := by
  simp only [fieldNames, List.mem_cons, List.not_mem_nil, or_false, not_or] at h
  obtain ⟨hdialect, hwidth, hlegacy⟩ := h
  simp only [withEntry, if_neg hdialect, if_neg hwidth, if_neg hlegacy]
  exact nofun

end

section

variable {Void : Toml.Node → Prop} {base s : Settings} {node : Toml.Node}
  {dialect intWidth legacyAliases : Option Toml.Node}

theorem fields_dialect_iff :
    Fields Void base (some node) intWidth legacyAliases s ↔
      ∃ d, SaysDialect Void node d ∧
        Fields Void { base with dialect := d } none intWidth legacyAliases s := by
  constructor
  · intro h
    exact ⟨s.dialect, h.dialect, rfl, h.intWidth, h.legacyAliases⟩
  · rintro ⟨d, hd, hdialect, hwidth, hlegacy⟩
    cases hdialect
    exact ⟨hd, hwidth, hlegacy⟩

theorem fields_width_iff :
    Fields Void base dialect (some node) legacyAliases s ↔
      ∃ w, SaysWidth node w ∧
        Fields Void { base with intWidth := w } dialect none legacyAliases s := by
  constructor
  · intro h
    exact ⟨s.intWidth, h.intWidth, h.dialect, rfl, h.legacyAliases⟩
  · rintro ⟨w, hw, hdialect, hwidth, hlegacy⟩
    cases hwidth
    exact ⟨hdialect, hw, hlegacy⟩

theorem fields_legacy_iff :
    Fields Void base dialect intWidth (some node) s ↔
      ∃ b, SaysLegacy node b ∧
        Fields Void { base with legacyAliases := b } dialect intWidth none s := by
  constructor
  · intro h
    exact ⟨s.legacyAliases, h.legacyAliases, h.dialect, h.intWidth, rfl⟩
  · rintro ⟨b, hb, hdialect, hwidth, hlegacy⟩
    cases hlegacy
    exact ⟨hdialect, hwidth, hb⟩

theorem fields_none_iff : Fields Void base none none none s ↔ s = base := by
  constructor
  · rintro ⟨hdialect, hwidth, hlegacy⟩
    cases s
    cases base
    cases hdialect
    cases hwidth
    cases hlegacy
    rfl
  · rintro rfl
    exact ⟨rfl, rfl, rfl⟩

end

theorem exists_set_iff {α : Type} {P : α → Prop} {set : α → Settings} {Q : Prop}
    {R : Settings → Prop} :
    (∃ s, (∃ a, P a ∧ s = set a) ∧ Q ∧ R s) ↔ Q ∧ ∃ a, P a ∧ R (set a) := by
  constructor
  · rintro ⟨_, ⟨a, ha, rfl⟩, hq, hr⟩
    exact ⟨hq, a, ha, hr⟩
  · rintro ⟨hq, a, ha, hr⟩
    exact ⟨_, ⟨a, ha, rfl⟩, hq, hr⟩

theorem entriesSay_cons_iff {base s : Settings} {key : Toml.Key} {node : Toml.Node}
    {rest : Toml.Entries} (hnew : key.name ∉ names rest) :
    EntriesSay Blank base ((key, node) :: rest) s ↔
      ∃ s', withEntry base key node = .ok s' ∧ EntriesSay Blank s' rest s := by
  have hnone : lookup key.name rest = none := Toml.lookup_eq_none_iff.mpr hnew
  have hself : ∀ {name}, key.name = name → lookup name ((key, node) :: rest) = some node :=
    fun h => if_pos h
  have hother : ∀ {name}, key.name ≠ name → lookup name ((key, node) :: rest) = lookup name rest :=
    fun h => if_neg h
  have hnames : names ((key, node) :: rest) ⊆ fieldNames ↔
      key.name ∈ fieldNames ∧ names rest ⊆ fieldNames := List.cons_subset
  by_cases hfield : key.name ∈ fieldNames
  · have hcases : key.name = "dialect".toList ∨ key.name = "int_width".toList ∨
        key.name = "legacy_aliases".toList := by
      simpa only [fieldNames, List.mem_cons, List.not_mem_nil, or_false] using hfield
    unfold EntriesSay
    rcases hcases with h | h | h
    · simp only [withEntry_dialect h, hnames, hfield, true_and, hself h, h ▸ hnone,
        hother (h ▸ by decide : key.name ≠ "int_width".toList),
        hother (h ▸ by decide : key.name ≠ "legacy_aliases".toList), fields_dialect_iff,
        exists_set_iff]
    · simp only [withEntry_width h, hnames, hfield, true_and, hself h, h ▸ hnone,
        hother (h ▸ by decide : key.name ≠ "dialect".toList),
        hother (h ▸ by decide : key.name ≠ "legacy_aliases".toList), fields_width_iff,
        exists_set_iff]
    · simp only [withEntry_legacy h, hnames, hfield, true_and, hself h, h ▸ hnone,
        hother (h ▸ by decide : key.name ≠ "dialect".toList),
        hother (h ▸ by decide : key.name ≠ "int_width".toList), fields_legacy_iff,
        exists_set_iff]
  · constructor
    · intro h
      exact absurd (hnames.mp h.1).1 hfield
    · rintro ⟨s', h, -⟩
      exact absurd h (withEntry_unknown hfield)

/-- Entries give settings iff they say them, if no name is bound twice. -/
theorem ofEntries_eq_ok_iff : ∀ {entries : Toml.Entries} {base s : Settings},
    (names entries).Nodup → (ofEntries base entries = .ok s ↔ EntriesSay Blank base entries s)
  | [], base, s, _ => by
    have hempty : EntriesSay Blank base [] s ↔ s = base :=
      (and_iff_right (List.nil_subset _)).trans fields_none_iff
    rw [hempty, ofEntries, Except.ok.injEq, eq_comm]
  | (key, node) :: rest, base, s, hnodup => by
    obtain ⟨hnew, hrest⟩ := List.nodup_cons.mp hnodup
    rw [entriesSay_cons_iff hnew, ofEntries]
    cases withEntry base key node with
    | error p => simp
    | ok s' => simp [ofEntries_eq_ok_iff hrest]

/-! ### Documents -/

/-- Items give settings iff the first three of them say them. -/
theorem ofItems_eq_ok_iff {items : List Toml.Node} {s : Settings} :
    ofItems items = .ok s ↔ Fields Blank .default items[0]? items[1]? items[2]? s := by
  match items with
  | [] =>
    simp only [ofItems, List.getElem?_nil, fields_none_iff, Except.ok.injEq]
    exact eq_comm
  | [d] =>
    change _ ↔ Fields Blank .default (some d) none none s
    simp only [ofItems, bind_eq_ok_iff, pure_eq_ok_iff, dialect?_eq_ok_iff, fields_dialect_iff,
      fields_none_iff, eq_comm (a := s)]
    rfl
  | [d, w] =>
    change _ ↔ Fields Blank .default (some d) (some w) none s
    simp_rw [fields_dialect_iff, fields_width_iff]
    simp only [ofItems, bind_eq_ok_iff, pure_eq_ok_iff, dialect?_eq_ok_iff, width?_eq_ok_iff,
      fields_none_iff, eq_comm (a := s)]
    rfl
  | d :: w :: l :: _ =>
    change _ ↔ Fields Blank .default (some d) (some w) (some l) s
    simp_rw [fields_dialect_iff, fields_width_iff, fields_legacy_iff]
    simp only [ofItems, bind_eq_ok_iff, pure_eq_ok_iff, dialect?_eq_ok_iff, width?_eq_ok_iff,
      legacy?_eq_ok_iff, fields_none_iff, eq_comm (a := s)]

/-- A value gives settings iff it says them, if no table in it binds a name twice. -/
theorem ofNode_eq_ok_iff {node : Toml.Node} {s : Settings} (h : node.Distinct) :
    ofNode node = .ok s ↔ Says Blank node s := by
  unfold ofNode
  rw [mapError_eq_ok_iff]
  cases node with
  | scalar span value =>
    constructor
    · cases value <;> exact nofun
    · exact nofun
  | array span items => exact ofItems_eq_ok_iff.trans ⟨.array, fun | .array h => h⟩
  | tables items => exact ofItems_eq_ok_iff.trans ⟨.tables, fun | .tables h => h⟩
  | table origin span entries =>
    exact (ofEntries_eq_ok_iff h.nodup).trans ⟨.table, fun | .table h => h⟩

theorem find?_eq_lookup (name : List Char) : ∀ entries : Toml.Entries,
    (entries.find? fun entry => entry.1.name = name).map (·.2) = lookup name entries
  | [] => rfl
  | (key, node) :: rest => by
    have ih := find?_eq_lookup name rest
    rw [lookup, List.find?_cons]
    by_cases h : key.name = name
    · simp [h]
    · simpa [h] using ih

/-- A document gives settings iff it says them. -/
theorem ofDocument_eq_ok_iff {document : Toml.Node} {s : Settings} (h : document.Distinct) :
    ofDocument document = .ok s ↔ DocumentSays Blank document s := by
  unfold DocumentSays
  cases document with
  | table origin span entries =>
    have hlookup := find?_eq_lookup "runtime".toList entries
    simp only [ofDocument, Toml.Node.entries]
    split
    · next key node hfound =>
      rw [hfound] at hlookup
      have hnode : node.Distinct := h.entries _ (List.mem_of_find?_eq_some hfound)
      rw [← hlookup, mapError_eq_ok_iff]
      exact ofNode_eq_ok_iff hnode
    · next hfound =>
      rw [hfound] at hlookup
      rw [← hlookup, Except.ok.injEq]
      exact eq_comm
  | _ =>
    -- a tree that is no table has no entries
    simp only [ofDocument, Except.ok.injEq]
    exact eq_comm

variable {syntaxError : List Char → String}

theorem ofText_eq_ok_iff {text : List Char} {document : Toml.Node} {s : Settings}
    (h : Toml.document? text = some document) :
    ofText syntaxError text = .ok s ↔ DocumentSays Blank document s := by
  rw [← ofDocument_eq_ok_iff (Toml.distinct_of_document? h)]
  simp only [ofText, h]
  cases ofDocument document with
  | ok s' => simp only [Except.ok.injEq]
  | error p => simp only [reduceCtorEq]

/-- **The settings that a text gives are those that its document says.** If the document says
none, the settings are refused as invalid. -/
theorem ofText_accepts {text : List Char} {document : Toml.Node}
    (h : Toml.document? text = some document) :
    (∀ s, ofText syntaxError text = .ok s ↔ DocumentSays Blank document s) ∧
      ((¬ ∃ s, DocumentSays Blank document s) →
        ∃ reason, ofText syntaxError text = .error (.invalidSettings reason) ∧
          (Fault.invalidSettings reason).status.code = 4) := by
  have hdocument : ∀ s, ofDocument document = .ok s ↔ DocumentSays Blank document s :=
    fun s => ofDocument_eq_ok_iff (Toml.distinct_of_document? h)
  simp only [ofText, h, ← hdocument]
  cases ofDocument document with
  | ok s' =>
    refine ⟨fun s => ?_, fun hnone => absurd ⟨s', rfl⟩ hnone⟩
    simp only [Except.ok.injEq]
  | error p =>
    refine ⟨fun s => ?_, fun _ => ⟨p.report text, rfl, rfl⟩⟩
    simp only [reduceCtorEq]

/-- A width, and a dialect that a header gives. -/
def narrowCpp : List Char := "[runtime]\nint_width = 32\n[runtime.dialect.cpp]\n".toList

/-- The document of `narrowCpp` says a width and a dialect, and the settings are those and the
default for the long names. -/
theorem ofText_accepts_narrowCpp :
    ∃ document, Toml.document? narrowCpp = some document ∧
      DocumentSays Blank document ⟨.cpp, .w32, false⟩ ∧
      ofText (fun _ => "") narrowCpp = .ok ⟨.cpp, .w32, false⟩ := by
  have hdocument : Toml.document? narrowCpp = some (.table .header none
      [(⟨"runtime".toList, ⟨46, 39⟩⟩, .table .header (some ⟨47, 23⟩)
        [(⟨"int_width".toList, ⟨37, 28⟩⟩, .scalar ⟨25, 23⟩ (.integer 32)),
          (⟨"dialect".toList, ⟨13, 6⟩⟩, .table .headerStep none
            [(⟨"cpp".toList, ⟨5, 2⟩⟩, .table .header (some ⟨22, 1⟩) [])])])]) := by cbv
  have hfields : Fields Blank .default
      (some (.table .headerStep none
        [(⟨"cpp".toList, ⟨5, 2⟩⟩, .table .header (some ⟨22, 1⟩) [])]))
      (some (.scalar ⟨25, 23⟩ (.integer 32))) none ⟨.cpp, .w32, false⟩ :=
    ⟨.table rfl (.inl .intro), .bits rfl, rfl⟩
  refine ⟨_, hdocument, ?hgiven, ((ofText_accepts hdocument).1 _).mpr ?hgiven⟩
  exact Says.table ⟨by decide, hfields⟩

/-- A dialect whose name is bound to an empty array. -/
def emptyArrayForC : List Char := "[runtime]\ndialect = \x7b c = [] \x7d\n".toList

/-- With empty tables alone, the grammar is too narrow: the name of a dialect may be bound to
an empty array. -/
theorem ofText_not_emptyTable :
    ¬ ∀ (syntaxError : List Char → String) (text : List Char) (document : Toml.Node),
        Toml.document? text = some document →
        ∀ s, ofText syntaxError text = .ok s ↔ DocumentSays EmptyTable document s := by
  intro h
  have hdocument : Toml.document? emptyArrayForC = some (.table .header none
      [(⟨"runtime".toList, ⟨30, 23⟩⟩, .table .header (some ⟨31, 1⟩)
        [(⟨"dialect".toList, ⟨21, 14⟩⟩, .table .braces (some ⟨11, 1⟩)
          [(⟨"c".toList, ⟨9, 8⟩⟩, .array ⟨5, 3⟩ [])])])]) := by cbv
  have hok : ofText (fun _ => "") emptyArrayForC = .ok .default := by cbv
  have hgiven := (h _ _ _ hdocument _).mp hok
  -- the document says no dialect: what stands under `c` is no table
  rcases hgiven with ⟨-, hfields⟩
  rcases hfields.dialect with _ | ⟨-, hcontent⟩
  cases hcontent

end Settings

end SupportLayer
