/-
# What is wrong with an entry

The counterpart of the grammar of settings: for each way in which an entry of the table of settings
can be wrong, the cause that is reported. Each reader fails for a cause iff the value has it, so an
entry either sets a field or is refused for what is wrong with it, whatever was set before
(`exists_withEntry_iff`, `verdict_withEntry`). The problem of an entry always has a place, so no
place further out is ever put in.

Key definitions: `Settings.Offends`, `Settings.Sets`, `Settings.verdict`.
Key theorems: `Settings.verdict_dialect?`, `Settings.verdict_width?`, `Settings.verdict_legacy?`,
`Settings.verdict_withEntry`, `Settings.exists_withEntry_iff`, `Settings.withEntry_problem`.
-/
import Mathlib
import SupportLayer.Proofs.Settings.Grammar

namespace SupportLayer.Settings

/-- What is wrong with a value that is to say nothing. -/
inductive ContentOffends : Toml.Node → Cause → Prop
  | table {origin : Toml.Origin} {span : Option Toml.Span} {entries : Toml.Entries} :
      entries ≠ [] → ContentOffends (.table origin span entries) .dialectWithContent
  | array {span : Toml.Span} {items : List Toml.Node} :
      items ≠ [] → ContentOffends (.array span items) .dialectWithContent
  | tables {items : List Toml.Node} :
      items ≠ [] → ContentOffends (.tables items) .dialectWithTables
  | scalar {span : Toml.Span} {value : Toml.Scalar} :
      ContentOffends (.scalar span value) (.dialectWithValue (typeName value))

/-- What is wrong with the value of the dialect. -/
inductive DialectOffends : Toml.Node → Cause → Prop
  | name {span : Toml.Span} {name : List Char} : (∀ d : Dialect, name ≠ d.key.toList) →
      DialectOffends (.scalar span (.text name)) (.unknownDialect name)
  | empty {origin : Toml.Origin} {span : Option Toml.Span} :
      DialectOffends (.table origin span []) .noDialect
  | several {origin : Toml.Origin} {span : Option Toml.Span} {first second : Toml.Key × Toml.Node}
      {more : Toml.Entries} :
      DialectOffends (.table origin span (first :: second :: more)) .severalDialects
  | key {origin : Toml.Origin} {span : Option Toml.Span} {key : Toml.Key} {content : Toml.Node} :
      (∀ d : Dialect, key.name ≠ d.key.toList) →
      DialectOffends (.table origin span [(key, content)]) (.unknownDialect key.name)
  | content {origin : Toml.Origin} {span : Option Toml.Span} {key : Toml.Key} {content : Toml.Node}
      {d : Dialect} {cause : Cause} : key.name = d.key.toList → ContentOffends content cause →
      DialectOffends (.table origin span [(key, content)]) cause
  | other {node : Toml.Node} : (∀ span name, node ≠ .scalar span (.text name)) →
      (∀ origin span entries, node ≠ .table origin span entries) → DialectOffends node .notADialect

/-- What is wrong with the value of the width. -/
inductive WidthOffends : Toml.Node → Cause → Prop
  | type {node : Toml.Node} : (∀ span n, node ≠ .scalar span (.integer n)) →
      WidthOffends node (.wrongType (Found.ofNode node) .width)
  | range {span : Toml.Span} {n : Int} : n < 0 ∨ 4294967296 ≤ n →
      WidthOffends (.scalar span (.integer n)) (.outOfRange n)
  | width {span : Toml.Span} {n : Nat} : n < 4294967296 → (∀ w : IntWidth, n ≠ w.bits) →
      WidthOffends (.scalar span (.integer n)) (.width n)

/-- What is wrong with the value of the long names. -/
inductive LegacyOffends : Toml.Node → Cause → Prop
  | type {node : Toml.Node} : (∀ span b, node ≠ .scalar span (.boolean b)) →
      LegacyOffends node (.wrongType (Found.ofNode node) .boolean)

/-- What is wrong with an entry of the table of settings. -/
inductive Offends (name : List Char) (node : Toml.Node) : Cause → Prop
  | unknown : name ∉ fieldNames → Offends name node (.unknownField name)
  | dialect {cause : Cause} :
      name = "dialect".toList → DialectOffends node cause → Offends name node cause
  | intWidth {cause : Cause} :
      name = "int_width".toList → WidthOffends node cause → Offends name node cause
  | legacyAliases {cause : Cause} :
      name = "legacy_aliases".toList → LegacyOffends node cause → Offends name node cause

/-- An entry sets a field. -/
inductive Sets (name : List Char) (node : Toml.Node) : Prop
  | dialect {d : Dialect} : name = "dialect".toList → SaysDialect Blank node d → Sets name node
  | intWidth {w : IntWidth} : name = "int_width".toList → SaysWidth node w → Sets name node
  | legacyAliases {b : Bool} : name = "legacy_aliases".toList → SaysLegacy node b → Sets name node

/-- What a reading comes to, wherever the problem stands. -/
def verdict {α : Type} (x : Except Problem α) : Except Cause α := x.mapError (·.cause)

@[simp] theorem verdict_ok {α : Type} (a : α) : verdict (.ok a) = .ok a := rfl

@[simp] theorem verdict_error {α : Type} (p : Problem) :
    verdict (.error p : Except Problem α) = .error p.cause := rfl

theorem verdict_eq_ok_iff {α : Type} {x : Except Problem α} {a : α} :
    verdict x = .ok a ↔ x = .ok a := mapError_eq_ok_iff

theorem mapError_eq_error_iff {ε ε' α : Type} {f : ε → ε'} {x : Except ε α} {e' : ε'} :
    x.mapError f = .error e' ↔ ∃ e, x = .error e ∧ f e = e' := by
  cases x <;> simp [Except.mapError]

theorem verdict_eq_error_iff {α : Type} {x : Except Problem α} {cause : Cause} :
    verdict x = .error cause ↔ ∃ p, x = .error p ∧ p.cause = cause := mapError_eq_error_iff

theorem verdict_located {α : Type} (x : Except Problem α) (span : Option Toml.Span) :
    verdict (x.mapError (·.located span)) = verdict x := by
  cases x <;> rfl

/-! ### The readers -/

theorem dialectNamed_cases (name : List Char) (span : Option Toml.Span) :
    (∃ d : Dialect, name = d.key.toList ∧ dialectNamed name span = .ok d) ∨
      (∀ d : Dialect, name ≠ d.key.toList) ∧
        dialectNamed name span = .error ⟨.unknownDialect name, span⟩ := by
  cases h : dialectNamed name span with
  | ok d => exact .inl ⟨d, dialectNamed_eq_ok_iff.mp h, rfl⟩
  | error p =>
    refine .inr ⟨fun d hd => ?_, ?_⟩
    · rw [dialectNamed_eq_ok_iff.mpr hd] at h
      cases h
    · unfold dialectNamed at h
      split at h
      · cases h
      · exact h.symm

theorem contentProblem?_offends {node : Toml.Node} {cause : Cause} :
    (contentProblem? node).map (·.cause) = some cause ↔ ContentOffends node cause := by
  constructor
  · intro h
    unfold contentProblem? at h
    split at h <;> cases h
    · exact .table (List.cons_ne_nil _ _)
    · exact .array (List.cons_ne_nil _ _)
    · exact .tables (List.cons_ne_nil _ _)
    · exact .scalar
  · intro h
    cases h with
    | @table _ _ entries h =>
      obtain ⟨first, rest, rfl⟩ := List.exists_cons_of_ne_nil h
      rfl
    | @array _ items h =>
      obtain ⟨first, rest, rfl⟩ := List.exists_cons_of_ne_nil h
      rfl
    | @tables items h =>
      obtain ⟨first, rest, rfl⟩ := List.exists_cons_of_ne_nil h
      rfl
    | scalar => rfl

theorem verdict_dialectOfEntries_one {key : Toml.Key} {content : Toml.Node} {cause : Cause} :
    verdict (dialectOfEntries [(key, content)]) = .error cause ↔
      (∀ d : Dialect, key.name ≠ d.key.toList) ∧ cause = .unknownDialect key.name ∨
        ∃ d : Dialect, key.name = d.key.toList ∧ ContentOffends content cause := by
  rw [← contentProblem?_offends]
  simp only [dialectOfEntries, bind, Except.bind, pure, Except.pure]
  rcases dialectNamed_cases key.name (some key.span) with ⟨d, hname, hok⟩ | ⟨hname, herror⟩
  · have hknown : ¬ ∀ d : Dialect, key.name ≠ d.key.toList := fun h => h d hname
    have hsome : ∃ d : Dialect, key.name = d.key.toList := ⟨d, hname⟩
    cases hcontent : contentProblem? content <;> simp [hok, hknown, hsome]
  · simp [herror, hname, eq_comm (a := cause)]

/-- A value gives no dialect for what is wrong with it. -/
theorem verdict_dialect? {node : Toml.Node} {cause : Cause} :
    verdict (dialect? node) = .error cause ↔ DialectOffends node cause := by
  constructor
  · intro h
    unfold dialect? at h
    split at h
    · next span name =>
      rcases dialectNamed_cases name (Toml.Node.scalar span (.text name)).span with
        ⟨d, -, hok⟩ | ⟨hname, herror⟩
      · rw [hok] at h
        cases h
      · rw [herror] at h
        cases h
        exact .name hname
    · next entries =>
      rw [verdict_located] at h
      match entries with
      | [] =>
        cases h
        exact .empty
      | [(key, content)] =>
        rcases verdict_dialectOfEntries_one.mp h with ⟨hname, rfl⟩ | ⟨d, hname, hcontent⟩
        · exact .key hname
        · exact .content hname hcontent
      | _ :: _ :: _ =>
        cases h
        exact .several
    · next htext htable =>
      cases h
      exact .other (fun span name heq => htext _ _ heq) (fun _ _ _ heq => htable _ _ _ heq)
  · intro h
    cases h with
    | @name span name hname =>
      rcases dialectNamed_cases name (some span) with ⟨d, hd, -⟩ | ⟨-, herror⟩
      · exact absurd hd (hname d)
      · simp [dialect?, Toml.Node.span, herror]
    | empty => rfl
    | several => rfl
    | key hname =>
      rw [dialect?, verdict_located]
      exact verdict_dialectOfEntries_one.mpr (.inl ⟨hname, rfl⟩)
    | content hname hcontent =>
      rw [dialect?, verdict_located]
      exact verdict_dialectOfEntries_one.mpr (.inr ⟨_, hname, hcontent⟩)
    | other htext htable =>
      unfold dialect?
      split
      · exact absurd rfl (htext _ _)
      · exact absurd rfl (htable _ _ _)
      · rfl

theorem ofBits_cases (n : Nat) :
    (∃ w : IntWidth, n = w.bits ∧ IntWidth.ofBits n = .ok w) ∨
      (∀ w : IntWidth, n ≠ w.bits) ∧ IntWidth.ofBits n = .error n := by
  cases h : IntWidth.ofBits n with
  | ok w => exact .inl ⟨w, ofBits_eq_ok_iff.mp h, rfl⟩
  | error m =>
    refine .inr ⟨fun w hw => ?_, ?_⟩
    · rw [ofBits_eq_ok_iff.mpr hw] at h
      cases h
    · unfold IntWidth.ofBits at h
      split at h
      · cases h
      · split at h
        · cases h
        · exact h.symm

theorem verdict_width? {node : Toml.Node} {cause : Cause} :
    verdict (width? node) = .error cause ↔ WidthOffends node cause := by
  constructor
  · intro h
    unfold width? at h
    split at h
    · next span n =>
      split at h
      · next hrange =>
        have hn : n = (n.toNat : Int) := (Int.toNat_of_nonneg hrange.1).symm
        rcases ofBits_cases n.toNat with ⟨w, -, hok⟩ | ⟨hwidth, herror⟩
        · rw [hok] at h
          cases h
        · rw [herror] at h
          cases h
          rw [hn]
          exact .width hrange.2 hwidth
      · next hrange =>
        cases h
        have hsize : UInt32.size = 4294967296 := rfl
        exact .range (by omega)
    · next hinteger =>
      cases h
      exact .type hinteger
  · intro h
    have hsize : UInt32.size = 4294967296 := rfl
    cases h with
    | type hinteger =>
      unfold width?
      split
      · exact absurd rfl (hinteger _ _)
      · rfl
    | @range span n hrange =>
      have hout : ¬ (0 ≤ n ∧ n.toNat < UInt32.size) := by omega
      simp only [width?, if_neg hout]
      rfl
    | @width span n hlt hwidth =>
      have hin : 0 ≤ (n : Int) ∧ n < UInt32.size := by omega
      rcases ofBits_cases n with ⟨w, hw, -⟩ | ⟨-, herror⟩
      · exact absurd hw (hwidth w)
      · simp only [width?, Int.toNat_natCast, if_pos hin, herror]
        rfl

theorem verdict_legacy? {node : Toml.Node} {cause : Cause} :
    verdict (legacy? node) = .error cause ↔ LegacyOffends node cause := by
  constructor
  · intro h
    unfold legacy? at h
    split at h
    · cases h
    · next hboolean =>
      cases h
      exact .type hboolean
  · rintro ⟨hboolean⟩
    unfold legacy?
    split
    · exact absurd rfl (hboolean _ _)
    · rfl

/-! ### Entries

The reader of the field that a name stands for is run on the value, a problem is put at the entry if
it has no place, and what was read goes into the settings so far. -/

section

variable {base : Settings} {key : Toml.Key} {node : Toml.Node} {cause : Cause}

/-- Where an entry stands. -/
def entryPlace (key : Toml.Key) (node : Toml.Node) : Option Toml.Span := node.span <|> some key.span

/-- The settings with the field that a reader reads. -/
def withField {α : Type} (read : Except Problem α) (place : Option Toml.Span) (set : α → Settings) :
    Except Problem Settings :=
  (read.mapError (·.located place)).map set

theorem withEntry_eq_dialect (h : key.name = "dialect".toList) :
    withEntry base key node =
      withField (dialect? node) (entryPlace key node) fun d => { base with dialect := d } := by
  simp only [withEntry, if_pos h]
  cases dialect? node <;> rfl

theorem withEntry_eq_width (h : key.name = "int_width".toList) :
    withEntry base key node =
      withField (width? node) (entryPlace key node) fun w => { base with intWidth := w } := by
  have hdialect : key.name ≠ "dialect".toList := h ▸ by decide
  simp only [withEntry, if_neg hdialect, if_pos h]
  cases width? node <;> rfl

theorem withEntry_eq_legacy (h : key.name = "legacy_aliases".toList) :
    withEntry base key node =
      withField (legacy? node) (entryPlace key node) fun b => { base with legacyAliases := b } := by
  have hdialect : key.name ≠ "dialect".toList := h ▸ by decide
  have hwidth : key.name ≠ "int_width".toList := h ▸ by decide
  simp only [withEntry, if_neg hdialect, if_neg hwidth, if_pos h]
  cases legacy? node <;> rfl

theorem withEntry_eq_unknown (h : key.name ∉ fieldNames) :
    withEntry base key node = .error ⟨.unknownField key.name, some key.span⟩ := by
  simp only [fieldNames, List.mem_cons, List.not_mem_nil, or_false, not_or] at h
  obtain ⟨hdialect, hwidth, hlegacy⟩ := h
  simp only [withEntry, if_neg hdialect, if_neg hwidth, if_neg hlegacy]

theorem verdict_withField {α : Type} (read : Except Problem α) (place : Option Toml.Span)
    (set : α → Settings) : verdict (withField read place set) = (verdict read).map set := by
  cases read <;> rfl

theorem map_eq_error_iff {ε α β : Type} {x : Except ε α} {f : α → β} {e : ε} :
    x.map f = .error e ↔ x = .error e := by
  cases x <;> simp [Except.map]

/-- The problem of a field is the same whatever the field goes into, and has a place. -/
theorem withField_problem {α : Type} {read : Except Problem α} {set : Settings → α → Settings}
    {p : Problem}
    (hfield : ∀ base, withEntry base key node =
      withField read (entryPlace key node) fun a => set base a)
    (h : withEntry base key node = .error p) :
    (∀ base', withEntry base' key node = .error p) ∧ ∀ further, p.located further = p := by
  simp only [hfield] at h ⊢
  cases read with
  | ok a => cases h
  | error q =>
    cases h
    refine ⟨fun _ => rfl, fun further => ?_⟩
    cases hq : q.span <;> cases hn : node.span <;> simp [entryPlace, Problem.located, hq, hn]

theorem name_cases (name : List Char) :
    name = "dialect".toList ∨ name = "int_width".toList ∨ name = "legacy_aliases".toList ∨
      name ∉ fieldNames := by
  simp only [fieldNames, List.mem_cons, List.not_mem_nil, or_false]
  tauto

section

variable {name : List Char}

theorem offends_dialect_iff (h : name = "dialect".toList) :
    Offends name node cause ↔ DialectOffends node cause := by
  subst h
  refine ⟨?_, .dialect rfl⟩
  rintro (hnot | ⟨-, ho⟩ | ⟨hname, -⟩ | ⟨hname, -⟩)
  · exact absurd (by decide) hnot
  · exact ho
  all_goals exact absurd hname (by decide)

theorem offends_intWidth_iff (h : name = "int_width".toList) :
    Offends name node cause ↔ WidthOffends node cause := by
  subst h
  refine ⟨?_, .intWidth rfl⟩
  rintro (hnot | ⟨hname, -⟩ | ⟨-, ho⟩ | ⟨hname, -⟩)
  · exact absurd (by decide) hnot
  · exact absurd hname (by decide)
  · exact ho
  · exact absurd hname (by decide)

theorem offends_legacyAliases_iff (h : name = "legacy_aliases".toList) :
    Offends name node cause ↔ LegacyOffends node cause := by
  subst h
  refine ⟨?_, .legacyAliases rfl⟩
  rintro (hnot | ⟨hname, -⟩ | ⟨hname, -⟩ | ⟨-, ho⟩)
  · exact absurd (by decide) hnot
  · exact absurd hname (by decide)
  · exact absurd hname (by decide)
  · exact ho

theorem offends_unknown_iff (h : name ∉ fieldNames) :
    Offends name node cause ↔ cause = .unknownField name := by
  constructor
  · rintro (- | ⟨rfl, -⟩ | ⟨rfl, -⟩ | ⟨rfl, -⟩)
    · rfl
    all_goals exact absurd (by decide) h
  · rintro rfl
    exact .unknown h

end

/-- An entry is refused for what is wrong with it, whatever the settings so far. -/
theorem verdict_withEntry :
    verdict (withEntry base key node) = .error cause ↔ Offends key.name node cause := by
  rcases name_cases key.name with h | h | h | h
  · rw [withEntry_eq_dialect h, verdict_withField, map_eq_error_iff, verdict_dialect?,
      offends_dialect_iff h]
  · rw [withEntry_eq_width h, verdict_withField, map_eq_error_iff, verdict_width?,
      offends_intWidth_iff h]
  · rw [withEntry_eq_legacy h, verdict_withField, map_eq_error_iff, verdict_legacy?,
      offends_legacyAliases_iff h]
  · rw [withEntry_eq_unknown h, verdict_error, Except.error.injEq, offends_unknown_iff h, eq_comm]

/-- An entry is taken iff it sets a field, whatever the settings so far. -/
theorem exists_withEntry_iff : (∃ s, withEntry base key node = .ok s) ↔ Sets key.name node := by
  constructor
  · rintro ⟨s, hs⟩
    rcases name_cases key.name with h | h | h | h
    · obtain ⟨d, hd, -⟩ := (withEntry_dialect h).mp hs
      exact .dialect h hd
    · obtain ⟨w, hw, -⟩ := (withEntry_width h).mp hs
      exact .intWidth h hw
    · obtain ⟨b, hb, -⟩ := (withEntry_legacy h).mp hs
      exact .legacyAliases h hb
    · exact absurd hs (withEntry_unknown h)
  · rintro (⟨h, hd⟩ | ⟨h, hw⟩ | ⟨h, hb⟩)
    · exact ⟨_, (withEntry_dialect h).mpr ⟨_, hd, rfl⟩⟩
    · exact ⟨_, (withEntry_width h).mpr ⟨_, hw, rfl⟩⟩
    · exact ⟨_, (withEntry_legacy h).mpr ⟨_, hb, rfl⟩⟩

/-- The problem of an entry is the same whatever the settings so far, and has a place. -/
theorem withEntry_problem {p : Problem} (h : withEntry base key node = .error p) :
    (∀ base', withEntry base' key node = .error p) ∧ ∀ further, p.located further = p := by
  rcases name_cases key.name with hname | hname | hname | hname
  · exact withField_problem (fun _ => withEntry_eq_dialect hname) h
  · exact withField_problem (fun _ => withEntry_eq_width hname) h
  · exact withField_problem (fun _ => withEntry_eq_legacy hname) h
  · rw [withEntry_eq_unknown hname] at h
    cases h
    exact ⟨fun _ => withEntry_eq_unknown hname, fun _ => rfl⟩

end

end SupportLayer.Settings
