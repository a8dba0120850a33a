/-
# Written settings are read back

The lines that set everything may stand in any order under the header, those that only say a
default may be left out, and lines of blanks or comments may stand anywhere: the same settings are
read.

The document is read from its first line to its last, each line behind those before it. A line
that says nothing leaves the draft; the header opens the table; the line of a field binds its value
behind those that were bound before, whatever they were (`Stage`). In the end each field is bound
to its value once, or is not bound and has its default, in whatever order; and what is bound is all
that settings are read from.

That different fields, and different values of one, are written in different lines is seen by
reading them: a line is read as the name and the value that it was written for.

Key definitions: `Settings.isFiller`, `Settings.Field`, `Settings.line`, `Settings.value`,
`Settings.Lists`, `Settings.Stage`, `Settings.Step`.
Key theorems: `Settings.line?_line`, `Settings.Stage.step`, `Settings.exists_stage`,
`Settings.Lists.entriesSay`, `Settings.ofText_written`.
-/
import Mathlib
import SupportLayer.Proofs.Settings.Grammar
import SupportLayer.Proofs.Toml.Longer.Tables

namespace SupportLayer.Settings

open SupportLayer.Toml (Draft Key Node Span names)

/-! ### Lines that say nothing -/

/-- A line of blanks, or of a comment behind blanks: a number sign and characters that are tabs or
no ASCII controls. -/
def isFiller (line : List Char) : Bool :=
  match line.dropWhile Toml.isBlank with
  | [] => true
  | c :: text => c = '#' && text.all fun c => c = '\t' || (0x20 ≤ c.toNat && c.toNat ≠ 0x7f)

theorem isTextual_eq (c : Char) :
    Toml.isTextual c = (c = '\t' || (0x20 ≤ c.toNat && c.toNat ≠ 0x7f)) := by
  have hdelete : c ≠ '\x7f' ↔ c.toNat ≠ 0x7f := by
    rw [ne_eq, ← Char.toNat_inj]
    rfl
  simp only [Toml.isTextual, hdelete]
  rfl

theorem read?_filler {line : List Char} (h : isFiller line) (draft : Draft) :
    Toml.read? draft line = some draft := by
  unfold isFiller at h
  split at h
  · next hblank =>
    have hskip : Toml.skipBlanks line = [] := hblank
    rw [Toml.read?_eq_of_noLine draft (by rw [hskip]; rfl), if_pos hskip]
  · next c text hcomment =>
    simp only [Bool.and_eq_true, decide_eq_true_eq, List.all_eq_true] at h
    obtain ⟨rfl, htext⟩ := h
    have hskip : Toml.skipBlanks line = '#' :: text := hcomment
    have htextual : ∀ c ∈ text, Toml.isTextual c := fun c hc => (isTextual_eq c).trans (htext c hc)
    have hend : Toml.lineEnd? ('#' :: text) = some [] := by
      have hall : text.dropWhile Toml.isTextual = [] := List.dropWhile_eq_nil_iff.mpr htextual
      have hcomment : Toml.skipComment (Toml.skipBlanks ('#' :: text)) = [] := hall
      rw [Toml.lineEnd?, hcomment]
    have hline : Toml.line? (Toml.skipBlanks line) = some (.nothing, []) := by
      rw [hskip, Toml.line?_other (by decide), if_pos (.inl rfl), hend, Option.map_some]
    have hshorter : 0 < line.length := by
      rw [List.length_pos_iff]
      rintro rfl
      cases hskip
    rw [Toml.read?_line hline rfl hshorter, Toml.read?]
    rfl

/-! ### The fields and their lines -/

/-- The fields of settings. -/
inductive Field where
  | dialect | intWidth | legacyAliases
  deriving DecidableEq

/-- The name of a field in a settings file. -/
def Field.name : Field → List Char
  | .dialect => "dialect".toList
  | .intWidth => "int_width".toList
  | .legacyAliases => "legacy_aliases".toList

/-- The line that sets a field. -/
def line (c : Settings) : Field → String
  | .dialect => c.dialectLine
  | .intWidth => c.widthLine
  | .legacyAliases => c.legacyLine

/-- The value that a line gives its field. -/
def value (c : Settings) : Field → Toml.Scalar
  | .dialect => .text c.dialect.key.toList
  | .intWidth => .integer c.intWidth.bits
  | .legacyAliases => .boolean c.legacyAliases

theorem name_injective : Function.Injective Field.name := by
  intro f g h
  cases f <;> cases g <;> first | rfl | cases h

/-- Each line sets one field. -/
theorem lines_eq (c : Settings) : c.lines = [.dialect, .intWidth, .legacyAliases].map c.line := rfl

theorem widthLine_eq (c : Settings) :
    c.widthLine = match c.intWidth with
      | .w32 => "int_width = 32"
      | .w64 => "int_width = 64" := by
  unfold widthLine
  cases c.intWidth
  · decide
  · decide

/-- The line of a field binds its value to its name. -/
theorem line?_line (c : Settings) (f : Field) : ∃ span place,
    Toml.line? (Toml.skipBlanks (c.line f).toList) =
      some (.binds [] ⟨f.name, span⟩ (.scalar place (c.value f)), []) := by
  obtain ⟨d, w, l⟩ := c
  -- there are six lines in all; the reader is run on each as it is spelled
  cases f with
  | dialect =>
    cases d with
    | c =>
      have hline : Toml.line? (Toml.skipBlanks "dialect = \"c\"".toList) = some (.binds []
          ⟨"dialect".toList, ⟨13, 6⟩⟩ (.scalar ⟨3, 0⟩ (.text "c".toList)), []) := by cbv
      exact ⟨_, _, hline⟩
    | cpp =>
      have hline : Toml.line? (Toml.skipBlanks "dialect = \"cpp\"".toList) = some (.binds []
          ⟨"dialect".toList, ⟨15, 8⟩⟩ (.scalar ⟨5, 0⟩ (.text "cpp".toList)), []) := by cbv
      exact ⟨_, _, hline⟩
  | intWidth =>
    rw [line, widthLine_eq]
    cases w with
    | w32 =>
      have hline : Toml.line? (Toml.skipBlanks "int_width = 32".toList) = some (.binds []
          ⟨"int_width".toList, ⟨14, 5⟩⟩ (.scalar ⟨2, 0⟩ (.integer 32)), []) := by cbv
      exact ⟨_, _, hline⟩
    | w64 =>
      have hline : Toml.line? (Toml.skipBlanks "int_width = 64".toList) = some (.binds []
          ⟨"int_width".toList, ⟨14, 5⟩⟩ (.scalar ⟨2, 0⟩ (.integer 64)), []) := by cbv
      exact ⟨_, _, hline⟩
  | legacyAliases =>
    cases l with
    | false =>
      have hline : Toml.line? (Toml.skipBlanks "legacy_aliases = false".toList) = some (.binds []
          ⟨"legacy_aliases".toList, ⟨22, 8⟩⟩ (.scalar ⟨5, 0⟩ (.boolean false)), []) := by cbv
      exact ⟨_, _, hline⟩
    | true =>
      have hline : Toml.line? (Toml.skipBlanks "legacy_aliases = true".toList) = some (.binds []
          ⟨"legacy_aliases".toList, ⟨21, 7⟩⟩ (.scalar ⟨4, 0⟩ (.boolean true)), []) := by cbv
      exact ⟨_, _, hline⟩

/-- What was written for different fields, or for different values of one, differs. -/
theorem eq_of_line_eq {c c' : Settings} {f g : Field} (h : c.line f = c'.line g) :
    f = g ∧ c.value f = c'.value g := by
  obtain ⟨span, place, hf⟩ := line?_line c f
  obtain ⟨span', place', hg⟩ := line?_line c' g
  rw [h, hg] at hf
  simp only [Option.some.injEq, Prod.mk.injEq, Toml.Line.binds.injEq, Key.mk.injEq,
    Node.scalar.injEq, and_true, true_and] at hf
  exact ⟨name_injective hf.1.1.symm, hf.2.2.symm⟩

/-! ### A document, line by line -/

/-- The entries that the lines of fields make, one for each. -/
def Lists (c : Settings) : List Field → Toml.Entries → Prop :=
  List.Forall₂ fun f entry => entry.1.name = f.name ∧ ∃ place, entry.2 = .scalar place (c.value f)

/-- How far a document is read: up to its header, or up to the line of a field. -/
inductive Stage (c : Settings) : Option (List Field) → Draft → Prop
  | before : Stage c none .empty
  | under {origin : Toml.Origin} {span : Option Span} {here : Key} {place : Span}
      {entries : Toml.Entries} {fields : List Field} :
      here.name = "runtime".toList → Lists c fields entries →
      Stage c (some fields)
        ⟨.table origin span [(here, .table .header (some place) entries)], [here]⟩

/-- The lines that say something, up to a stage. -/
def saying (c : Settings) : Option (List Field) → List (List Char)
  | none => []
  | some fields => "[runtime]".toList :: fields.map fun f => (c.line f).toList

theorem saying_concat (c : Settings) (fields : List Field) (f : Field) :
    saying c (some (fields ++ [f])) = saying c (some fields) ++ [(c.line f).toList] := by
  simp only [saying, List.map_append, List.map_cons, List.map_nil, List.cons_append]

theorem Lists.moved {c : Settings} {k : ℕ} {fields : List Field} {entries : Toml.Entries}
    (h : Lists c fields entries) : Lists c fields (Toml.movedEntries k entries) := by
  refine List.forall₂_map_right_iff.mpr (h.imp ?_)
  rintro f ⟨key, value⟩ ⟨hname, place, rfl⟩
  exact ⟨hname, place.moved k, Node.moved_scalar _ _⟩

theorem Stage.moved {c : Settings} {k : ℕ} {stage : Option (List Field)} {draft : Draft}
    (h : Stage c stage draft) : Stage c stage (draft.moved k) := by
  cases h with
  | before =>
    rw [Draft.moved_empty]
    exact .before
  | under hname hlists =>
    simp only [Draft.moved, Node.moved_table, Toml.movedEntries_cons, Toml.movedEntries_nil,
      Option.map_some, List.map_cons, List.map_nil]
    exact .under hname hlists.moved

theorem Lists.names_eq {c : Settings} {fields : List Field} {entries : Toml.Entries}
    (h : Lists c fields entries) : names entries = fields.map Field.name := by
  induction h with
  | nil => rfl
  | cons hentry _ ih => exact congrArg₂ List.cons hentry.1 ih

theorem Stage.header {c : Settings} {draft : Draft} (h : Stage c none draft) :
    ∃ draft', Toml.read? draft "[runtime]".toList = some draft' ∧ Stage c (some []) draft' := by
  obtain ⟨⟩ := h
  have hline : Toml.line? (Toml.skipBlanks "[runtime]".toList) =
      some (.opens [] ⟨"runtime".toList, ⟨8, 1⟩⟩ ⟨9, 0⟩, []) := by cbv
  exact ⟨_, Toml.read?_last hline (Toml.add?_opens List.not_mem_nil), .under rfl .nil⟩

theorem Stage.field {c : Settings} {draft : Draft} {fields : List Field} {f : Field}
    (h : Stage c (some fields) draft) (hf : f ∉ fields) :
    ∃ draft', Toml.read? draft (c.line f).toList = some draft' ∧
      Stage c (some (fields ++ [f])) draft' := by
  cases h with
  | @under origin span here place entries fields hname hlists =>
    obtain ⟨span, place, hline⟩ := line?_line c f
    have hnew : (Key.mk f.name span).name ∉ names entries := by
      rw [hlists.names_eq, List.mem_map_of_injective name_injective]
      exact hf
    obtain ⟨place', hadd⟩ := Toml.add?_binds hnew
    exact ⟨_, Toml.read?_last hline hadd,
      .under hname (List.rel_append hlists (.cons ⟨rfl, place, rfl⟩ .nil))⟩

/-- What a line does to the stage that the reading is at. -/
inductive Step (c : Settings) (text : List Char) : Option (List Field) → Option (List Field) → Prop
  | filler {stage : Option (List Field)} : isFiller text → Step c text stage stage
  | header : text = "[runtime]".toList → Step c text none (some [])
  | field {fields : List Field} {f : Field} : text = (c.line f).toList → f ∉ fields →
      Step c text (some fields) (some (fields ++ [f]))

/-- A line brings the reading to the next stage. -/
theorem Stage.step {c : Settings} {text : List Char} {stage stage' : Option (List Field)}
    {draft : Draft} (h : Stage c stage draft) (hstep : Step c text stage stage') :
    ∃ draft', Toml.read? draft text = some draft' ∧ Stage c stage' draft' := by
  cases hstep with
  | filler hfiller => exact ⟨draft, read?_filler hfiller draft, h⟩
  | header htext => exact htext ▸ h.header
  | field htext hf => exact htext ▸ h.field hf

theorem exists_step {c : Settings} {lines : List (List Char)} {text : List Char}
    {stage : Option (List Field)} (hnodup : ∀ fields ∈ stage, fields.Nodup)
    (h : (lines ++ [text]).filter (!isFiller ·) = saying c stage) :
    ∃ before, (∀ fields ∈ before, fields.Nodup) ∧ lines.filter (!isFiller ·) = saying c before ∧
      Step c text before stage := by
  rw [List.filter_append] at h
  by_cases htext : isFiller text
  · have hnone : [text].filter (!isFiller ·) = [] := by simp [htext]
    rw [hnone, List.append_nil] at h
    exact ⟨stage, hnodup, h, .filler htext⟩
  · have hone : [text].filter (!isFiller ·) = [text] := by simp [htext]
    rw [hone] at h
    cases stage with
    | none => exact absurd h (by simp [saying])
    | some fields =>
      have hfields : fields.Nodup := hnodup fields rfl
      rcases List.eq_nil_or_concat fields with rfl | ⟨front, f, rfl⟩
      · have hsaying : saying c (some []) = [] ++ ["[runtime]".toList] := rfl
        rw [hsaying] at h
        obtain ⟨hlines, htext⟩ := List.append_inj' h rfl
        exact ⟨none, by simp, hlines, .header (List.cons.inj htext).1⟩
      · rw [List.concat_eq_append] at h hfields ⊢
        rw [saying_concat] at h
        obtain ⟨hlines, htext⟩ := List.append_inj' h rfl
        obtain ⟨hfront, -, hdisjoint⟩ := List.nodup_append.mp hfields
        have hf : f ∉ front := fun hmem => hdisjoint f hmem f (List.mem_singleton_self f) rfl
        exact ⟨some front, by simpa using hfront, hlines, .field (List.cons.inj htext).1 hf⟩

/-- A document that starts with a line of settings has no mark of byte order. -/
theorem Step.withoutMark {c : Settings} {text : List Char} {stage : Option (List Field)}
    (h : Step c text none stage) : Toml.withoutMark text = text := by
  cases text with
  | nil => rfl
  | cons d text =>
    have hd : d ≠ '\ufeff' := by
      rintro rfl
      cases h with
      | filler hfiller => cases hfiller
      | header htext => cases htext
    rw [Toml.withoutMark, if_neg hd]

theorem eq_none_of_saying {c : Settings} {stage : Option (List Field)} (h : [] = saying c stage) :
    stage = none := by
  cases stage with
  | none => rfl
  | some fields => cases h

theorem intercalate_concat {sep text : List Char} : ∀ {lines : List (List Char)}, lines ≠ [] →
    sep.intercalate (lines ++ [text]) = sep.intercalate lines ++ (sep ++ text)
  | [], h => absurd rfl h
  | [line], _ => by
    rw [List.cons_append, List.nil_append, List.intercalate_cons_cons, List.intercalate_singleton,
      List.intercalate_singleton, List.append_assoc]
  | line :: next :: lines, _ => by
    have ih : sep.intercalate (next :: lines ++ [text]) = _ :=
      intercalate_concat (List.cons_ne_nil _ _)
    rw [List.cons_append] at ih
    rw [List.cons_append, List.cons_append, List.intercalate_cons_cons, List.intercalate_cons_cons,
      ih]
    simp only [List.append_assoc]

/-- A document is read up to the stage of the lines in it that say something. -/
theorem exists_stage {c : Settings} (lines : List (List Char)) :
    ∀ {stage : Option (List Field)}, (∀ fields ∈ stage, fields.Nodup) →
      lines.filter (!isFiller ·) = saying c stage →
      ∃ draft, Toml.read? .empty (Toml.withoutMark (['\n'].intercalate lines)) = some draft ∧
        Stage c stage draft := by
  induction lines using List.reverseRecOn with
  | nil =>
    intro stage _ hlines
    have hnone := eq_none_of_saying hlines
    subst hnone
    refine ⟨.empty, ?_, .before⟩
    rw [List.intercalate_nil, Toml.withoutMark, Toml.read?]
    rfl
  | append_singleton lines text ih =>
    intro stage hnodup hlines
    obtain ⟨before, hbefore, hsaying, hstep⟩ := exists_step hnodup hlines
    by_cases hfirst : lines = []
    · subst hfirst
      have hnone := eq_none_of_saying hsaying
      subst hnone
      rw [List.nil_append, List.intercalate_singleton, hstep.withoutMark]
      exact Stage.before.step hstep
    · obtain ⟨draft, hdraft, hstage⟩ := ih hbefore hsaying
      have hread := Toml.read?_append (u := text) _ _ hdraft
      rw [Draft.moved_empty, ← Toml.withoutMark_append] at hread
      rw [intercalate_concat hfirst, List.singleton_append, hread]
      exact hstage.moved.step hstep

/-! ### Settings -/

theorem Lists.lookup {c : Settings} {fields : List Field} {entries : Toml.Entries}
    (h : Lists c fields entries) (f : Field) :
    (∃ place, Toml.lookup f.name entries = some (.scalar place (c.value f))) ∨
      f ∉ fields ∧ Toml.lookup f.name entries = none := by
  induction h with
  | nil => exact .inr ⟨List.not_mem_nil, rfl⟩
  | @cons g entry fields entries hentry _ ih =>
    obtain ⟨key, value⟩ := entry
    obtain ⟨hname, place, rfl⟩ := hentry
    by_cases hfg : f = g
    · subst hfg
      exact .inl ⟨place, by rw [Toml.lookup, if_pos hname]⟩
    · have hne : key.name ≠ f.name := fun he => hfg (name_injective (he ▸ hname))
      rw [Toml.lookup, if_neg hne, List.mem_cons, not_or]
      rcases ih with hfound | ⟨hnot, hnone⟩
      · exact .inl hfound
      · exact .inr ⟨⟨hfg, hnot⟩, hnone⟩

/-- What is bound to a field gives its value. -/
theorem Lists.given {c : Settings} {fields : List Field} {entries : Toml.Entries} {α : Type}
    {P : Node → α → Prop} {f : Field} {a base : α} (h : Lists c fields entries)
    (hvalue : ∀ place, P (.scalar place (c.value f)) a) (hbase : f ∉ fields → a = base) :
    Given P base (Toml.lookup f.name entries) a := by
  rcases h.lookup f with ⟨place, hfound⟩ | ⟨hf, hnone⟩
  · rw [hfound]
    exact hvalue place
  · rw [hnone]
    exact hbase hf

theorem key_injective {d e : Dialect} (h : d.key.toList = e.key.toList) : d = e := by
  cases d <;> cases e <;> first | rfl | cases h

theorem bits_injective {v w : IntWidth} (h : (v.bits : ℤ) = w.bits) : v = w := by
  cases v <;> cases w <;> first | rfl | cases h

/-- The lines of fields say the settings, if the fields without a line have their defaults. -/
theorem Lists.entriesSay {c : Settings} {fields : List Field} {entries : Toml.Entries}
    (h : Lists c fields entries) (hleft : ∀ f, f ∉ fields → c.value f = default.value f) :
    EntriesSay Blank default entries c := by
  have hnames : names entries ⊆ fieldNames := by
    rw [h.names_eq]
    intro name hname
    obtain ⟨f, -, rfl⟩ := List.mem_map.mp hname
    cases f <;> decide
  refine ⟨hnames, ?_, ?_, ?_⟩
  · refine h.given (f := .dialect) (fun _ => .name rfl) fun hf => ?_
    exact key_injective (Toml.Scalar.text.inj (hleft _ hf))
  · refine h.given (f := .intWidth) (fun _ => .bits rfl) fun hf => ?_
    exact bits_injective (Toml.Scalar.integer.inj (hleft _ hf))
  · refine h.given (f := .legacyAliases) (fun _ => .boolean) fun hf => ?_
    exact Toml.Scalar.boolean.inj (hleft _ hf)

/-- The fields whose lines stand in a document. -/
theorem exists_fields {c : Settings} {kept : List String} (hkept : kept ⊆ c.lines)
    (hnodup : kept.Nodup) (hleft : ∀ line ∈ c.lines, line ∉ kept → line ∈ default.lines) :
    ∃ fields : List Field, kept = fields.map c.line ∧ fields.Nodup ∧
      ∀ f, f ∉ fields → c.value f = default.value f := by
  have hrange : ∀ line ∈ kept, line ∈ Set.range c.line := by
    intro line hline
    obtain ⟨f, -, hf⟩ := List.mem_map.mp (lines_eq c ▸ hkept hline)
    exact ⟨f, hf⟩
  obtain ⟨fields, rfl⟩ : kept ∈ Set.range (List.map c.line) := by
    rw [Set.range_list_map]
    exact hrange
  refine ⟨fields, rfl, hnodup.of_map, fun f hf => ?_⟩
  have hmem : c.line f ∈ c.lines := by
    rw [lines_eq]
    cases f <;> simp
  have hnot : c.line f ∉ fields.map c.line := by
    intro h
    obtain ⟨g, hg, hline⟩ := List.mem_map.mp h
    exact hf ((eq_of_line_eq hline).1 ▸ hg)
  obtain ⟨g, -, hg⟩ := List.mem_map.mp (lines_eq default ▸ hleft _ hmem hnot)
  obtain ⟨hfield, hvalue⟩ := eq_of_line_eq hg
  rw [← hvalue, hfield]

/-- **Written settings are read back.** -/
theorem ofText_written {syntaxError : List Char → String} {c : Settings} {lines : List (List Char)} {kept : List String}
    (hlines : lines.filter (!isFiller ·) = "[runtime]".toList :: kept.map String.toList)
    (hkept : kept ⊆ c.lines) (hnodup : kept.Nodup)
    (hleft : ∀ line ∈ c.lines, line ∉ kept → line ∈ default.lines) :
    ofText syntaxError (['\n'].intercalate lines) = .ok c := by
  obtain ⟨fields, rfl, hfields, hvalues⟩ := exists_fields hkept hnodup hleft
  have hsaying : lines.filter (!isFiller ·) = saying c (some fields) := by
    rw [hlines, List.map_map]
    rfl
  obtain ⟨draft, hdraft, hstage⟩ := exists_stage lines (by simpa using hfields) hsaying
  cases hstage with
  | @under origin span here place entries fields hname hlists =>
    have hdocument : Toml.document? (['\n'].intercalate lines) =
        some (.table origin span [(here, .table .header (some place) entries)]) := by
      rw [Toml.document?, hdraft, Option.map_some]
    rw [ofText_eq_ok_iff hdocument, DocumentSays, Toml.Node.entries, Toml.lookup, if_pos hname]
    exact Says.table (hlists.entriesSay hvalues)

/-- Settings for another dialect and with the long names, in a file with comments. The width has
its default and no line. -/
def commented : List (List Char) :=
  ["# what the generator \twrites – C++".toList, [], "[runtime]".toList, "  ".toList,
    "legacy_aliases = true".toList, "# int_width = 32".toList, "dialect = \"cpp\"".toList, []]

/-- The commented file gives its settings. -/
theorem ofText_written_commented :
    commented.filter (!isFiller ·) =
        "[runtime]".toList :: ["legacy_aliases = true", "dialect = \"cpp\""].map String.toList ∧
      ofText (fun _ => "") (['\n'].intercalate commented) = .ok ⟨.cpp, .w64, true⟩ := by
  have hlines : commented.filter (!isFiller ·) =
      "[runtime]".toList :: ["legacy_aliases = true", "dialect = \"cpp\""].map String.toList := by
    decide
  refine ⟨hlines, ofText_written hlines ?_ ?_ ?_⟩
  · decide
  · decide
  · decide

end SupportLayer.Settings
