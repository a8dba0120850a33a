/-
# What else is in a settings file does not matter

A document that binds nothing to `runtime` may stand in front of the table of settings, whatever it
holds and wherever it ends: the table is read as it is alone, and stands behind the entries of the
document. Settings are looked up past those, so the same settings are given, or none.

Key theorems: `Settings.ofDocument_behind`, `Settings.ofText_behind`.
-/
import Mathlib
import SupportLayer.Proofs.Settings.Grammar
import SupportLayer.Proofs.Toml.Longer.Tables

namespace SupportLayer.Settings

open SupportLayer.Toml (lookup names OneTable)

/-- Settings are looked up past entries of other names. -/
theorem ofDocument_behind {origin : Toml.Origin} {span : Option Toml.Span} {front : Toml.Entries}
    (hfront : "runtime".toList ∉ names front) (tree : Toml.Node) :
    ofDocument (tree.behind origin span front) = ofDocument tree := by
  have hnone : front.find? (fun entry => entry.1.name = "runtime".toList) = none := by
    rw [List.find?_eq_none]
    intro entry hentry hname
    exact hfront (of_decide_eq_true hname ▸ List.mem_map_of_mem hentry)
  cases tree with
  | table origin' span' entries =>
    simp only [ofDocument, Toml.Node.behind, List.find?_append, hnone, Option.none_or]
  | _ => rfl

/-- **What stands in front of the table of settings does not matter.** Behind any document that
binds nothing to `runtime`, the table gives the settings that it gives alone, or none. -/
theorem ofText_behind {syntaxError : List Char → String} {text s : List Char} {document : Toml.Node}
    (hdocument : Toml.document? text = some document)
    (hforeign : lookup "runtime".toList document.entries = none)
    (htable : OneTable "runtime".toList s) (settings : Settings) :
    ofText syntaxError (text ++ '\n' :: s) = .ok settings ↔ ofText syntaxError s = .ok settings := by
  obtain ⟨origin, span, entries, rfl⟩ : ∃ origin span entries,
      document = .table origin span entries := by
    obtain ⟨⟩ := Toml.isTable_of_document? hdocument
    exact ⟨_, _, _, rfl⟩
  have hname : "runtime".toList ∉ names entries := Toml.lookup_eq_none_iff.mp hforeign
  have hfront : "runtime".toList ∉ names (Toml.movedEntries (Toml.shift s) entries) := by
    rwa [Toml.names_movedEntries]
  unfold ofText
  rw [Toml.document?_behind hdocument hname htable]
  cases Toml.document? s with
  | none => simp only [Option.map_none, reduceCtorEq]
  | some tree =>
    simp only [Option.map_some, ofDocument_behind hfront]
    cases ofDocument tree with
    | ok read => rfl
    | error p => simp only [reduceCtorEq]

/-- A document whose strings, tables and comments look like settings. -/
def crowded : List Char :=
  "note = '''\n[runtime]\n'''\n[[hosts.runtime]]\nports = [ # [runtime]\n1 ]".toList

/-- A narrow width alone. -/
def narrow : List Char := "[runtime]\nint_width = 32 # bits".toList

theorem oneTable_narrow : OneTable "runtime".toList narrow := by
  have hwidth : Toml.line? (Toml.skipBlanks "int_width = 32 # bits".toList) =
      some (.binds [] ⟨"int_width".toList, ⟨21, 12⟩⟩ (.scalar ⟨9, 7⟩ (.integer 32)), []) := by cbv
  have hend : Toml.lineEnd? "\nint_width = 32 # bits".toList =
      some "int_width = 32 # bits".toList := rfl
  exact Toml.oneTable_bracketed (by decide) rfl hend (.binds hwidth (.ends rfl))

/-- Behind the crowded document, the narrow width is read as it is alone. -/
theorem ofText_behind_crowded :
    ∃ document, Toml.document? crowded = some document ∧
      lookup "runtime".toList document.entries = none ∧ OneTable "runtime".toList narrow ∧
      ofText (fun _ => "") (crowded ++ '\n' :: narrow) = .ok ⟨.c, .w32, false⟩ := by
  have hdocument : Toml.document? crowded = some (.table .header none
      [(⟨"note".toList, ⟨68, 64⟩⟩, .scalar ⟨61, 44⟩ (.text "[runtime]\n".toList)),
        (⟨"hosts".toList, ⟨41, 36⟩⟩, .table .headerStep none
          [(⟨"runtime".toList, ⟨35, 28⟩⟩, .tables [.table .header (some ⟨43, 0⟩)
            [(⟨"ports".toList, ⟨25, 20⟩⟩, .array ⟨17, 0⟩ [.scalar ⟨3, 2⟩ (.integer 1)])]])])]) := by
    cbv
  have hnarrow : Toml.document? narrow = some (.table .header none
      [(⟨"runtime".toList, ⟨30, 23⟩⟩, .table .header (some ⟨31, 7⟩)
        [(⟨"int_width".toList, ⟨21, 12⟩⟩, .scalar ⟨9, 7⟩ (.integer 32))])]) := by cbv
  have halone : ofText (fun _ => "") narrow = .ok ⟨.c, .w32, false⟩ :=
    (ofText_eq_ok_iff hnarrow).mpr (Says.table ⟨by decide, rfl, .bits rfl, rfl⟩)
  refine ⟨_, hdocument, ?hforeign, oneTable_narrow,
    (ofText_behind hdocument ?hforeign oneTable_narrow _).mpr halone⟩
  rfl

end SupportLayer.Settings
