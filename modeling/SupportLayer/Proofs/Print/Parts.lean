/-
# Plain templates, part by part

A plain template is text and placeholders without a style: `{}` for the next argument, `{n}`
for the one with a number. Spelled with its braces doubled where they are text, it is read
back by `Template.parse?` piece by piece, and it renders as its items, the parts with their
arguments in place of the placeholders (`pieces?_renders`). `resolve` says which argument a
placeholder stands for, and fails iff there is none.

Key definitions: `Print.Shared`, `Print.Part`, `Print.Item`, `Print.resolve`.
Key theorems: `Print.Template.number?_digits`, `Print.pieces?_renders`.
-/
import Mathlib
import SupportLayer.Print.Template

namespace SupportLayer.Print

/-- An argument that both conventions take: a string, or an integer of 32 bits. -/
inductive Shared where
  | text (s : String)
  | integer (n : Int32)
  deriving DecidableEq, Repr

/-- The argument for a template. -/
def Shared.value : Shared → Value
  | text s => .text s
  | integer n => .integer n.toInt64

/-- The text of the argument. -/
def Shared.chars : Shared → List Char
  | text s => s.toList
  | integer n => Decimal.integer n.toInt

/-- A part of a plain template: text, a placeholder for the next argument, or one for the
argument with a number. -/
inductive Part where
  | literal (text : List Char)
  | next
  | nth (n : Nat)
  deriving DecidableEq, Repr

/-- A part with the argument that it stands for. -/
inductive Item where
  | literal (text : List Char)
  | argument (a : Shared)
  deriving DecidableEq, Repr

/-- A character as it is spelled in a template. -/
def spelledChar (c : Char) : List Char := if c = '\x7b' ∨ c = '\x7d' then [c, c] else [c]

/-- A part as it is spelled in a template. -/
def Part.spelling : Part → List Char
  | literal text => text.flatMap spelledChar
  | next => ['\x7b', '\x7d']
  | nth n => '\x7b' :: (Decimal.digits n ++ ['\x7d'])

/-- The text of an item. -/
def Item.chars : Item → List Char
  | literal text => text
  | argument a => a.chars

/-- The items of parts, if each placeholder has its argument. -/
def resolve (args : List Shared) (next : Nat) : List Part → Option (List Item)
  | [] => some []
  | .literal text :: parts => (resolve args next parts).map (.literal text :: ·)
  | .next :: parts => do
    let a ← args[next]?
    let items ← resolve args (next + 1) parts
    return .argument a :: items
  | .nth n :: parts => do
    let a ← args[n]?
    let items ← resolve args next parts
    return .argument a :: items

/-! ### What a template renders as -/

namespace Template

theorem render?_append {template template' : Template} {args : List Value} {text text' : List Char}
    (h : render? template args = some text) (h' : render? template' args = some text') :
    render? (template ++ template') args = some (text ++ text') := by
  unfold render? at *
  obtain ⟨texts, hm, rfl⟩ := Option.map_eq_some_iff.mp h
  obtain ⟨texts', hm', rfl⟩ := Option.map_eq_some_iff.mp h'
  simp [List.mapM_append, hm, hm']

theorem render?_literals (text : List Char) (args : List Value) :
    render? (text.map fun c => .literal [c]) args = some text := by
  induction text with
  | nil => rfl
  | cons c text ih =>
    have hone : render? [.literal [c]] args = some [c] := rfl
    exact render?_append hone ih

theorem shown_plain (a : Shared) : a.value.shown {} = a.chars := by
  cases a with
  | text s => exact Shown.display_string s
  | integer n => simp [Shared.value, Value.shown, Style.shown, Shared.chars]

theorem render?_placeholder {args : List Shared} {n : Nat} {a : Shared} (h : args[n]? = some a) :
    render? [.placeholder n {}] (args.map Shared.value) = some a.chars := by
  simp [render?, pieceText?, h, shown_plain]

/-! ### Reading what was spelled -/

theorem number?_digits (n : Nat) : number? (Decimal.digits n) = (some n, []) := by
  have hall : ∀ c ∈ Decimal.digits n, c.isDigit = true := fun _ => Decimal.isDigit_of_mem_digits
  simp only [number?, List.takeWhile_eq_self_iff.mpr hall, List.dropWhile_eq_nil_iff.mpr hall,
    Decimal.foldl_digits, if_neg (Decimal.digits_ne_nil n)]

theorem placeholder?_digits (next n : Nat) :
    placeholder? next (Decimal.digits n) = some (.placeholder n {}, next) := by
  simp only [placeholder?, number?_digits]
  rfl

theorem pieces?_char (next : Nat) (c : Char) (rest : List Char) :
    pieces? next .text (spelledChar c ++ rest) =
      (pieces? next .text rest).map (.literal [c] :: ·) := by
  unfold spelledChar
  by_cases h : c = '\x7b' ∨ c = '\x7d'
  · rw [if_pos h]
    rcases h with rfl | rfl <;> simp [pieces?]
  · rw [if_neg h]
    rw [not_or] at h
    simp [pieces?, h]

theorem pieces?_literal (next : Nat) (text rest : List Char) :
    pieces? next .text (text.flatMap spelledChar ++ rest) =
      (pieces? next .text rest).map ((text.map fun c => .literal [c]) ++ ·) := by
  induction text with
  | nil => simp
  | cons c text ih =>
    rw [List.flatMap_cons, List.append_assoc, pieces?_char, ih, Option.map_map]
    rfl

theorem pieces?_next (next : Nat) (rest : List Char) :
    pieces? next .text (Part.next.spelling ++ rest) =
      (pieces? (next + 1) .text rest).map (.placeholder next {} :: ·) := by
  simp [Part.spelling, pieces?]

theorem pieces?_inside {next following : Nat} {piece : Piece} {inside : List Char}
    (h : '\x7d' ∉ inside) (spec rest : List Char)
    (hp : placeholder? next (spec.reverse ++ inside) = some (piece, following)) :
    pieces? next (.inside spec) (inside ++ '\x7d' :: rest) =
      (pieces? following .text rest).map (piece :: ·) := by
  induction inside generalizing spec with
  | nil =>
    rw [List.append_nil] at hp
    simp [pieces?, hp]
  | cons c inside ih =>
    rw [List.mem_cons, not_or] at h
    rw [List.append_cons, ← List.reverse_cons] at hp
    rw [List.cons_append, pieces?.eq_def]
    simp only [if_neg (Ne.symm h.1)]
    exact ih h.2 (c :: spec) hp

theorem pieces?_nth (next n : Nat) (rest : List Char) :
    pieces? next .text ((Part.nth n).spelling ++ rest) =
      (pieces? next .text rest).map (.placeholder n {} :: ·) := by
  have hplace := placeholder?_digits next n
  have hno : ∀ c ∈ Decimal.digits n, c ≠ '\x7b' ∧ c ≠ '\x7d' := fun c hc => by
    have := Decimal.isDigit_of_mem_digits hc
    constructor <;> rintro rfl <;> simp at this
  have hne := Decimal.digits_ne_nil n
  simp only [Part.spelling, List.cons_append, List.append_assoc, List.nil_append]
  generalize Decimal.digits n = digits at hplace hno hne
  obtain ⟨d, ds, rfl⟩ := List.exists_cons_of_ne_nil hne
  have hds : '\x7d' ∉ ds := fun hm => (hno _ (List.mem_cons_of_mem d hm)).2 rfl
  obtain ⟨h1, h2⟩ := hno d List.mem_cons_self
  have hread := pieces?_inside hds [d] rest hplace
  simp [pieces?, h1, h2, hread]

end Template

/-- A plain template is read as its parts. Spelled out it parses, and it renders as its
items. -/
theorem pieces?_renders {args : List Shared} (parts : List Part) (next : Nat) {items : List Item}
    (h : resolve args next parts = some items) :
    ∃ template, Template.pieces? next .text (parts.flatMap Part.spelling) = some template ∧
      template.render? (args.map Shared.value) = some (items.flatMap Item.chars) := by
  induction parts generalizing next items with
  | nil =>
    obtain rfl := Option.some.inj h
    exact ⟨[], rfl, rfl⟩
  | cons part parts ih =>
    rw [List.flatMap_cons]
    cases part with
    | literal text =>
      obtain ⟨items, hi, rfl⟩ := Option.map_eq_some_iff.mp h
      obtain ⟨template, hp, hr⟩ := ih next hi
      refine ⟨(text.map fun c => .literal [c]) ++ template, ?_, ?_⟩
      · rw [Part.spelling, Template.pieces?_literal, hp]; rfl
      · exact Template.render?_append (Template.render?_literals text _) hr
    | next =>
      obtain ⟨a, ha, h⟩ := Option.bind_eq_some_iff.mp h
      obtain ⟨items, hi, h⟩ := Option.bind_eq_some_iff.mp h
      obtain rfl := Option.some.inj h
      obtain ⟨template, hp, hr⟩ := ih (next + 1) hi
      refine ⟨.placeholder next {} :: template, ?_, ?_⟩
      · rw [Template.pieces?_next, hp]; rfl
      · exact Template.render?_append (Template.render?_placeholder ha) hr
    | nth n =>
      obtain ⟨a, ha, h⟩ := Option.bind_eq_some_iff.mp h
      obtain ⟨items, hi, h⟩ := Option.bind_eq_some_iff.mp h
      obtain rfl := Option.some.inj h
      obtain ⟨template, hp, hr⟩ := ih next hi
      refine ⟨.placeholder n {} :: template, ?_, ?_⟩
      · rw [Template.pieces?_nth, hp]; rfl
      · exact Template.render?_append (Template.render?_placeholder ha) hr

end SupportLayer.Print
