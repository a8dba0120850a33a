/-
# A sequence is shown as the list of its elements

The elements are written in a loop that puts a comma behind every index but the last one, and the
last one is the length less one, cut off at zero. So the loop puts a comma between two elements and
nowhere else, and what it writes is the joined texts of the elements behind a space
(`Sequence.flatten_elementPieces`).

The elements are written without a style, whatever the style of the sequence. If they are sequences
themselves, this is true of them in turn, so a sequence nested to any depth is shown as lists of
lists, and a style of the outermost placeholder is seen nowhere.

Key definitions: `listing`, `Nest`, `Nest.text`.
Key theorems: `Sequence.flatten_elementPieces`, `Sequence.display_eq_listing`,
`Nest.display_eq_text`, `Nest.shown_as_listing`.
-/
import Mathlib
import SupportLayer.Print.Template

namespace SupportLayer

open Print (Style)

/-- Texts in one: between brackets, with a comma and a space between two of them. -/
def listing : List (List Char) → List Char
  | [] => "[ ]".toList
  | text :: texts => "[ ".toList ++ (", ".toList).intercalate (text :: texts) ++ " ]".toList

variable {α : Type} [Shown α]

namespace Sequence

/-- The loop over the elements from index `i` to `last` joins their texts. -/
theorem flatten_elementPieces {last : ℕ} : ∀ (i : ℕ) (a : α) (rest : List α),
    i + rest.length = last →
    (elementPieces last i (a :: rest)).flatten =
      ' ' :: (", ".toList).intercalate ((a :: rest).map (Shown.display {}))
  | i, a, [], h => by
    have hlast : i = last := h
    simp [elementPieces, hlast, Shown.display]
  | i, a, b :: rest, h => by
    rw [List.length_cons] at h
    have hmore : i ≠ last := by omega
    have hnext : i + 1 + rest.length = last := by omega
    have ih := flatten_elementPieces (i + 1) b rest hnext
    have hstep : elementPieces last i (a :: b :: rest) =
        [' '] :: Shown.pieces {} a ++ [[',']] ++ elementPieces last (i + 1) (b :: rest) := by
      rw [elementPieces, if_pos hmore]
    rw [hstep, List.flatten_append, ih]
    simp [Shown.display, List.intercalate_cons_cons]

/-- The text of a sequence is the listing of the texts of its elements, each without a style,
whatever the style of the sequence. -/
theorem display_eq_listing (style : Style) (s : Sequence α) :
    Shown.display style s = listing (s.toList.map (Shown.display {})) := by
  have hpieces : Shown.pieces style s =
      ['['] :: elementPieces (s.toList.length - 1) 0 s.toList ++ [[' ', ']']] := by
    rw [length_toList]
    rfl
  rw [Shown.display, hpieces]
  cases s.toList with
  | nil => rfl
  | cons a rest =>
    have hlast : 0 + rest.length = (a :: rest).length - 1 := by simp
    have hloop := flatten_elementPieces 0 a rest hlast
    rw [List.flatten_append, List.flatten_cons, hloop]
    simp [listing]

end Sequence

/-- Sequences of sequences, as deep as `depth` says, of elements at the bottom. -/
def Nest (α : Type) : ℕ → Type
  | 0 => α
  | depth + 1 => Sequence (Nest α depth)

namespace Nest

/-- A nest is shown as the sequence that it is. -/
instance shown : (depth : ℕ) → Shown (Nest α depth)
  | 0 => inferInstanceAs (Shown α)
  | depth + 1 =>
    haveI := shown depth
    inferInstanceAs (Shown (Sequence (Nest α depth)))

/-- The text of a nest: a listing of what is in it, and at the bottom the plain text of an
element. -/
def text : (depth : ℕ) → Nest α depth → List Char
  | 0, a => Shown.display (α := α) {} a
  | depth + 1, s => listing ((Sequence.toList s).map (text depth))

/-- Without a style, a nest is shown as its text. -/
theorem display_eq_text (depth : ℕ) :
    (Shown.display {} : Nest α depth → List Char) = text depth := by
  induction depth with
  | zero => rfl
  | succ depth ih =>
    funext s
    rw [text, ← ih]
    exact Sequence.display_eq_listing {} s

/-- **A nest is shown as a listing of listings, whatever the style.** Neither the width, the fill
and the side, nor the sign, the zeros and the precision that a plain placeholder asks for show in
the text, at any depth. -/
theorem shown_as_listing (style : Style) (depth : ℕ) (nest : Nest α (depth + 1)) :
    Shown.display style nest = listing ((Sequence.toList nest).map (text depth)) ∧
      Style.shown { style with form := .plain } nest =
        listing ((Sequence.toList nest).map (text depth)) := by
  have hany : ∀ style : Style,
      Shown.display style nest = listing ((Sequence.toList nest).map (text depth)) := by
    intro style
    rw [← display_eq_text depth]
    exact Sequence.display_eq_listing style nest
  exact ⟨hany style, hany { style with form := .plain }⟩

/-- Three sequences, one of them empty, where twelve columns, a sign and zeros are asked for. -/
example : Shown.display { width := 12, plus := true, zeros := true }
    (Sequence.ofList [.ofList [1, -2], .empty, .ofList [3]] : Sequence (Sequence Int64)) =
      "[ [ 1, -2 ], [ ], [ 3 ] ]".toList := by cbv

end Nest

end SupportLayer
