/-
# The text of a sequence of integers tells it

Texts of elements are told apart inside a listing if two things hold (`Legible`): no text starts
with the closing bracket, and where two texts stand in front of what may come behind an element,
a comma or a space, they are the same text of the same element. The text of an integer has neither
commas nor spaces, so it ends where the first of them stands. A listing keeps both: it starts with
an opening bracket, and behind each element the comma or the space says whether another follows
(`Legible.closing_inj`). So the property goes from elements to sequences of them and on to any
depth, and two sequences with one text are one sequence.

Of strings this is not true: a comma and a space may stand in an element.

Key definitions: `Stops`, `Legible`, `closing`.
Key theorems: `Decimal.legible_integer`, `Legible.closing_inj`, `Legible.sequence`,
`Nest.display_injective`, `Sequence.integers_told_apart`.
-/
import Mathlib
import SupportLayer.Proofs.Sequence.Display

namespace SupportLayer

open Print (Style)

/-- What comes behind an element in a listing: nothing, or first of all a comma or a space. -/
def Stops (rest : List Char) : Prop := ∀ c ∈ rest.head?, c = ',' ∨ c = ' '

/-- The texts of elements can be read off a listing. -/
structure Legible {α : Type} (text : α → List Char) : Prop where
  /-- No text is empty or starts like the end of a listing. -/
  starts : ∀ a, ∃ c rest, text a = c :: rest ∧ c ≠ ']'
  /-- Where two texts go on with something that stops them, they are of one element. -/
  told : ∀ a b x y, Stops x → Stops y → text a ++ x = text b ++ y → a = b ∧ x = y

/-! ### Integers -/

namespace Decimal

theorem digits_injective : Function.Injective digits := by
  intro m n h
  rw [← foldl_digits m, ← foldl_digits n, h]

theorem digits_ne_minus (m : ℕ) (rest : List Char) : digits m ≠ '-' :: rest := by
  intro h
  have hminus : '-' ∈ digits m := h ▸ List.mem_cons_self
  exact absurd (isDigit_of_mem_digits hminus) (by decide)

theorem integer_injective : Function.Injective integer := by
  intro m n h
  unfold integer sign at h
  split at h <;> split at h
  · have habs : m.natAbs = n.natAbs := digits_injective (List.append_cancel_left h)
    omega
  · exact absurd h.symm (digits_ne_minus _ _)
  · exact absurd h (digits_ne_minus _ _)
  · have habs : m.natAbs = n.natAbs := digits_injective h
    omega

theorem mem_integer {n : ℤ} {c : Char} (h : c ∈ integer n) : c = '-' ∨ c.isDigit = true := by
  rw [integer, List.mem_append] at h
  rcases h with h | h
  · unfold sign at h
    split at h
    · exact .inl (List.mem_singleton.mp h)
    · cases h
  · exact .inr (isDigit_of_mem_digits h)

theorem not_stop_of_mem_integer {n : ℤ} {c : Char} (h : c ∈ integer n) : c ≠ ',' ∧ c ≠ ' ' := by
  constructor <;> rintro rfl <;> rcases mem_integer h with h | h <;> exact absurd h (by decide)

/-- The text of an integer is all there is in front of the stop. -/
theorem takeWhile_integer (n : ℤ) {x : List Char} (hx : Stops x) :
    (integer n ++ x).takeWhile (fun c => c ≠ ',' ∧ c ≠ ' ') = integer n := by
  rw [List.takeWhile_append_of_pos fun c hc => decide_eq_true (not_stop_of_mem_integer hc)]
  have hnil : x.takeWhile (fun c => c ≠ ',' ∧ c ≠ ' ') = [] := by
    cases x with
    | nil => rfl
    | cons c rest => rcases hx c rfl with rfl | rfl <;> rfl
  rw [hnil, List.append_nil]

theorem legible_integer : Legible integer where
  starts n := by
    cases h : integer n with
    | nil => exact absurd (List.append_eq_nil_iff.mp h).2 (digits_ne_nil _)
    | cons c rest =>
      refine ⟨c, rest, rfl, ?_⟩
      rintro rfl
      have hc : ']' ∈ integer n := h ▸ List.mem_cons_self
      rcases mem_integer hc with h | h <;> exact absurd h (by decide)
  told m n x y hx hy h := by
    have htext : integer m = integer n := by
      rw [← takeWhile_integer m hx, h, takeWhile_integer n hy]
    rw [htext] at h
    exact ⟨integer_injective htext, List.append_cancel_left h⟩

end Decimal

/-! ### Listings -/

/-- What comes behind an element of a listing: the other elements, and the end. -/
def closing : List (List Char) → List Char
  | [] => [' ', ']']
  | text :: texts => ',' :: ' ' :: (text ++ closing texts)

theorem listing_cons (text : List Char) (texts : List (List Char)) :
    listing (text :: texts) = '[' :: ' ' :: (text ++ closing texts) := by
  have hjoined :
      (", ".toList).intercalate (text :: texts) ++ " ]".toList = text ++ closing texts := by
    induction texts generalizing text with
    | nil => simp [closing]
    | cons next texts ih => rw [List.intercalate_cons_cons, List.append_assoc, ih, closing]; simp
  rw [listing, List.append_assoc, hjoined]
  rfl

theorem stops_closing (texts : List (List Char)) (x : List Char) : Stops (closing texts ++ x) := by
  cases texts <;> simp [closing, Stops]

namespace Legible

variable {α β : Type} {text : α → List Char}

/-- Elements that are told by legible ones are legible themselves. -/
theorem comp (h : Legible text) {f : β → α} (hf : Function.Injective f) :
    Legible (fun b => text (f b)) where
  starts b := h.starts (f b)
  told b c x y hx hy he := (h.told (f b) (f c) x y hx hy he).imp_left fun hbc => hf hbc

/-- The rest of a listing tells the elements in it, and where it ends. -/
theorem closing_inj (h : Legible text) : ∀ (l m : List α) (x y : List Char),
    closing (l.map text) ++ x = closing (m.map text) ++ y → l = m ∧ x = y
  | [], [], x, y, he => by simpa [closing] using he
  | [], _ :: _, x, y, he => by simp [closing] at he
  | _ :: _, [], x, y, he => by simp [closing] at he
  | a :: l, b :: m, x, y, he => by
    have hrest : text a ++ (closing (l.map text) ++ x) = text b ++ (closing (m.map text) ++ y) := by
      simpa [closing] using he
    obtain ⟨rfl, htail⟩ := h.told a b _ _ (stops_closing _ x) (stops_closing _ y) hrest
    obtain ⟨rfl, rfl⟩ := closing_inj h l m x y htail
    exact ⟨rfl, rfl⟩

/-- The empty listing closes where another one has its first element. -/
theorem listing_nil_ne (h : Legible text) (b : α) (m : List α) (x y : List Char) :
    listing [] ++ x ≠ listing ((b :: m).map text) ++ y := by
  intro he
  obtain ⟨c, rest, hb, hc⟩ := h.starts b
  rw [List.map_cons, listing_cons, hb] at he
  have hthird : (listing [] ++ x)[2]? = some c := by rw [he]; rfl
  cases hthird
  exact hc rfl

/-- A listing tells its elements, and where it ends. -/
theorem listing_inj (h : Legible text) (l m : List α) (x y : List Char)
    (he : listing (l.map text) ++ x = listing (m.map text) ++ y) : l = m ∧ x = y := by
  cases l with
  | nil =>
    cases m with
    | nil => exact ⟨rfl, List.append_cancel_left he⟩
    | cons b m => exact absurd he (h.listing_nil_ne b m x y)
  | cons a l =>
    cases m with
    | nil => exact absurd he.symm (h.listing_nil_ne a l y x)
    | cons b m =>
      simp only [List.map_cons, listing_cons, List.cons_append, List.append_assoc, List.cons.injEq,
        true_and] at he
      obtain ⟨rfl, htail⟩ := h.told a b _ _ (stops_closing _ x) (stops_closing _ y) he
      obtain ⟨rfl, rfl⟩ := h.closing_inj l m x y htail
      exact ⟨rfl, rfl⟩

/-- Sequences of what is legible are legible. -/
theorem sequence [Shown α] (h : Legible (Shown.display {} : α → List Char)) :
    Legible (Shown.display {} : Sequence α → List Char) where
  starts s := by
    rw [Sequence.display_eq_listing]
    cases s.toList.map (Shown.display {}) with
    | nil => exact ⟨'[', _, rfl, by decide⟩
    | cons text texts => exact ⟨'[', _, listing_cons text texts, by decide⟩
  told s t x y _ _ he := by
    rw [Sequence.display_eq_listing, Sequence.display_eq_listing] at he
    obtain ⟨hl, hx⟩ := h.listing_inj s.toList t.toList x y he
    exact ⟨congrArg Sequence.ofList hl, hx⟩

theorem injective (h : Legible text) : Function.Injective text := by
  intro a b he
  have hnothing : Stops [] := by simp [Stops]
  exact (h.told a b [] [] hnothing hnothing (congrArg (· ++ []) he)).1

end Legible

/-! ### Integers in sequences -/

theorem legible_int64 : Legible (Shown.display {} : Int64 → List Char) := by
  have hshown : (Shown.display {} : Int64 → List Char) = fun n => Decimal.integer n.toInt :=
    funext Shown.display_int64
  rw [hshown]
  exact Decimal.legible_integer.comp fun _ _ => Int64.toInt_inj.mp

theorem legible_uint64 : Legible (Shown.display {} : UInt64 → List Char) := by
  have hshown : (Shown.display {} : UInt64 → List Char) = fun n => Decimal.integer n.toNat :=
    funext Shown.display_uint64
  rw [hshown]
  exact Decimal.legible_integer.comp fun _ _ h => UInt64.toNat_inj.mp (Int.ofNat_inj.mp h)

/-- Nests of what is legible are legible, at any depth. -/
theorem Legible.nest {α : Type} [Shown α] (h : Legible (Shown.display {} : α → List Char)) :
    ∀ depth, Legible (Shown.display {} : Nest α depth → List Char)
  | 0 => h
  | depth + 1 => (Legible.nest h depth).sequence

/-- Two sequences nested to one depth with one text are one, whatever the styles in which they are
shown. -/
theorem Nest.display_injective {α : Type} [Shown α]
    (h : Legible (Shown.display {} : α → List Char)) (depth : ℕ) (style : Style) :
    Function.Injective (Shown.display style : Nest α (depth + 1) → List Char) := by
  have hplain : (Shown.display style : Nest α (depth + 1) → List Char) = Shown.display {} :=
    funext fun s => (Sequence.display_eq_listing style s).trans
      (Sequence.display_eq_listing {} s).symm
  rw [hplain]
  exact (h.nest (depth + 1)).injective

namespace Sequence

/-- **Sequences of integers, with sign or without, and sequences of such sequences are told by
their texts**: where the texts are equal, so are the lengths, the elements in their order, and
which of them stand in one inner sequence. -/
theorem integers_told_apart :
    Function.Injective (display : Sequence Int64 → List Char) ∧
      Function.Injective (display : Sequence UInt64 → List Char) ∧
      Function.Injective (display : Sequence (Sequence Int64) → List Char) :=
  ⟨Nest.display_injective legible_int64 0 {}, Nest.display_injective legible_uint64 0 {},
    Nest.display_injective legible_int64 1 {}⟩

/-- Strings are not told: here one of them holds the comma. -/
example : display (.ofList ["a, b"] : Sequence String) = display (.ofList ["a", "b"]) := by cbv

end Sequence

end SupportLayer
