/-
# Views of a sequence

The forms that lend elements out for reading: the indexed form, which panics outside the bounds like
the form that copies; a view of the storage, to be read as a slice or through a pointer to its first
slot; and an iterator, which gives the slots one after the other.

Key definitions: `Sequence.index`, `RawView`, `Sequence.rawView`, `Iter`, `Iter.item?`,
`Sequence.iter`, `Sequence.consume`.
Key theorem: `Iter.item?_eq`.
-/
import SupportLayer.Sequence.Basic

namespace SupportLayer

variable {α : Type}

/-- The slots of a sequence, lent for reading. -/
structure RawView (α : Type) where
  slots : Array α

namespace RawView

/-- The number of slots. -/
def length (view : RawView α) : Nat := view.slots.size

/-- The slots as a slice. -/
def slice (view : RawView α) : List α := view.slots.toList

/-- What the pointer to the first slot leads to at an offset, for callers who know that there is a
slot. -/
def read (view : RawView α) (offset : Nat) : Option α := view.slots[offset]?

end RawView

/-- An iterator over slots, with the number of those that it gave. -/
structure Iter (α : Type) where
  slots : Array α
  given : Nat := 0

namespace Iter

/-- The next item, if there is one, and the iterator behind it. -/
def next? (it : Iter α) : Option (α × Iter α) :=
  it.slots[it.given]?.map fun a => (a, { it with given := it.given + 1 })

/-- The item that an iterator gives after some others. -/
def item? (it : Iter α) : Nat → Option α
  | 0 => it.next?.map (·.1)
  | n + 1 => it.next?.bind fun (_, rest) => rest.item? n

theorem item?_eq (it : Iter α) (n : Nat) : it.item? n = it.slots[it.given + n]? := by
  induction n generalizing it with
  | zero => cases h : it.slots[it.given]? <;> simp [item?, next?, h]
  | succ n ih =>
    rw [item?, next?]
    cases h : it.slots[it.given]? with
    | none =>
      rw [Array.getElem?_eq_none_iff] at h
      exact (Array.getElem?_eq_none (by omega)).symm
    | some a =>
      have hrest := ih { it with given := it.given + 1 }
      simpa [Nat.add_assoc, Nat.add_comm 1 n] using hrest

end Iter

namespace Sequence

/-- The element at an index, lent; panics if there is none. -/
def index (s : Sequence α) (i : Nat) : Except Panic α :=
  if h : i < s.items.size then .ok s.items[i] else .error (.outOfBounds s.length i)

/-- The storage, lent. -/
def rawView (s : Sequence α) : RawView α := ⟨s.items⟩

/-- The elements, lent one after the other. -/
def iter (s : Sequence α) : Iter α := { slots := s.items }

/-- The elements, given away one after the other, and what is left of the sequence. -/
def consume (s : Sequence α) : Iter α × Sequence α := ({ slots := s.items }, empty)

/-- The form that lends an element finds it, or panics, where the one that copies does. -/
theorem index_eq_get (s : Sequence α) (i : Nat) : s.index i = s.get i := by
  unfold index get
  split
  next h => rw [Array.getElem?_eq_getElem h]
  next h => rw [Array.getElem?_eq_none (Nat.le_of_not_lt h)]

@[simp] theorem length_rawView (s : Sequence α) : s.rawView.length = s.length := rfl

@[simp] theorem slice_rawView (s : Sequence α) : s.rawView.slice = s.toList := rfl

theorem read_rawView (s : Sequence α) (i : Nat) : s.rawView.read i = s.toList[i]? := by
  simp [rawView, RawView.read, toList]

theorem item?_iter (s : Sequence α) (i : Nat) : s.iter.item? i = s.toList[i]? := by
  simp [iter, Iter.item?_eq, toList]

theorem item?_consume (s : Sequence α) (i : Nat) : s.consume.1.item? i = s.toList[i]? :=
  item?_iter s i

end Sequence

end SupportLayer
