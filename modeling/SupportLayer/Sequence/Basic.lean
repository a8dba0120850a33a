/-
# Sequences

The growable sequence of generated code. It owns its elements: a copy is a value of its own,
and a transfer hands the elements over and leaves the source empty. Access and removal come
in three forms: one that panics outside the bounds, one that is only for callers who know
that they are inside, and one that reports a fault. Room may be asked for ahead; it is never
seen, but there is a largest number of bytes that may be asked for.

Key definitions: `Sequence`, `Stored`, `Sequence.Fits`, `Sequence.withCapacity`,
`Sequence.push`, `Sequence.pop`, `Sequence.get`, `Sequence.transfer`.
Key theorems: `Sequence.toList_push`, `Sequence.dropLast_eq`, `Sequence.pop_eq`,
`Sequence.get_eq`, `Sequence.set_eq`.
-/
import SupportLayer.Fault

namespace SupportLayer

/-- A run of elements. -/
structure Sequence (α : Type) where
  items : Array α
  deriving DecidableEq, Repr

/-- What the panicking forms report. -/
inductive Panic where
  | outOfBounds (length index : Nat)
  | emptyPop
  | capacityOverflow
  deriving DecidableEq, Repr

/-- The text of a panic. -/
def Panic.message : Panic → String
  | outOfBounds length index =>
    "index out of bounds: the len is " ++ Decimal.text length ++ " but the index is " ++
      Decimal.text index
  | emptyPop => Fault.emptyContainer.message
  | capacityOverflow => "capacity overflow"

/-- Elements that take up a number of bytes each. -/
class Stored (α : Type) where
  size : Nat

instance : Stored Int64 := ⟨8⟩

instance : Stored UInt64 := ⟨8⟩

-- a pointer, a length and a capacity
instance : Stored String := ⟨24⟩

instance (α : Type) : Stored (Sequence α) := ⟨24⟩

namespace Sequence

variable {α : Type}

/-- The sequence without elements. -/
def empty : Sequence α := ⟨#[]⟩

/-- The most bytes that may be asked for at once, the largest signed 64-bit number. -/
def mostBytes : Nat := 9223372036854775807

/-- Room for so many elements may be asked for. Whether the memory is there is for the allocator
to say. -/
def Fits (α : Type) [Stored α] (room : Nat) : Prop := room * Stored.size α ≤ mostBytes

instance [Stored α] (room : Nat) : Decidable (Fits α room) := inferInstanceAs (Decidable (_ ≤ _))

/-- A sequence without elements and with room for some; panics if there cannot be so much.
The room is never seen. -/
def withCapacity [Stored α] (room : Nat) : Except Panic (Sequence α) :=
  if Fits α room then .ok empty else .error .capacityOverflow

/-- The sequence of the elements of a list. -/
def ofList (elements : List α) : Sequence α := ⟨elements.toArray⟩

/-- The elements, in order. -/
def toList (s : Sequence α) : List α := s.items.toList

/-- The number of elements. -/
def length (s : Sequence α) : Nat := s.items.size

/-- There is no element. -/
def isEmpty (s : Sequence α) : Bool := s.length = 0

/-- The new length, and the sequence with one more element at its end. -/
def push (s : Sequence α) (element : α) : Nat × Sequence α :=
  (s.length + 1, ⟨s.items.push element⟩)

/-- The last element, if there is one, and the sequence without it. -/
def dropLast (s : Sequence α) : Option α × Sequence α := (s.items.back?, ⟨s.items.pop⟩)

/-- Removal that panics on the empty sequence. -/
def pop (s : Sequence α) : Except Panic α × Sequence α :=
  match s.dropLast with
  | (some element, rest) => (.ok element, rest)
  | (none, _) => (.error .emptyPop, s)

/-- Removal that reports a fault on the empty sequence. -/
def tryPop (s : Sequence α) : Except Fault α × Sequence α :=
  match s.dropLast with
  | (some element, rest) => (.ok element, rest)
  | (none, _) => (.error .emptyContainer, s)

/-- Removal for callers who know that there is an element; nothing is answered otherwise. -/
def popUnchecked (s : Sequence α) : Option α × Sequence α :=
  match s.dropLast with
  | (some element, rest) => (some element, rest)
  | (none, _) => (none, s)

/-- The element at an index, for callers who know that there is one. -/
def getUnchecked (s : Sequence α) (index : Nat) : Option α := s.items[index]?

/-- The element at an index; panics if there is none. -/
def get (s : Sequence α) (index : Nat) : Except Panic α :=
  match s.items[index]? with
  | some element => .ok element
  | none => .error (.outOfBounds s.length index)

/-- The element at an index; reports a fault if there is none. -/
def tryGet (s : Sequence α) (index : Nat) : Except Fault α :=
  match s.items[index]? with
  | some element => .ok element
  | none => .error (.outOfRange index s.length)

/-- The sequence with the element at an index replaced, for callers who know that there is
one. -/
def set (s : Sequence α) (index : Nat) (element : α) : Option (Sequence α) :=
  if h : index < s.items.size then some ⟨s.items.set index element h⟩ else none

/-- The elements handed over, and what the source is left with. -/
def transfer (s : Sequence α) : Sequence α × Sequence α := (s, empty)

theorem withCapacity_of_fits [Stored α] {room : Nat} (h : Fits α room) :
    withCapacity room = .ok (empty : Sequence α) := if_pos h

theorem withCapacity_of_not_fits [Stored α] {room : Nat} (h : ¬ Fits α room) :
    withCapacity room = (.error .capacityOverflow : Except Panic (Sequence α)) := if_neg h

@[simp] theorem toList_ofList (l : List α) : (ofList l).toList = l := rfl

@[simp] theorem toList_empty : (empty : Sequence α).toList = [] := rfl

@[simp] theorem length_toList (s : Sequence α) : s.toList.length = s.length := by
  simp [toList, length]

@[simp] theorem isEmpty_toList (s : Sequence α) : s.toList.isEmpty = s.isEmpty := by
  rw [isEmpty, ← length_toList]
  cases s.toList <;> simp

@[simp] theorem toList_push (s : Sequence α) (a : α) : (s.push a).2.toList = s.toList ++ [a] := by
  simp [push, toList]

/-- Removal takes the last of the elements and leaves the others. -/
theorem dropLast_eq (s : Sequence α) :
    s.dropLast.1 = s.toList.getLast? ∧ s.dropLast.2.toList = s.toList.dropLast := by
  simp [dropLast, toList]

@[simp] theorem ofList_toList (s : Sequence α) : ofList s.toList = s := rfl

theorem toList_inj {s t : Sequence α} : s.toList = t.toList ↔ s = t :=
  ⟨congrArg ofList, congrArg toList⟩

/-! ### The forms of removal and access, on the list of elements -/

theorem dropLast_toList (s : Sequence α) :
    s.dropLast = (s.toList.getLast?, ofList s.toList.dropLast) := by
  obtain ⟨hlast, hrest⟩ := s.dropLast_eq
  exact Prod.ext hlast (congrArg ofList hrest)

theorem ofList_dropLast_of_none {s : Sequence α} (h : s.toList.getLast? = none) :
    ofList s.toList.dropLast = s := by
  rw [List.getLast?_eq_none_iff] at h
  rw [h, List.dropLast_nil, ← h, ofList_toList]

theorem pop_eq (s : Sequence α) :
    s.pop = (s.toList.getLast?.elim (.error .emptyPop) .ok, ofList s.toList.dropLast) := by
  unfold pop
  rw [dropLast_toList]
  cases h : s.toList.getLast? with
  | none => rw [ofList_dropLast_of_none h]; rfl
  | some a => rfl

theorem tryPop_eq (s : Sequence α) :
    s.tryPop = (s.toList.getLast?.elim (.error .emptyContainer) .ok, ofList s.toList.dropLast) := by
  unfold tryPop
  rw [dropLast_toList]
  cases h : s.toList.getLast? with
  | none => rw [ofList_dropLast_of_none h]; rfl
  | some a => rfl

theorem popUnchecked_eq (s : Sequence α) :
    s.popUnchecked = (s.toList.getLast?, ofList s.toList.dropLast) := by
  unfold popUnchecked
  rw [dropLast_toList]
  cases h : s.toList.getLast? with
  | none => rw [ofList_dropLast_of_none h]
  | some a => rfl

theorem getUnchecked_eq (s : Sequence α) (i : Nat) : s.getUnchecked i = s.toList[i]? := by
  simp [getUnchecked, toList]

theorem get_eq (s : Sequence α) (i : Nat) :
    s.get i = s.toList[i]?.elim (.error (.outOfBounds s.length i)) .ok := by
  rw [← getUnchecked_eq]
  unfold get getUnchecked
  cases s.items[i]? <;> rfl

theorem tryGet_eq (s : Sequence α) (i : Nat) :
    s.tryGet i = s.toList[i]?.elim (.error (.outOfRange i s.length)) .ok := by
  rw [← getUnchecked_eq]
  unfold tryGet getUnchecked
  cases s.items[i]? <;> rfl

theorem set_eq (s : Sequence α) (i : Nat) (a : α) :
    s.set i a = if i < s.length then some (ofList (s.toList.set i a)) else none := by
  unfold set length
  split
  next h =>
    have hlist : (s.items.set i a h).toList = s.toList.set i a := Array.toList_set _ i a h
    rw [← hlist]
    rfl
  next => rfl

end Sequence

end SupportLayer
