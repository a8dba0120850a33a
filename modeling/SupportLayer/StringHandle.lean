/-
# String handles

A handle is what generated code passes for a string: a pointer to bytes it does not own
and a signed length. The pointer may be null and the length may be negative; either reads
as no bytes at all.

Key definitions: `StringHandle`, `StringHandle.ofBytes`, `StringHandle.contents`.
Key theorems: `StringHandle.contents_of_null`, `StringHandle.contents_eq_take`,
`StringHandle.contents_ofBytes`.
-/
import SupportLayer.Text.Utf8

namespace SupportLayer

/-- A pointer, told by the bytes behind it and whether it is null, and a signed length. -/
structure StringHandle where
  bytes : Bytes
  length : Int
  null : Bool := false
  deriving DecidableEq, Repr

namespace StringHandle

/-- The handle over all of some bytes. -/
def ofBytes (bytes : Bytes) : StringHandle := ⟨bytes, bytes.length, false⟩

/-- The handle over a text, which is one over the bytes that spell it. -/
def ofText (text : List Char) : StringHandle := ofBytes (Utf8.encode text)

/-- The length as a count: a negative one counts as zero. It does not look at the pointer. -/
def len (h : StringHandle) : Nat := h.length.toNat

/-- The count is zero. -/
def isEmpty (h : StringHandle) : Bool := h.len = 0

/-- The bytes that a reader sees: none through a null pointer or a length that is not positive. -/
def contents (h : StringHandle) : Bytes :=
  if h.null || h.length ≤ 0 then [] else h.bytes.take h.length.toNat

@[simp] theorem len_ofBytes (bytes : Bytes) : (ofBytes bytes).len = bytes.length := rfl

theorem contents_of_null {h : StringHandle} (hnull : h.null = true) : h.contents = [] := by
  simp [contents, hnull]

/-- Through any other pointer as many bytes are read as the length counts. -/
theorem contents_eq_take {h : StringHandle} (hnull : h.null = false) :
    h.contents = h.bytes.take h.len := by
  unfold contents len
  by_cases hlength : h.length ≤ 0
  · simp [hlength, Int.toNat_of_nonpos hlength]
  · simp [hlength, hnull]

/-- A handle made over bytes reads back as those bytes. -/
@[simp] theorem contents_ofBytes (bytes : Bytes) : (ofBytes bytes).contents = bytes := by
  rw [contents_eq_take rfl, len_ofBytes]
  exact List.take_length

end StringHandle

end SupportLayer
