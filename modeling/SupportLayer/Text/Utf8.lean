/-
# Bytes and the text they spell

Text is written as UTF-8 (`encode`), and bytes are read back only if they are the
shortest form of some text (`decode?`): no overlong forms, no surrogates, no cut sequence.
The reader proposes a scalar value for each sequence of one to four bytes and keeps it
only if writing it again gives the same bytes, so strictness needs no table of ranges.

Key definitions: `Bytes`, `Utf8.encode`, `Utf8.decode?`.
Key theorems: `Utf8.encode_append`, `Utf8.size_append`, `Utf8.eq_encode_of_decode?`.
-/

namespace SupportLayer

/-- A run of bytes. -/
abbrev Bytes := List UInt8

namespace Utf8

/-- The bytes that spell a text. -/
def encode (text : List Char) : Bytes :=
  text.flatMap String.utf8EncodeChar

@[simp] theorem encode_nil : encode [] = [] := rfl

@[simp] theorem encode_cons (c : Char) (text : List Char) :
    encode (c :: text) = String.utf8EncodeChar c ++ encode text := rfl

theorem encode_append (s t : List Char) : encode (s ++ t) = encode s ++ encode t := by
  simp [encode]

theorem encode_flatten (texts : List (List Char)) :
    encode texts.flatten = (texts.map encode).flatten := by
  induction texts with
  | nil => rfl
  | cons text texts ih => rw [List.flatten_cons, encode_append, ih, List.map_cons, List.flatten_cons]

/-- The number of bytes that a text takes. -/
def size (text : List Char) : Nat :=
  text.foldl (fun n c => n + c.utf8Size) 0

theorem foldl_size (text : List Char) (n : Nat) :
    text.foldl (fun n c => n + c.utf8Size) n = n + size text := by
  unfold size
  induction text generalizing n with
  | nil => rfl
  | cons c text ih =>
    rw [List.foldl_cons, List.foldl_cons, ih, ih (0 + c.utf8Size)]
    omega

theorem size_append (s t : List Char) : size (s ++ t) = size s + size t := by
  rw [size, List.foldl_append, foldl_size]
  rfl

theorem size_pos {text : List Char} (h : text ≠ []) : 0 < size text := by
  cases text with
  | nil => exact absurd rfl h
  | cons c text =>
    have := c.utf8Size_pos
    rw [size, List.foldl_cons, foldl_size]
    omega

/-- The character with scalar value `n`, if `bytes` is how it is written. -/
def written? (n : Nat) (bytes : Bytes) : Option Char :=
  if String.utf8EncodeChar (Char.ofNat n) = bytes then some (Char.ofNat n) else none

/-- The payload of a byte that continues a sequence. -/
def payload (b : UInt8) : Nat := b.toNat % 64

/-- The text that the bytes spell, if they are the written form of one. -/
def decode? : Bytes → Option (List Char)
  | [] => some []
  | a :: r =>
    match written? a.toNat [a] with
    | some x => (decode? r).map (x :: ·)
    | none =>
      match r with
      | [] => none
      | b :: r =>
        match written? (a.toNat % 32 * 64 + payload b) [a, b] with
        | some x => (decode? r).map (x :: ·)
        | none =>
          match r with
          | [] => none
          | c :: r =>
            match written? ((a.toNat % 16 * 64 + payload b) * 64 + payload c) [a, b, c] with
            | some x => (decode? r).map (x :: ·)
            | none =>
              match r with
              | [] => none
              | d :: r =>
                match written? (((a.toNat % 8 * 64 + payload b) * 64 + payload c) * 64 + payload d)
                    [a, b, c, d] with
                | some x => (decode? r).map (x :: ·)
                | none => none

theorem eq_of_written? {n : Nat} {bytes : Bytes} {c : Char} (h : written? n bytes = some c) :
    String.utf8EncodeChar c = bytes := by
  unfold written? at h
  split at h <;> simp_all

/-- Only the written form of a text is read. -/
theorem eq_encode_of_decode? {bytes : Bytes} {text : List Char} (h : decode? bytes = some text) :
    bytes = encode text := by
  fun_induction decode? bytes generalizing text with
  | case1 => simp_all
  | case2 a r x hx ih =>
    obtain ⟨t, ht, rfl⟩ := Option.map_eq_some_iff.1 h
    simp [eq_of_written? hx, ← ih ht]
  | case3 => simp at h
  | case4 a _ b r x hx ih =>
    obtain ⟨t, ht, rfl⟩ := Option.map_eq_some_iff.1 h
    simp [eq_of_written? hx, ← ih ht]
  | case5 => simp at h
  | case6 a _ b _ c r x hx ih =>
    obtain ⟨t, ht, rfl⟩ := Option.map_eq_some_iff.1 h
    simp [eq_of_written? hx, ← ih ht]
  | case7 => simp at h
  | case8 a _ b _ c _ d r x hx ih =>
    obtain ⟨t, ht, rfl⟩ := Option.map_eq_some_iff.1 h
    simp [eq_of_written? hx, ← ih ht]
  | case9 => simp at h

end Utf8

end SupportLayer
