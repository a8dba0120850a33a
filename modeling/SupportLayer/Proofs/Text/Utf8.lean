/-
# Every text is read back from its bytes

The reader tries one byte, then two, three and four, and keeps what is written like the bytes
tried. No character is written like the first few bytes of another, so nothing is kept too early;
and from all the bytes of a character its own number is proposed. So the bytes that are read are
those that spell a text, and they give that text.

A text in front of bytes does not change whether they spell one, since no character is written
like the start of another. Nor is a character written like the end of another: its first byte
tells it from those that continue one, so bytes that are left of a character spell no text.

Key definition: `Utf8.IsText`.
Key theorems: `Utf8.eq_of_encoded_append`, `Utf8.encodings`, `Utf8.decode?_encode`,
`Utf8.decode?_eq_some_iff`, `Utf8.isText_encode_append_iff`, `Utf8.not_isText_rest`.
-/
import Mathlib
import SupportLayer.Text.Utf8

namespace SupportLayer.Utf8

theorem eq_of_encoded_append {x c : Char} {rest rest' : Bytes}
    (h : String.utf8EncodeChar x ++ rest = String.utf8EncodeChar c ++ rest') : x = c := by
  have hread : ∀ (y : Char) (r : Bytes),
      ByteArray.utf8DecodeChar? (String.utf8EncodeChar y ++ r).toByteArray 0 = some y := by
    intro y r
    rw [List.toByteArray_append]
    exact ByteArray.utf8DecodeChar?_utf8EncodeChar_append
  have hx := hread x rest
  rw [h, hread c rest'] at hx
  exact (Option.some.inj hx).symm

theorem written?_eq_none {n : ℕ} {c : Char} {bytes rest : Bytes} (hrest : rest ≠ [])
    (h : String.utf8EncodeChar c = bytes ++ rest) : written? n bytes = none := by
  rw [Option.eq_none_iff_forall_ne_some]
  intro x hx
  have hbytes := eq_of_written? hx
  have hsame : String.utf8EncodeChar x ++ rest = String.utf8EncodeChar c ++ [] := by
    rw [List.append_nil, hbytes, h]
  rw [← eq_of_encoded_append hsame, hbytes] at h
  exact hrest (List.self_eq_append_right.mp h)

theorem written?_self {n : ℕ} {c : Char} {bytes : Bytes} (hn : n = c.toNat)
    (h : String.utf8EncodeChar c = bytes) : written? n bytes = some c := by
  rw [written?, hn, Char.ofNat_toNat, if_pos h]

theorem toNat_lt (c : Char) : c.toNat < 0x110000 := by
  have := c.valid
  simp only [UInt32.isValidChar, Nat.isValidChar, Char.toNat_val] at this
  omega

/-- A character is written in one to four bytes, which hold its number. -/
theorem encodings (c : Char) :
    (∃ a, String.utf8EncodeChar c = [a] ∧ a.toNat = c.toNat) ∨
    (∃ a b, String.utf8EncodeChar c = [a, b] ∧ a.toNat % 32 * 64 + payload b = c.toNat) ∨
    (∃ a b d, String.utf8EncodeChar c = [a, b, d] ∧
      (a.toNat % 16 * 64 + payload b) * 64 + payload d = c.toNat) ∨
    ∃ a b d e, String.utf8EncodeChar c = [a, b, d, e] ∧
      ((a.toNat % 8 * 64 + payload b) * 64 + payload d) * 64 + payload e = c.toNat := by
  have hvalid := toNat_lt c
  unfold String.utf8EncodeChar
  simp only [payload, Char.toNat_val]
  split
  · refine .inl ⟨_, rfl, ?_⟩
    simp only [UInt8.toNat_ofNat']
    omega
  · split
    · refine .inr (.inl ⟨_, _, rfl, ?_⟩)
      simp only [UInt8.toNat_ofNat']
      omega
    · split
      · refine .inr (.inr (.inl ⟨_, _, _, rfl, ?_⟩))
        simp only [UInt8.toNat_ofNat']
        omega
      · refine .inr (.inr (.inr ⟨_, _, _, _, rfl, ?_⟩))
        simp only [UInt8.toNat_ofNat']
        omega

theorem decode?_encode_cons (c : Char) (bytes : Bytes) :
    decode? (String.utf8EncodeChar c ++ bytes) = (decode? bytes).map (c :: ·) := by
  rcases encodings c with ⟨a, h, hn⟩ | ⟨a, b, h, hn⟩ | ⟨a, b, d, h, hn⟩ | ⟨a, b, d, e, h, hn⟩
  · simp only [h, List.cons_append, List.nil_append]
    simp only [decode?.eq_def (a :: _), written?_self hn h]
  · have hone : ∀ n, written? n [a] = none := fun n => written?_eq_none (by simp) h
    simp only [h, List.cons_append, List.nil_append]
    simp only [decode?.eq_def (a :: _), hone, written?_self hn h]
  · have hone : ∀ n, written? n [a] = none := fun n => written?_eq_none (by simp) h
    have htwo : ∀ n, written? n [a, b] = none := fun n => written?_eq_none (by simp) h
    simp only [h, List.cons_append, List.nil_append]
    simp only [decode?.eq_def (a :: _), hone, htwo, written?_self hn h]
  · have hone : ∀ n, written? n [a] = none := fun n => written?_eq_none (by simp) h
    have htwo : ∀ n, written? n [a, b] = none := fun n => written?_eq_none (by simp) h
    have hthree : ∀ n, written? n [a, b, d] = none := fun n => written?_eq_none (by simp) h
    simp only [h, List.cons_append, List.nil_append]
    simp only [decode?.eq_def (a :: _), hone, htwo, hthree, written?_self hn h]

theorem decode?_encode : ∀ text : List Char, decode? (encode text) = some text
  | [] => rfl
  | c :: text => by rw [encode_cons, decode?_encode_cons, decode?_encode text, Option.map_some]

/-- The bytes that are read as a text are those that spell it. -/
theorem decode?_eq_some_iff {bytes : Bytes} {text : List Char} :
    decode? bytes = some text ↔ bytes = encode text :=
  ⟨eq_encode_of_decode?, fun h => h ▸ decode?_encode text⟩

/-! ### Bytes that spell a text -/

/-- The bytes spell a text. -/
def IsText (bytes : Bytes) : Prop := ∃ text, bytes = encode text

theorem isText_encode (text : List Char) : IsText (encode text) := ⟨text, rfl⟩

/-- Behind a text, bytes spell a text iff they do so by themselves. -/
theorem isText_encode_append_iff {text : List Char} {bytes : Bytes} :
    IsText (encode text ++ bytes) ↔ IsText bytes := by
  constructor
  · rintro ⟨whole, h⟩
    induction text generalizing whole with
    | nil => exact ⟨whole, h⟩
    | cons c text ih =>
      rw [encode_cons, List.append_assoc] at h
      cases whole with
      | nil => simp [String.utf8EncodeChar_ne_nil] at h
      | cons x whole =>
        rw [encode_cons] at h
        obtain rfl := eq_of_encoded_append h
        exact ih whole (List.append_cancel_left h)
  · rintro ⟨rest, rfl⟩
    exact ⟨text ++ rest, (encode_append text rest).symm⟩

/-- The first byte of a character never continues one, the others do. -/
theorem first_and_rest (c : Char) : ∃ b rest, String.utf8EncodeChar c = b :: rest ∧
    b.toNat / 64 ≠ 2 ∧ (∀ r ∈ rest, r.toNat / 64 = 2) ∧ (rest ≠ [] → 128 ≤ b.toNat) := by
  have hvalid := toNat_lt c
  unfold String.utf8EncodeChar
  simp only [Char.toNat_val]
  split
  · refine ⟨_, _, rfl, ?_, by simp, by simp⟩
    simp only [UInt8.toNat_ofNat']
    omega
  · split
    · refine ⟨_, _, rfl, ?_, ?_, ?_⟩
      all_goals simp only [List.forall_mem_cons, UInt8.toNat_ofNat']
      all_goals simp
      all_goals omega
    · split
      · refine ⟨_, _, rfl, ?_, ?_, ?_⟩
        all_goals simp only [List.forall_mem_cons, UInt8.toNat_ofNat']
        all_goals simp
        all_goals omega
      · refine ⟨_, _, rfl, ?_, ?_, ?_⟩
        all_goals simp only [List.forall_mem_cons, UInt8.toNat_ofNat']
        all_goals simp
        all_goals omega

/-- No text starts with what is left of a character without its first byte. -/
theorem not_isText_rest {c : Char} {b : UInt8} {rest : Bytes}
    (h : String.utf8EncodeChar c = b :: rest) (hrest : rest ≠ []) (bytes : Bytes) :
    ¬ IsText (rest ++ bytes) := by
  rintro ⟨text, ht⟩
  obtain ⟨b', rest', hc, -, hcont, -⟩ := first_and_rest c
  obtain ⟨rfl, rfl⟩ := List.cons.inj (h.symm.trans hc)
  obtain ⟨r, more, rfl⟩ := List.exists_cons_of_ne_nil hrest
  cases text with
  | nil => simp at ht
  | cons x text =>
    obtain ⟨lead, tail, hx, hlead, -, -⟩ := first_and_rest x
    rw [encode_cons, hx, List.cons_append, List.cons_append] at ht
    have hr := hcont r List.mem_cons_self
    rw [(List.cons.inj ht).1] at hr
    exact hlead hr

end SupportLayer.Utf8
