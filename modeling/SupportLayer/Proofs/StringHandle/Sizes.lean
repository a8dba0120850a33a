/-
# What the size of a handle says of its bytes

The size queries of a handle look at its length alone, a reader of its bytes looks at the pointer
as well. Both take a negative length for none, so they part in one case only: with a positive
length and a null pointer the handle is hollow, it has a size and no bytes. Otherwise there are as
many bytes as the size says (`length_contents`), and the handle is empty iff there are none. A
handle that is made over bytes is never hollow and reads back as those bytes, so wherever `%s`
takes it, the line has them between what is printed for the format in front and for the format
behind (`prints_contents`).

Key definitions: `StringHandle.Hollow`, `StringHandle.Agrees`, `StringHandle.Made`,
`Print.PrintsAs`.
Key theorems: `StringHandle.length_contents`, `StringHandle.agrees_iff`, `Print.prints_contents`,
`StringHandle.sizes_agree_iff`, `StringHandle.sizes_not_agree`.
-/
import Mathlib
import SupportLayer.Proofs.Print.Concatenation

namespace SupportLayer

namespace StringHandle

/-- The length promises bytes, and the pointer leads to none. -/
def Hollow (h : StringHandle) : Prop := h.null = true ∧ 0 < h.length

instance (h : StringHandle) : Decidable h.Hollow := inferInstanceAs (Decidable (_ ∧ _))

/-- The size queries answer for the bytes that are read. -/
structure Agrees (h : StringHandle) : Prop where
  len : h.len = h.contents.length
  isEmpty : h.isEmpty = true ↔ h.contents = []

/-- The ways to make a handle over bytes: from them, or from a text that they spell. -/
inductive Made : Bytes → StringHandle → Prop
  | ofBytes (bytes : Bytes) : Made bytes (.ofBytes bytes)
  | ofText (text : List Char) : Made (Utf8.encode text) (.ofText text)

/-! ### The size queries -/

variable {h : StringHandle}

theorem isEmpty_iff : h.isEmpty = true ↔ h.len = 0 := by simp [isEmpty]

theorem len_pos_iff : 0 < h.len ↔ 0 < h.length := by
  unfold len
  omega

/-- As many bytes are read as the size says, unless the pointer is null. -/
theorem length_contents (within : h.length ≤ h.bytes.length) :
    h.contents.length = if h.null then 0 else h.len := by
  cases hnull : h.null with
  | true => rw [contents_of_null hnull, List.length_nil, if_pos rfl]
  | false =>
    have hlen : h.len ≤ h.bytes.length := by
      unfold len
      omega
    rw [contents_eq_take hnull, List.length_take_of_le hlen, if_neg Bool.false_ne_true]

theorem agrees_iff_len : h.Agrees ↔ h.len = h.contents.length := by
  refine ⟨Agrees.len, fun hlen => ⟨hlen, ?_⟩⟩
  rw [isEmpty_iff, hlen, List.length_eq_zero_iff]

theorem agrees_iff (within : h.length ≤ h.bytes.length) : h.Agrees ↔ ¬ h.Hollow := by
  rw [agrees_iff_len, length_contents within, Hollow, ← len_pos_iff]
  cases h.null with
  | true => simp -- nothing is read, so the size has to be zero
  | false => simp

theorem Hollow.parts (hollow : h.Hollow) :
    h.contents = [] ∧ 0 < h.len ∧ h.isEmpty = false := by
  have hpos : 0 < h.len := len_pos_iff.mpr hollow.2
  refine ⟨contents_of_null hollow.1, hpos, ?_⟩
  rw [Bool.eq_false_iff, Ne, isEmpty_iff]
  exact hpos.ne'

theorem Made.eq_ofBytes {bytes : Bytes} (made : Made bytes h) : h = .ofBytes bytes := by
  cases made <;> rfl

end StringHandle

/-! ### The bytes in a line -/

namespace Print

/-- Wherever `%s` takes the handle, `bytes` are printed: the format in front of it is read to its
end and leaves the handle as its next argument, and the line is what is printed for that format,
then `bytes`, then what is printed for the format behind. -/
def PrintsAs (handle : StringHandle) (bytes : Bytes) : Prop :=
  ∀ (sink : Sink) (front back : Bytes) (args : Arguments), Even (trailing front) →
    ((args.left front).slot? 0).map Argument.handle = some handle →
    let before := (expand args 0 front).text
    let after := (expand (args.left (front ++ [percent, letterS])) 0 back).text
    let printed := writeUnchecked sink (front ++ [percent, letterS] ++ back) args
    sink.Accepts (before.length + bytes.length + after.length + 1) →
      printed.answer = .ok (before.length + bytes.length + after.length) ∧
        printed.sink.held = sink.held ++ (before ++ bytes ++ after) ++ [newline]

theorem text_string {args : Arguments} {front : Bytes} (heven : Even (trailing front))
    {handle : StringHandle} (hslot : ((args.left front).slot? 0).map Argument.handle = some handle)
    (back : Bytes) :
    (expand args 0 (front ++ [percent, letterS] ++ back)).text =
      (expand args 0 front).text ++ handle.contents ++
        (expand (args.left (front ++ [percent, letterS])) 0 back).text := by
  -- the format is cut behind the directive, and what is in front of that before it
  have hcut : Even (trailing (front ++ [percent, letterS])) :=
    (even_trailing_append heven _).mpr (by decide)
  have hstring : (expand (args.left front) 0 [percent, letterS]).text = handle.contents := by
    obtain ⟨a, ha, rfl⟩ := Option.map_eq_some_iff.mp hslot
    have hletter : letter? letterS = some .string := rfl
    rw [expand_filled hletter ha]
    exact List.append_nil _
  rw [(concatenates hcut args back).text, (concatenates heven args _).text, hstring]

/-- A handle prints the bytes that it reads as, whatever the format around it. -/
theorem prints_contents (handle : StringHandle) : PrintsAs handle handle.contents := by
  intro sink front back args heven hslot before after printed accepting
  have htext : (expand args 0 (front ++ [percent, letterS] ++ back)).text =
      before ++ handle.contents ++ after := text_string heven hslot back
  have hlength : (before ++ handle.contents ++ after).length =
      before.length + handle.contents.length + after.length := by
    rw [List.length_append, List.length_append]
  rw [← hlength, ← htext] at accepting ⊢
  exact writeUnchecked_of_accepts accepting

end Print

namespace StringHandle

/-- **The size queries of a handle answer for its bytes, unless it is hollow.** Of a handle whose
length goes no further than the bytes: its size is the number of bytes that are read and it is
empty iff none are, unless a null pointer has a positive length; then nothing is read, and both
queries say otherwise. A handle that is made over bytes reads back as them, its size is their
number, and they are what it prints. -/
theorem sizes_agree_iff (h : StringHandle) (within : h.length ≤ h.bytes.length) :
    (h.Agrees ↔ ¬ h.Hollow) ∧
      (h.Hollow → h.contents = [] ∧ 0 < h.len ∧ h.isEmpty = false) ∧
      ∀ bytes, Made bytes h →
        h.Agrees ∧ h.contents = bytes ∧ h.len = bytes.length ∧ Print.PrintsAs h bytes := by
  refine ⟨agrees_iff within, Hollow.parts, fun bytes made => ?_⟩
  obtain rfl := made.eq_ofBytes
  have hread : (ofBytes bytes).contents = bytes := contents_ofBytes bytes
  have hlen : (ofBytes bytes).len = bytes.length := len_ofBytes bytes
  have hprints := Print.prints_contents (ofBytes bytes)
  rw [hread] at hprints
  exact ⟨agrees_iff_len.mpr (by rw [hread, hlen]), hread, hlen, hprints⟩

/-- Two of three bytes, the lowest length there can be with a null pointer, a length of one with a
null pointer, and `%%%s|` with a handle made over a text, into a sink that takes it byte by byte. -/
theorem sizes_agree_iff_edges :
    let cut : StringHandle := ⟨[104, 195, 169], 2, false⟩
    let lowest : StringHandle := ⟨[97], -9223372036854775808, true⟩
    let hollow : StringHandle := ⟨[97, 98], 1, true⟩
    let made : StringHandle := .ofText ['%', 'é']
    let args : Print.Arguments := ⟨some [.text made, .integer 0], 2⟩
    let sink : Sink := { limit := some 6, chunk := some 1, interruptions := 2 }
    (cut.length ≤ cut.bytes.length ∧ cut.Agrees ∧ cut.len = 2) ∧
      (lowest.length ≤ lowest.bytes.length ∧ lowest.Agrees ∧ lowest.len = 0) ∧
      (hollow.length ≤ hollow.bytes.length ∧ hollow.Hollow ∧ hollow.contents = [] ∧
        0 < hollow.len) ∧
      (made.length ≤ made.bytes.length ∧ Made [37, 195, 169] made ∧ made.len = 3) ∧
      (Print.writeUnchecked sink [37, 37, 37, 115, 124] args).answer = .ok (1 + 3 + 1) ∧
      (Print.writeUnchecked sink [37, 37, 37, 115, 124] args).sink.held =
        [37, 37, 195, 169, 124, 10] := by
  intro cut lowest hollow made args sink
  have hcut : cut.length ≤ cut.bytes.length := by decide
  have hlowest : lowest.length ≤ lowest.bytes.length := by decide
  have hwithin : hollow.length ≤ hollow.bytes.length := by decide
  have hmade : made.length ≤ made.bytes.length := by decide
  have hhollow : hollow.Hollow := by decide
  have hover : Made [37, 195, 169] made := .ofText ['%', 'é']
  obtain ⟨hread, hpos, -⟩ := (sizes_agree_iff hollow hwithin).2.1 hhollow
  obtain ⟨-, -, hlen, hprints⟩ := (sizes_agree_iff made hmade).2.2 _ hover
  have haccepts : sink.Accepts (1 + 3 + 1 + 1) :=
    ⟨by simp [sink, Sink.Progresses], by simp [sink], rfl⟩
  obtain ⟨hanswer, hheld⟩ := hprints sink [37, 37] [124] args (by decide) rfl haccepts
  exact ⟨⟨hcut, (sizes_agree_iff cut hcut).1.mpr (by decide), by decide⟩,
    ⟨hlowest, (sizes_agree_iff lowest hlowest).1.mpr (by decide), by decide⟩,
    ⟨hwithin, hhollow, hread, hpos⟩, ⟨hmade, hover, hlen⟩, hanswer, hheld⟩

/-- A hollow handle has a size and no bytes: three bytes and a length of three, and the pointer
null. -/
theorem sizes_not_agree :
    ¬ ∀ h : StringHandle, h.length ≤ h.bytes.length →
      h.len = h.contents.length ∧ (h.isEmpty = true ↔ h.contents = []) := by
  intro agree
  obtain ⟨hlen, -⟩ := agree ⟨[97, 98, 99], 3, true⟩ (by decide)
  exact absurd hlen (by decide)

end StringHandle

end SupportLayer
