/-
# Piece by piece is as good as at once

A sequence goes to its sink in pieces, some of them empty, each by a loop of calls of its own. What
a sink admits of a text behind another is what it admits of it once it has taken the other, so two
writes leave what one write of both texts would (`Sink.writeAll_append`): the chunks are cut in
other places, but they do not show. A piece that is cut off ends the rest, and the reason that the
stream kept for it is the one that the single write gives.

Key definitions: `Sink.Sends`, `Sink.flushed`.
Key theorems: `Sink.writeAll_append`, `Sink.sends_iff`, `Stream.puts_eq_put`,
`Sequence.writeTo_as_one`.
-/
import Mathlib
import SupportLayer.Sequence.Text
import SupportLayer.Proofs.Print.Lines

namespace SupportLayer

namespace Sink

variable {s s' : Sink} {a b : Bytes}

/-! ### Two writes -/

theorem exists_limit_of_ne (h : s.admitted a ≠ a) :
    ∃ l, s.limit = some l ∧ l - s.held.length < a.length := by
  cases hl : s.limit with
  | none => exact absurd (by rw [admitted, hl]) h
  | some l =>
    rw [admitted_of_limit hl, ne_eq, List.take_eq_self_iff] at h
    exact ⟨l, rfl, by omega⟩

theorem admitted_append_of_ne (h : s.admitted a ≠ a) :
    s.admitted (a ++ b) = s.admitted a ∧ s.admitted (a ++ b) ≠ a ++ b := by
  obtain ⟨l, hl, hlt⟩ := exists_limit_of_ne h
  have heq : s.admitted (a ++ b) = s.admitted a := by
    rw [admitted_of_limit hl, admitted_of_limit hl, List.take_append_of_le_length hlt.le]
  refine ⟨heq, fun hall => ?_⟩
  have hlen := congrArg List.length (heq.symm.trans hall)
  rw [admitted_of_limit hl, List.length_take, List.length_append] at hlen
  omega

/-- Behind a text that is admitted, the sink admits what it does once it holds it. -/
theorem admitted_append_of_eq (h : s.admitted a = a) (hlimit : s'.limit = s.limit)
    (hheld : s'.held = s.held ++ a) : s.admitted (a ++ b) = a ++ s'.admitted b := by
  cases hl : s.limit with
  | none => simp [admitted, hlimit, hl]
  | some l =>
    rw [admitted_of_limit hl, List.take_eq_self_iff] at h
    rw [admitted_of_limit hl, admitted_of_limit (hlimit.trans hl), hheld, List.length_append,
      List.take_append, List.take_of_length_le h]
    congr 2
    omega

/-- A write of two texts is two writes, of which the second is made if the first went well. -/
theorem writeAll_append (hp : s.Progresses) (a b : Bytes) :
    s.writeAll (a ++ b) =
      (match s.writeAll a with
        | (.ok (), s') => s'.writeAll b
        | (.error cause, s') => (.error cause, s')) := by
  by_cases h : s.admitted a = a
  · set taken : Sink :=
      { s with held := s.held ++ a, interruptions := if a = [] then s.interruptions else 0 }
    have hfirst : s.writeAll a = (.ok (), taken) := by
      rw [writeAll_eq s a hp, if_pos h, h]
    have hadmitted : s.admitted (a ++ b) = a ++ taken.admitted b :=
      admitted_append_of_eq h rfl rfl
    have hsecond : taken.writeAll b = _ := writeAll_eq taken b hp
    simp only [hfirst, hsecond, writeAll_eq s (a ++ b) hp, hadmitted, List.append_cancel_left_eq,
      List.append_eq_nil_iff, taken, List.append_assoc, Prod.mk.injEq, Sink.mk.injEq, true_and,
      and_true]
    refine ⟨rfl, ?_⟩
    by_cases ha : a = [] <;> by_cases hb : b = [] <;> simp [ha, hb]
  · obtain ⟨hfront, hcut⟩ := admitted_append_of_ne (b := b) h
    have ha : a ≠ [] := fun ha => h (ha ▸ s.admitted_nil)
    have hab : a ++ b ≠ [] := List.append_ne_nil_of_left_ne_nil ha b
    rw [writeAll_eq s a hp, if_neg h, writeAll_eq s (a ++ b) hp, if_neg hcut, hfront, if_neg ha,
      if_neg hab]

/-- A write leaves a sink that behaves as before, with no interruptions to come if it wrote
anything. -/
theorem writeAll_leaves (hp : s.Progresses) {answer : Except StreamError Unit}
    (h : s.writeAll a = (answer, s')) :
    s'.chunk = s.chunk ∧ s'.refusal = s.refusal ∧
      s'.interruptions = if a = [] then s.interruptions else 0 := by
  rw [writeAll_eq s a hp, Prod.mk.injEq] at h
  obtain ⟨-, rfl⟩ := h
  exact ⟨rfl, rfl, rfl⟩

/-! ### Pieces, call by call -/

/-- The loops of calls for pieces, one after the other: how many calls they make until all pieces
are taken or a call fails for good, and how they end. -/
inductive Sends : Sink → List Bytes → ℕ → Except StreamError Unit × Sink → Prop
  | done (s : Sink) : Sends s [] 0 (.ok (), s)
  | sent {s s' : Sink} {piece : Bytes} {pieces : List Bytes} {calls more : ℕ}
    {ended : Except StreamError Unit × Sink} :
    s.Calls piece calls (.ok (), s') → Sends s' pieces more ended →
      Sends s (piece :: pieces) (calls + more) ended
  | failed {s s' : Sink} {piece : Bytes} {pieces : List Bytes} {calls : ℕ} {cause : StreamError} :
    s.Calls piece calls (.error cause, s') → Sends s (piece :: pieces) calls (.error cause, s')

theorem Sends.unique {s : Sink} {pieces : List Bytes} {calls calls' : ℕ}
    {ended ended' : Except StreamError Unit × Sink} (h : s.Sends pieces calls ended)
    (h' : s.Sends pieces calls' ended') : calls = calls' ∧ ended = ended' := by
  induction h generalizing calls' ended' with
  | done s =>
    cases h'
    exact ⟨rfl, rfl⟩
  | sent hpiece _ ih =>
    cases h' with
    | sent hpiece' hrest' =>
      obtain ⟨rfl, hended⟩ := hpiece.unique hpiece'
      cases hended
      exact (ih hrest').imp_left (congrArg _)
    | failed hpiece' => cases (hpiece.unique hpiece').2
  | failed hpiece =>
    cases h' with
    | sent hpiece' _ => cases (hpiece.unique hpiece').2
    | failed hpiece' => exact hpiece.unique hpiece'

/-- The loops for the pieces end as one write of all of them does, after no more calls than there
are bytes to write and interruptions to come. -/
theorem exists_sends (hp : s.Progresses) (hf : s.Final) (pieces : List Bytes) :
    ∃ calls ≤ pieces.flatten.length + s.interruptions,
      s.Sends pieces calls (s.writeAll pieces.flatten) := by
  induction pieces generalizing s with
  | nil => exact ⟨0, Nat.zero_le _, by simpa using .done s⟩
  | cons piece pieces ih =>
    obtain ⟨calls, hle, hcalls⟩ := s.calls_writeAll piece hf
    rw [List.flatten_cons, List.length_append, writeAll_append hp]
    rcases hpiece : s.writeAll piece with ⟨cause | ⟨⟩, s'⟩ <;> rw [hpiece] at hcalls
    · exact ⟨calls, by omega, .failed hcalls⟩
    · obtain ⟨hchunk, hrefusal, hinterruptions⟩ := writeAll_leaves hp hpiece
      have hp' : s'.Progresses := by rwa [Progresses, hchunk]
      have hf' : s'.Final := by rwa [Final, hrefusal]
      obtain ⟨more, hle', hmore⟩ := ih hp' hf'
      refine ⟨calls + more, ?_, .sent hcalls hmore⟩
      -- only a piece with something in it meets the interruptions
      by_cases hnil : piece = []
      · subst hnil
        obtain ⟨rfl, -⟩ := hcalls.unique (.done s)
        rw [if_pos rfl] at hinterruptions
        simpa [hinterruptions] using hle'
      · rw [if_neg hnil] at hinterruptions
        omega

/-- Pieces are sent in one way, and it ends as one write of all of them does. -/
theorem sends_iff (hp : s.Progresses) (hf : s.Final) (pieces : List Bytes) :
    ∃ calls ≤ pieces.flatten.length + s.interruptions, ∀ n ended,
      s.Sends pieces n ended ↔ n = calls ∧ ended = s.writeAll pieces.flatten := by
  obtain ⟨calls, hle, hsends⟩ := exists_sends hp hf pieces
  refine ⟨calls, hle, fun n ended => ⟨fun h => h.unique hsends, ?_⟩⟩
  rintro ⟨rfl, rfl⟩
  exact hsends

/-- A sink is flushed behind writes that went well. -/
def flushed : Except StreamError Unit × Sink → Except StreamError Unit × Sink
  | (.ok (), s) => s.flush
  | (.error cause, s) => (.error cause, s)

end Sink

theorem Stream.puts_eq_put {stream : Stream} (hp : stream.sink.Progresses)
    (pieces : List (List Char)) : stream.puts pieces = stream.put pieces.flatten := by
  induction pieces generalizing stream with
  | nil => simp [puts, put]
  | cons piece pieces ih =>
    rw [puts, List.flatten_cons, put, put, Utf8.encode_append, Sink.writeAll_append hp]
    rcases hpiece : stream.sink.writeAll (Utf8.encode piece) with ⟨cause | ⟨⟩, sink⟩
    · rfl
    · have hp' : sink.Progresses := by rwa [Sink.Progresses, (Sink.writeAll_leaves hp hpiece).1]
      have hrest : Stream.puts { stream with sink } pieces =
          Stream.put { stream with sink } pieces.flatten := ih hp'
      exact hrest

namespace Sequence

variable {α : Type} [Shown α]

/-- **A sequence is written piece by piece as its text is at once.** The loops of calls for the
pieces come to the end that the one loop for the whole text comes to, with the same bytes in the
sink and the same reason if it fails, and the sink is flushed if they went well. If the text does
not fit, the sink holds what its limit admits of it and is not flushed. -/
theorem writeTo_as_one (s : Sequence α) {sink : Sink} (hp : sink.Progresses) (hf : sink.Final) :
    let bytes := Utf8.encode s.display
    (∃ calls ≤ bytes.length + sink.interruptions, sink.Calls bytes calls (sink.writeAll bytes)) ∧
    (∃ calls ≤ bytes.length + sink.interruptions, ∀ n ended,
      sink.Sends (s.pieces.map Utf8.encode) n ended ↔ n = calls ∧ ended = sink.writeAll bytes) ∧
    s.writeTo sink = Sink.flushed (sink.writeAll bytes) ∧
    ∀ l, sink.limit = some l → l < sink.held.length + bytes.length →
      (s.writeTo sink).1 = .error sink.refusalCause ∧
        (s.writeTo sink).2.held = sink.held ++ bytes.take (l - sink.held.length) ∧
        (s.writeTo sink).2.flushes = sink.flushes := by
  intro bytes
  have hbytes : (s.pieces.map Utf8.encode).flatten = bytes := (Utf8.encode_flatten s.pieces).symm
  have hone : s.writeTo sink = Sink.flushed (sink.writeAll bytes) := by
    unfold writeTo
    have hputs : Stream.puts ⟨sink, .ok ()⟩ (Shown.pieces {} s) =
        Stream.put ⟨sink, .ok ()⟩ s.display := Stream.puts_eq_put hp _
    rw [hputs]
    unfold Stream.put
    simp only
    rcases sink.writeAll bytes with ⟨cause | ⟨⟩, sink'⟩ <;> rfl
  refine ⟨sink.calls_writeAll bytes hf, ?_, hone, ?_⟩
  · have hsends := Sink.sends_iff hp hf (s.pieces.map Utf8.encode)
    rwa [hbytes] at hsends
  · intro l hl hlt
    -- the text starts with a bracket, so it is cut off also where the sink is full already
    have hpos : 0 < bytes.length := List.length_pos_iff.mpr (List.cons_ne_nil 91 _)
    have hcut : sink.admitted bytes ≠ bytes := by
      rw [Sink.admitted_of_limit hl, ne_eq, List.take_eq_self_iff]
      omega
    rw [hone, Sink.writeAll_eq sink bytes hp, if_neg hcut, Sink.admitted_of_limit hl]
    exact ⟨rfl, rfl, rfl⟩

/-- A nest with an empty sequence in it, into a full device that had room for five bytes, two a
call, after three interrupted calls. -/
theorem writeTo_as_one_full :
    let s : Sequence (Sequence Int64) := .ofList [.ofList [1], .empty]
    let sink : Sink :=
      { limit := some 5, chunk := some 2, interruptions := 3, refusal := some .deviceFull }
    sink.Progresses ∧ sink.Final ∧ s.display = "[ [ 1 ], [ ] ]".toList ∧
      (s.writeTo sink).1 = .error .deviceFull ∧
      (s.writeTo sink).2.held = Utf8.encode "[ [ 1".toList ∧ (s.writeTo sink).2.flushes = 0 := by
  intro s sink
  have hp : sink.Progresses := by simp [sink, Sink.Progresses]
  have hf : sink.Final := by
    rintro cause ⟨⟩
    decide
  have htext : s.display = "[ [ 1 ], [ ] ]".toList := by cbv
  obtain ⟨-, -, -, hcut⟩ := writeTo_as_one s hp hf
  obtain ⟨hanswer, hheld, hflushes⟩ := hcut 5 rfl (by rw [htext]; decide)
  exact ⟨hp, hf, htext, hanswer, by rw [hheld, htext]; decide, hflushes⟩

end Sequence

end SupportLayer
