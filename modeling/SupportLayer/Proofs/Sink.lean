/-
# What a sink takes of a text

`writeAll` makes progress with every call that is not interrupted, as long as a call may take
a byte at all. So the chunks and the interruptions do not show in the end: the sink has gained
the bytes that its limit admits, a prefix of those offered, and the write succeeds iff that is
all of them. A sink that admits a text and flushes takes the line of the text whole.

`writeAll` is a loop of calls (`Sink.Calls`): one that takes something is followed by one for
the rest, one that is interrupted is made again, and one that takes nothing or is refused ends
the loop. If no refusal passes itself off as an interruption, the loop ends.

Key definitions: `Sink.Progresses`, `Sink.admitted`, `Sink.Accepts`, `Sink.call`, `Sink.Calls`.
Key theorems: `Sink.writeAll_eq`, `Sink.calls_writeAll`, `Print.writeLine_of_accepts`.
-/
import Mathlib
import SupportLayer.Print.Directive

namespace SupportLayer

namespace Sink

/-- A call may take a byte. -/
def Progresses (s : Sink) : Prop := s.chunk ≠ some 0

/-- The bytes that the limit admits of those offered. -/
def admitted (s : Sink) (bytes : Bytes) : Bytes :=
  match s.limit with
  | some l => bytes.take (l - s.held.length)
  | none => bytes

/-- The sink takes `n` more bytes and then flushes. -/
structure Accepts (s : Sink) (n : Nat) : Prop where
  progresses : s.Progresses
  fits : ∀ l, s.limit = some l → s.held.length + n ≤ l
  flushes : s.flushRefusal = none

theorem Accepts.mono {s : Sink} {m n : Nat} (h : s.Accepts n) (hle : m ≤ n) : s.Accepts m where
  progresses := h.progresses
  fits := fun l hl => by
    have := h.fits l hl
    omega
  flushes := h.flushes

@[simp] theorem admitted_nil (s : Sink) : s.admitted [] = [] := by
  unfold admitted; split <;> simp

@[simp] theorem admitted_interrupt (s : Sink) (bytes : Bytes) :
    s.interrupt.admitted bytes = s.admitted bytes := rfl

theorem admitted_of_accepts {s : Sink} {bytes : Bytes} (h : s.Accepts bytes.length) :
    s.admitted bytes = bytes := by
  unfold admitted
  cases hl : s.limit with
  | none => rfl
  | some l =>
    have := h.fits l hl
    exact List.take_of_length_le (by omega)

/-- A call of a sink that progresses takes nothing of an offer only if the limit admits
nothing of it. -/
theorem admitted_eq_nil_of_room {s : Sink} {bytes : Bytes} (hp : s.Progresses) (hb : bytes ≠ [])
    (h : s.room bytes.length = 0) : s.admitted bytes = [] := by
  have hpos : 0 < bytes.length := List.length_pos_iff.mpr hb
  have hc : ∀ c, s.chunk = some c → 0 < c := fun c h0 =>
    Nat.pos_of_ne_zero fun hz => hp (by rw [h0, hz])
  unfold room at h
  unfold admitted
  cases hl : s.limit with
  | none =>
    rw [hl] at h
    cases hs : s.chunk with
    | none => rw [hs] at h; simp only at h; omega
    | some c => rw [hs] at h; have := hc c hs; simp only at h; omega
  | some l =>
    rw [hl] at h
    have : l - s.held.length = 0 := by
      cases hs : s.chunk with
      | none => rw [hs] at h; simp only at h; omega
      | some c => rw [hs] at h; have := hc c hs; simp only at h; omega
    simp [this]

/-- What one call takes, and what the limit admits of the rest after it. -/
theorem take_admitted (s : Sink) (bytes : Bytes) :
    bytes.take (s.room bytes.length) ++
      (s.take (bytes.take (s.room bytes.length))).admitted (bytes.drop (s.room bytes.length)) =
      s.admitted bytes := by
  have hroom := s.room_le bytes.length
  unfold admitted
  simp only [take, List.length_append, List.length_take, Nat.min_eq_left hroom]
  cases hl : s.limit with
  | none => exact List.take_append_drop _ _
  | some l =>
    have hle : s.room bytes.length ≤ l - s.held.length := by
      unfold room; rw [hl]; exact Nat.min_le_right _ _
    have hsum : l - s.held.length = s.room bytes.length + (l - (s.held.length + s.room bytes.length)) := by
      omega
    simp only
    conv_rhs => rw [hsum, List.take_add]

/-- A write leaves what the limit admits. Neither the chunks nor the interruptions show,
except that the interruptions are over. -/
theorem writeAll_eq (s : Sink) (bytes : Bytes) (hp : s.Progresses) :
    s.writeAll bytes =
      (if s.admitted bytes = bytes then .ok () else .error s.refusalCause,
        { s with
          held := s.held ++ s.admitted bytes
          interruptions := if bytes = [] then s.interruptions else 0 }) := by
  fun_induction writeAll s bytes with
  | case1 s => simp
  | case2 s bytes hb hi ih =>
    rw [ih hp, admitted_interrupt, if_neg hb, if_neg hb]
    rfl
  | case3 s bytes hb hi hr =>
    rw [admitted_eq_nil_of_room hp hb hr, if_neg (Ne.symm hb), if_neg hb, List.append_nil,
      ← Nat.eq_zero_of_not_pos hi]
  | case4 s bytes hb hi hr ih =>
    rw [ih hp]
    have hadm := s.take_admitted bytes
    set n := s.room bytes.length with hn
    have hok : (s.take (bytes.take n)).admitted (bytes.drop n) = bytes.drop n ↔
        s.admitted bytes = bytes := by
      rw [← hadm]
      constructor
      · intro h; rw [h, List.take_append_drop]
      · intro h; exact List.append_cancel_left (h.trans (List.take_append_drop n bytes).symm)
    have hcause : (s.take (bytes.take n)).refusalCause = s.refusalCause := rfl
    have hint : (s.take (bytes.take n)).interruptions = 0 := Nat.eq_zero_of_not_pos hi
    simp only [hok, hcause, hint, ite_self, if_neg hb]
    simp only [take, List.append_assoc, ← hadm]

theorem writeAll_of_accepts {s : Sink} {bytes : Bytes} (hb : bytes ≠ [])
    (h : s.Accepts bytes.length) :
    s.writeAll bytes = (.ok (), { s with held := s.held ++ bytes, interruptions := 0 }) := by
  rw [writeAll_eq s bytes h.progresses, admitted_of_accepts h, if_pos rfl, if_neg hb]

/-- A write that succeeds has left all bytes in the sink, whatever the sink does. -/
theorem held_of_writeAll {s s' : Sink} {bytes : Bytes} (h : s.writeAll bytes = (.ok (), s')) :
    s'.held = s.held ++ bytes := by
  fun_induction writeAll s bytes with
  | case1 s =>
    cases h
    exact (List.append_nil _).symm
  | case2 s bytes hb hi ih => exact ih h
  | case3 s bytes hb hi hr => cases h
  | case4 s bytes hb hi hr ih =>
    rw [ih h, take, List.append_assoc, List.take_append_drop]

/-! ### Call by call -/

/-- A refusal is no interruption, so it ends the loop. -/
def Final (s : Sink) : Prop := ∀ cause ∈ s.refusal, cause.kind ≠ .interrupted

/-- One call: how many of the bytes offered it takes, or why it fails, and the sink behind it. -/
def call (s : Sink) (bytes : Bytes) : Except StreamError ℕ × Sink :=
  if 0 < s.interruptions then (.error (.bare .interrupted), s.interrupt)
  else if s.room bytes.length = 0 then
    match s.refusal with
    | some cause => (.error cause, s)
    | none => (.ok 0, s)
  else (.ok (s.room bytes.length), s.take (bytes.take (s.room bytes.length)))

/-- The loop of calls: how many it makes until all bytes are taken or a call fails for good, and
how it ends. -/
inductive Calls : Sink → Bytes → ℕ → Except StreamError Unit × Sink → Prop
  | done (s : Sink) : Calls s [] 0 (.ok (), s)
  | took {s s' : Sink} {bytes : Bytes} {n calls : ℕ} {ended : Except StreamError Unit × Sink} :
    bytes ≠ [] → s.call bytes = (.ok n, s') → 0 < n → Calls s' (bytes.drop n) calls ended →
      Calls s bytes (calls + 1) ended
  | tookNothing {s s' : Sink} {bytes : Bytes} :
    bytes ≠ [] → s.call bytes = (.ok 0, s') → Calls s bytes 1 (.error .nothingTaken, s')
  | interrupted {s s' : Sink} {bytes : Bytes} {cause : StreamError} {calls : ℕ}
    {ended : Except StreamError Unit × Sink} :
    bytes ≠ [] → s.call bytes = (.error cause, s') → cause.kind = .interrupted →
      Calls s' bytes calls ended → Calls s bytes (calls + 1) ended
  | refused {s s' : Sink} {bytes : Bytes} {cause : StreamError} :
    bytes ≠ [] → s.call bytes = (.error cause, s') → cause.kind ≠ .interrupted →
      Calls s bytes 1 (.error cause, s')

theorem Calls.unique {s : Sink} {bytes : Bytes} {calls calls' : ℕ}
    {ended ended' : Except StreamError Unit × Sink} (h : s.Calls bytes calls ended)
    (h' : s.Calls bytes calls' ended') : calls = calls' ∧ ended = ended' := by
  induction h generalizing calls' ended' with
  | done s => cases h' <;> simp_all
  | took hb hc hn _ ih =>
    cases h' with
    | took _ hc' _ rest =>
      rw [hc] at hc'
      cases hc'
      exact (ih rest).imp_left (congrArg (· + 1))
    | _ => simp_all
  | tookNothing hb hc => cases h' <;> simp_all
  | interrupted hb hc hk _ ih =>
    cases h' with
    | interrupted _ hc' _ rest =>
      rw [hc] at hc'
      cases hc'
      exact (ih rest).imp_left (congrArg (· + 1))
    | _ => simp_all
  | refused hb hc hk => cases h' <;> simp_all

/-- The loop ends. It makes no more calls than there are bytes to write and interruptions to
come, and ends as `writeAll` does. -/
theorem calls_writeAll (s : Sink) (bytes : Bytes) (hf : s.Final) :
    ∃ calls ≤ bytes.length + s.interruptions, s.Calls bytes calls (s.writeAll bytes) := by
  fun_induction writeAll s bytes with
  | case1 s => exact ⟨0, Nat.zero_le _, .done s⟩
  | case2 s bytes hb hi ih =>
    obtain ⟨calls, hle, hc⟩ := ih hf
    refine ⟨calls + 1, ?_, .interrupted hb (by rw [call, if_pos hi]) rfl hc⟩
    simp only [interrupt] at hle
    omega
  | case3 s bytes hb hi hr =>
    have hpos : 0 < bytes.length := List.length_pos_iff.mpr hb
    refine ⟨1, by omega, ?_⟩
    unfold refusalCause
    cases hs : s.refusal with
    | none => exact .tookNothing hb (by rw [call, if_neg hi, if_pos hr, hs])
    | some cause =>
      have hc : s.call bytes = (.error cause, s) := by rw [call, if_neg hi, if_pos hr, hs]
      exact .refused hb hc (hf cause hs)
  | case4 s bytes hb hi hr ih =>
    obtain ⟨calls, hle, hc⟩ := ih hf
    have hroom := s.room_le bytes.length
    refine ⟨calls + 1, ?_, .took hb (by rw [call, if_neg hi, if_neg hr]) (Nat.pos_of_ne_zero hr) hc⟩
    simp only [take, List.length_drop] at hle
    omega

end Sink

namespace Print

/-- A sink that accepts the line of a text takes it whole and is flushed once. -/
theorem writeLine_of_accepts {s : Sink} {text : Bytes} (h : s.Accepts (text.length + 1)) :
    writeLine s text = (.ok text.length,
      { s with held := s.held ++ text ++ [newline], interruptions := 0, flushes := s.flushes + 1 }) := by
  have hline : s.Accepts (text ++ [newline]).length := by simpa using h
  have hw := Sink.writeAll_of_accepts (by simp) hline
  unfold writeLine Sink.deliver
  simp only [Sink.writePieces, hw, Sink.flush, h.flushes, List.append_assoc]

/-- A line that was written is in the sink, and the answer is its length without the newline. -/
theorem gained_of_writeLine {s : Sink} {text : Bytes} {count : ℕ}
    (h : (writeLine s text).1 = .ok count) :
    count = text.length ∧ (writeLine s text).2.held = s.held ++ text ++ [newline] := by
  unfold writeLine Sink.deliver at h ⊢
  simp only [Sink.writePieces] at h ⊢
  cases hw : s.writeAll (text ++ [newline]) with
  | mk result after =>
    cases result with
    | error cause => simp [hw] at h
    | ok written =>
      have hheld := Sink.held_of_writeAll hw
      cases hf : after.flushRefusal with
      | some cause => simp [hw, Sink.flush, hf] at h
      | none => simp_all [Sink.flush]

/-- A sink that accepts the line of a format gains its text and a newline, and the answer is the
length without it. -/
theorem writeUnchecked_of_accepts {s : Sink} {format : Bytes} {args : Arguments}
    (h : s.Accepts ((expand args 0 format).text.length + 1)) :
    (writeUnchecked s format args).answer = .ok (expand args 0 format).text.length ∧
      (writeUnchecked s format args).sink.held =
        s.held ++ (expand args 0 format).text ++ [newline] := by
  simp only [writeUnchecked, writeLine_of_accepts h, and_self]

end Print

end SupportLayer
