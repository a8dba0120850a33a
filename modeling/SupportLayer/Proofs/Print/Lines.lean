/-
# A line is printed whole or cut off at the limit

Both conventions hand a text with its newline to a sink and flush it. The sink's limit alone
decides what it gains: the whole line if the line fits, and then it is flushed once; else the
bytes up to the limit, and it is not flushed. Chunks and interruptions make the loop of calls
longer, but they show neither in the answer nor in what the sink holds.

Key definitions: `Sink.Admits`, `Sink.Alike`, `Print.closed`, `Print.AllOrPrefix`.
Key theorems: `Print.writeLine_of_admits`, `Print.writeLine_of_not_admits`,
`Print.writeLine_allOrPrefix`, `Print.writeLine_alike`, `Print.lines_allOrPrefix`.
-/
import Mathlib
import SupportLayer.Print.Template
import SupportLayer.Proofs.Sink

namespace SupportLayer

namespace Sink

/-- The limit leaves room for `n` more bytes. -/
def Admits (s : Sink) (n : ℕ) : Prop := ∀ l ∈ s.limit, s.held.length + n ≤ l

/-- The sinks differ in chunks and interruptions only. -/
structure Alike (s s' : Sink) : Prop where
  limit : s.limit = s'.limit
  refusal : s.refusal = s'.refusal
  flushRefusal : s.flushRefusal = s'.flushRefusal
  held : s.held = s'.held
  flushes : s.flushes = s'.flushes

theorem admitted_of_limit {s : Sink} {l : ℕ} (h : s.limit = some l) (bytes : Bytes) :
    s.admitted bytes = bytes.take (l - s.held.length) := by
  unfold admitted
  rw [h]

theorem admitted_eq_iff {s : Sink} {bytes : Bytes} (hb : bytes ≠ []) :
    s.admitted bytes = bytes ↔ s.Admits bytes.length := by
  have hpos : 0 < bytes.length := List.length_pos_iff.mpr hb
  unfold Admits
  cases hl : s.limit with
  | none => simp [admitted, hl]
  | some l =>
    rw [admitted_of_limit hl, List.take_eq_self_iff]
    constructor
    · intro h l' hl'
      cases hl'
      omega
    · intro h
      have := h l rfl
      omega

theorem Alike.admitted {s s' : Sink} (h : s.Alike s') (bytes : Bytes) :
    s.admitted bytes = s'.admitted bytes := by
  unfold Sink.admitted
  rw [h.limit, h.held]

theorem Alike.refusalCause {s s' : Sink} (h : s.Alike s') : s.refusalCause = s'.refusalCause :=
  congrArg (·.getD .nothingTaken) h.refusal

end Sink

namespace Print

/-- What a print answers once the loop of its calls has ended: the sink is flushed if all was
written. -/
def closed (text : Bytes) : Except StreamError Unit × Sink → Except StreamError ℕ × Sink
  | (.ok (), s) =>
    match s.flush with
    | (.ok (), s') => (.ok text.length, s')
    | (.error cause, s') => (.error cause, s')
  | (.error cause, s) => (.error cause, s)

theorem writeLine_closed (sink : Sink) (text : Bytes) :
    writeLine sink text = closed text (sink.writeAll (text ++ [newline])) := by
  unfold writeLine closed Sink.deliver Sink.writePieces
  rcases sink.writeAll (text ++ [newline]) with ⟨_ | _, s⟩
  · rfl
  · rcases hflush : s.flush with ⟨_ | _, s'⟩ <;> simp only [Sink.writePieces, hflush]

theorem writeLine_of_admits {sink : Sink} (hp : sink.Progresses) {text : Bytes}
    (h : sink.Admits (text.length + 1)) :
    writeLine sink text =
      (match sink.flushRefusal with
        | some cause => .error cause
        | none => .ok text.length,
        { sink with
          held := sink.held ++ (text ++ [newline])
          interruptions := 0
          flushes := sink.flushes + 1 }) := by
  have hline : text ++ [newline] ≠ [] := by simp
  have ha := (Sink.admitted_eq_iff hline).mpr (by simpa using h)
  rw [writeLine_closed, Sink.writeAll_eq sink _ hp, if_neg hline, if_pos ha, ha]
  unfold closed Sink.flush
  cases sink.flushRefusal <;> rfl

theorem writeLine_of_not_admits {sink : Sink} (hp : sink.Progresses) {text : Bytes}
    (h : ¬ sink.Admits (text.length + 1)) :
    writeLine sink text =
      (.error sink.refusalCause,
        { sink with
          held := sink.held ++ sink.admitted (text ++ [newline])
          interruptions := 0 }) := by
  have hline : text ++ [newline] ≠ [] := by simp
  have ha := mt (Sink.admitted_eq_iff hline).mp (by simpa using h)
  rw [writeLine_closed, Sink.writeAll_eq sink _ hp, if_neg hline, if_neg ha]
  rfl

/-- A line is written whole and flushed once, or cut off at the limit and not flushed. -/
structure AllOrPrefix (sink : Sink) (text : Bytes) (answer : Except StreamError ℕ) (after : Sink) :
    Prop where
  /-- The loop of calls ends, and the answer is drawn from how it ends. -/
  ends : ∃ calls ended, calls ≤ text.length + 1 + sink.interruptions ∧
    sink.Calls (text ++ [newline]) calls ended ∧ closed text ended = (answer, after)
  succeeds_iff : (∃ count, answer = .ok count) ↔
    sink.Admits (text.length + 1) ∧ sink.flushRefusal = none
  whole : ∀ count, answer = .ok count →
    after.held = sink.held ++ (text ++ [newline]) ∧
      after.held.length - sink.held.length = count + 1 ∧ after.flushes = sink.flushes + 1
  cut : ∀ l, sink.limit = some l → l < sink.held.length + (text.length + 1) →
    answer = .error sink.refusalCause ∧
      after.held = sink.held ++ (text ++ [newline]).take (l - sink.held.length) ∧
      after.flushes = sink.flushes
  unflushed : ∀ cause, sink.Admits (text.length + 1) → sink.flushRefusal = some cause →
    answer = .error cause ∧ after.held = sink.held ++ (text ++ [newline]) ∧
      after.flushes = sink.flushes + 1

/-- A line is printed whole or cut off at the limit. -/
theorem writeLine_allOrPrefix {sink : Sink} (hp : sink.Progresses) (hf : sink.Final)
    (text : Bytes) :
    AllOrPrefix sink text (writeLine sink text).1 (writeLine sink text).2 := by
  refine ⟨?_, ?_, ?_, ?_, ?_⟩
  · obtain ⟨calls, hle, hc⟩ := sink.calls_writeAll (text ++ [newline]) hf
    refine ⟨calls, _, ?_, hc, (writeLine_closed sink text).symm⟩
    simpa using hle
  · by_cases h : sink.Admits (text.length + 1)
    · rw [writeLine_of_admits hp h]
      cases sink.flushRefusal <;> simp [h]
    · rw [writeLine_of_not_admits hp h]
      simp [h]
  · intro count hok
    by_cases h : sink.Admits (text.length + 1)
    · rw [writeLine_of_admits hp h] at hok ⊢
      cases hr : sink.flushRefusal with
      | some cause => simp [hr] at hok
      | none =>
        simp only [hr, Except.ok.injEq] at hok
        simp [hok]
    · rw [writeLine_of_not_admits hp h] at hok
      simp at hok
  · intro l hl hlt
    have h : ¬ sink.Admits (text.length + 1) := fun h => by
      have := h l hl
      omega
    rw [writeLine_of_not_admits hp h, Sink.admitted_of_limit hl]
    exact ⟨rfl, rfl, rfl⟩
  · intro cause h hr
    rw [writeLine_of_admits hp h, hr]
    exact ⟨rfl, rfl, rfl⟩

theorem writeLine_alike {s s' : Sink} (h : s.Alike s') (hp : s.Progresses) (hp' : s'.Progresses)
    (text : Bytes) :
    (writeLine s text).1 = (writeLine s' text).1 ∧
      (writeLine s text).2.Alike (writeLine s' text).2 := by
  have hadm : s.Admits (text.length + 1) ↔ s'.Admits (text.length + 1) := by
    unfold Sink.Admits
    rw [h.limit, h.held]
  by_cases ha : s.Admits (text.length + 1)
  · rw [writeLine_of_admits hp ha, writeLine_of_admits hp' (hadm.mp ha)]
    refine ⟨?_, h.limit, h.refusal, h.flushRefusal, congrArg (· ++ _) h.held,
      congrArg (· + 1) h.flushes⟩
    simp only [h.flushRefusal]
  · rw [writeLine_of_not_admits hp ha, writeLine_of_not_admits hp' (mt hadm.mpr ha), h.admitted,
      h.refusalCause]
    exact ⟨rfl, h.limit, h.refusal, h.flushRefusal, congrArg (· ++ _) h.held, h.flushes⟩

/-- **Both conventions print all or a prefix.** Whatever the format or the template, the line
of its text is written whole or cut off at the limit, and a sink that differs in chunks and
interruptions only makes no difference. -/
theorem lines_allOrPrefix (sink : Sink) (hp : sink.Progresses) (hf : sink.Final) :
    (∀ format args, AllOrPrefix sink (expand args 0 format).text
      (writeUnchecked sink format args).answer (writeUnchecked sink format args).sink) ∧
    (∀ text, ∃ answer, (writeChecked sink text).1 = faultOf answer ∧
      AllOrPrefix sink (Utf8.encode text) answer (writeChecked sink text).2) ∧
    ∀ sink' : Sink, sink.Alike sink' → sink'.Progresses →
      (∀ format args,
        (writeUnchecked sink format args).answer = (writeUnchecked sink' format args).answer ∧
        (writeUnchecked sink format args).log = (writeUnchecked sink' format args).log ∧
        (writeUnchecked sink format args).sink.Alike (writeUnchecked sink' format args).sink) ∧
      ∀ text, (writeChecked sink text).1 = (writeChecked sink' text).1 ∧
        (writeChecked sink text).2.Alike (writeChecked sink' text).2 := by
  refine ⟨fun format args => writeLine_allOrPrefix hp hf _,
    fun text => ⟨_, rfl, writeLine_allOrPrefix hp hf _⟩, fun sink' h hp' => ⟨?_, ?_⟩⟩
  · intro format args
    obtain ⟨hanswer, halike⟩ := writeLine_alike h hp hp' (expand args 0 format).text
    exact ⟨hanswer, rfl, halike⟩
  · intro text
    obtain ⟨hanswer, halike⟩ := writeLine_alike h hp hp' (Utf8.encode text)
    exact ⟨congrArg faultOf hanswer, halike⟩

/-- `hello` into a full device that had room for four bytes, three a call, after two interrupted
calls. -/
theorem lines_allOrPrefix_full :
    let sink : Sink :=
      { limit := some 4, chunk := some 3, interruptions := 2, refusal := some .deviceFull }
    let unchecked := writeUnchecked sink (Utf8.encode "hello".toList) ⟨none, 0⟩
    let checked := writeChecked sink "hello".toList
    sink.Progresses ∧ sink.Final ∧
      unchecked.answer = .error .deviceFull ∧ unchecked.sink.held = Utf8.encode "hell".toList ∧
      unchecked.sink.flushes = 0 ∧
      checked.1 = .error (.writeFailure .deviceFull) ∧
      checked.2.held = Utf8.encode "hell".toList ∧ checked.2.flushes = 0 := by
  intro sink unchecked checked
  have hp : sink.Progresses := by simp [sink, Sink.Progresses]
  have hf : sink.Final := by
    rintro cause ⟨⟩
    decide
  obtain ⟨hunchecked, hchecked, -⟩ := lines_allOrPrefix sink hp hf
  obtain ⟨a1, a2, a3⟩ := (hunchecked (Utf8.encode "hello".toList) ⟨none, 0⟩).cut 4 rfl (by decide)
  obtain ⟨answer, hanswer, hfate⟩ := hchecked "hello".toList
  obtain ⟨b1, b2, b3⟩ := hfate.cut 4 rfl (by decide)
  exact ⟨hp, hf, a1, a2.trans (by decide), a3, hanswer.trans (by rw [b1]; rfl),
    b2.trans (by decide), b3⟩

end Print

end SupportLayer
