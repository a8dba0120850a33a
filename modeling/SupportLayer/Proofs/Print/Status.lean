/-
# What generated code hears of its line

The entry point of generated code reads its format through a handle, expands it, writes the line to
standard output and turns the outcome into one number: the bytes of the text, or the largest number
of 32 bits if there are more, or -1 for a failure. As the count is cut off and does not wrap
around, no text is long enough to be taken for a failure. A device that refuses the line gets
nothing of it, and the failure is logged once, behind what the format was warned of for.

Key definitions: `Sink.Refuses`.
Key theorems: `printStatus_eq_neg_one_iff`, `Print.writeLine_of_refuses`, `Print.println_returns`.
-/
import Mathlib
import SupportLayer.Proofs.Print.Lines
import SupportLayer.Proofs.Print.Tokens

namespace SupportLayer

/-- The number -1 stands for failures alone, however long the text. -/
theorem printStatus_eq_neg_one_iff {answer : Except Fault ℕ} :
    printStatus answer = -1 ↔ ∃ fault, answer = .error fault := by
  cases answer with
  | error fault => simp [printStatus]
  | ok count =>
    have hcount : printStatus (.ok count) = min (count : ℤ) 2147483647 := rfl
    simp only [reduceCtorEq, exists_false, iff_false]
    omega

namespace Sink

/-- No call takes a byte. -/
def Refuses (s : Sink) : Prop := ∀ offered, s.room offered = 0

/-- A sink that refuses is left as it was, but for the interruptions. -/
theorem writeAll_of_refuses {s : Sink} (h : s.Refuses) {bytes : Bytes} (hb : bytes ≠ []) :
    s.writeAll bytes = (.error s.refusalCause, { s with interruptions := 0 }) := by
  fun_induction writeAll s bytes with
  | case1 s => exact absurd rfl hb
  | case2 s bytes _ hi ih => exact ih h hb
  | case3 s bytes _ hi _ => rw [← Nat.eq_zero_of_not_pos hi]
  | case4 s bytes _ _ hr _ => exact absurd (h _) hr

end Sink

namespace Print

theorem writeLine_of_refuses {sink : Sink} (h : sink.Refuses) (text : Bytes) :
    writeLine sink text = (.error sink.refusalCause, { sink with interruptions := 0 }) := by
  rw [writeLine_closed, Sink.writeAll_of_refuses h (by simp)]
  rfl

theorem contents_eq (handle : StringHandle) :
    handle.contents =
      if handle.null ∨ handle.length ≤ 0 then [] else handle.bytes.take handle.length.toNat := by
  unfold StringHandle.contents
  cases handle.null <;> simp

/-- The number of times that a log reports a failed line. -/
def failures (log : List LogRecord) : ℕ :=
  log.countP fun record => record.message = "println failed"

theorem failures_warnings (warnings : List Warning) :
    failures (warnings.map Warning.record) = 0 := by
  rw [failures, List.countP_eq_zero]
  rintro record hrecord
  obtain ⟨w, -, rfl⟩ := List.mem_map.mp hrecord
  cases w <;> simp [Warning.record, LogRecord.message]

/-- What the entry point does with the line of what the tokens of its format print. -/
theorem println_eq (stdout : Sink) (format : StringHandle) {args : Arguments} (hc : args.Covered) :
    println stdout format args =
      let ts := tokens format.contents
      let warnings := (ts.filterMap Token.warning?).map Warning.record
      match writeLine stdout (rendering args ts) with
      | (.ok count, after) => (printStatus (.ok count), after, warnings)
      | (.error cause, after) =>
        (printStatus (.error (.writeFailure cause)), after, warnings ++ [.printFailed cause]) := by
  have he := expand_tokens hc format.contents 0
  rw [Nat.zero_min, ← rendering_eq_from] at he
  simp only [println, printUnchecked, writeUnchecked, he]
  rcases writeLine stdout (rendering args (tokens format.contents)) with
    ⟨cause | count, after⟩ <;> rfl

/-- **What `println` returns.** Through a null pointer or with a length that is not positive, the
format is empty. If standard output takes the line, it gains what the format's tokens print and a
newline, and the number returned counts the bytes without the newline, up to the largest number of
32 bits. If it refuses the line, it gains nothing, the number is -1, and the failure is logged once,
behind the warnings. So the number is -1 iff the write failed. -/
theorem println_returns (stdout : Sink) (format : StringHandle) {args : Arguments}
    (hc : args.Covered) :
    let read :=
      if format.null ∨ format.length ≤ 0 then [] else format.bytes.take format.length.toNat
    let text := rendering args (tokens read)
    let warnings := ((tokens read).filterMap Token.warning?).map Warning.record
    let value := (println stdout format args).1
    let after := (println stdout format args).2.1
    let log := (println stdout format args).2.2
    (stdout.Accepts (text.length + 1) →
      after.held = stdout.held ++ (text ++ [newline]) ∧
        value = min ((after.held.length - stdout.held.length - 1 : ℕ) : ℤ) 2147483647 ∧
        0 ≤ value ∧ log = warnings ∧ failures log = 0) ∧
      (stdout.Refuses →
        value = -1 ∧ after.held = stdout.held ∧
          log = warnings ++ [.printFailed stdout.refusalCause] ∧ failures log = 1) ∧
      (value = -1 ↔ ∃ cause, (writeLine stdout text).1 = .error cause) := by
  intro read text warnings value after log
  have hprintln : println stdout format args =
      (match writeLine stdout text with
        | (.ok count, after) => (printStatus (.ok count), after, warnings)
        | (.error cause, after) =>
          (printStatus (.error (.writeFailure cause)), after, warnings ++ [.printFailed cause])) := by
    have h := println_eq stdout format hc
    rwa [contents_eq format] at h
  have hquiet : failures warnings = 0 := failures_warnings _
  refine ⟨fun haccepts => ?accepted, fun hrefuses => ?refused, ?failed⟩
  case accepted =>
    rw [writeLine_of_accepts haccepts] at hprintln
    have hstatus : printStatus (.ok text.length) = min (text.length : ℤ) 2147483647 := rfl
    simp only [value, after, log, hprintln, hstatus, List.append_assoc, List.length_append,
      List.length_singleton]
    refine ⟨trivial, ?_, by omega, trivial, hquiet⟩
    congr 2
    omega
  case refused =>
    rw [writeLine_of_refuses hrefuses text] at hprintln
    have hfailures : failures (warnings ++ [.printFailed stdout.refusalCause]) = 1 := by
      rw [failures, List.countP_append, ← failures, hquiet]
      rfl
    simp only [value, after, log, hprintln]
    exact ⟨rfl, trivial, trivial, hfailures⟩
  case failed =>
    simp only [value, hprintln]
    rcases writeLine stdout text with ⟨cause | count, after⟩ <;>
      simp [printStatus_eq_neg_one_iff]

/-- `%s%` with 2147483648 letters, more than are counted, and then on a full device. -/
theorem println_returns_long :
    let letters : Bytes := List.replicate 2147483648 65
    let args : Arguments := ⟨some [.text (.ofBytes letters)], 1⟩
    let format : StringHandle := ⟨[37, 115, 37], 3, false⟩
    args.Covered ∧ Sink.Accepts {} (letters.length + 1) ∧ Sink.full.Refuses ∧
      (println {} format args).1 = 2147483647 ∧
      (println {} format args).2.1.held = letters ++ [newline] ∧
      (println {} format args).2.2 = [.danglingPercent] ∧
      (println .full format args).1 = -1 ∧ (println .full format args).2.1.held = [] ∧
      (println .full format args).2.2 = [.danglingPercent, .printFailed .deviceFull] := by
  intro letters args format
  have hlen : letters.length = 2147483648 := List.length_replicate
  clear_value letters
  have hc : args.Covered := by simp [args, Arguments.Covered]
  have htokens : tokens [37, 115, 37] = [.directive letterS, .lone] := by decide
  have htext : rendering args [.directive letterS, .lone] = letters := by
    simp [rendering, Token.rendering, Arguments.printed, args, Argument.text, letterS, percent]
  have haccepts : Sink.Accepts {} (letters.length + 1) :=
    ⟨by simp [Sink.Progresses], fun _ h => by simp at h, rfl⟩
  have hrefuses : Sink.full.Refuses := fun offered => by simp [Sink.room, Sink.full]
  have hread : (if format.null ∨ format.length ≤ 0 then [] else
      format.bytes.take format.length.toNat) = [37, 115, 37] := by decide
  obtain ⟨haccepted, -, -⟩ := println_returns {} format hc
  obtain ⟨-, hrefused, -⟩ := println_returns .full format hc
  rw [hread, htokens, htext] at haccepted
  rw [hread, htokens] at hrefused
  obtain ⟨hheld, hvalue, -, hlog, -⟩ := haccepted haccepts
  obtain ⟨hvalue', hheld', hlog', -⟩ := hrefused hrefuses
  refine ⟨hc, haccepts, hrefuses, ?_, hheld, hlog, hvalue', hheld', hlog'⟩
  rw [hvalue, hheld, List.length_append, List.length_append, hlen]
  rfl

end Print

end SupportLayer
