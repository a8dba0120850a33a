/-
# Arguments are data, never format

What an argument prints is put where its directive stands and is not read again. So a format
with a count of slots is a text with gaps: the literals are the same for all arguments, and the
gaps take what the arguments print, one behind the other. A directive makes a gap as long as
there are slots left; a directive behind the last slot stands in the literals as it is. What a
pointer is besides what its directive reads it as shows nowhere.

Key definitions: `Print.Segments`, `Print.Segments.fill`, `Print.segments`,
`Print.Arguments.texts`.
Key theorems: `Print.renderingFrom_segments`, `Print.writeUnchecked_eq_of_texts`,
`Print.writeUnchecked_fills`.
-/
import Mathlib
import SupportLayer.Proofs.Print.Tokens

namespace SupportLayer.Print

/-- A text with gaps: the literal in front of the first gap, and the one behind each gap. -/
structure Segments where
  first : Bytes := []
  behind : List Bytes := []
  deriving DecidableEq, Repr

/-- A text with its gaps filled, the first one with the first of `texts`. -/
def Segments.fill (s : Segments) (texts : List Bytes) : Bytes :=
  s.first ++ (List.zipWith (· ++ ·) texts s.behind).flatten

/-- What a token prints that has no slot. -/
def Token.literal (t : Token) : Bytes := t.rendering ⟨none, 0⟩ 0

/-- What tokens print with `room` slots left, whatever the slots hold. -/
def segments (room : ℕ) : List Token → Segments
  | [] => {}
  | t :: ts =>
    if t.wants ∧ 0 < room then
      { behind := (segments (room - 1) ts).first :: (segments (room - 1) ts).behind }
    else { segments room ts with first := t.literal ++ (segments room ts).first }

/-- What the slots print that the count covers, each read as its letter says; none if the array is
null. -/
def Arguments.texts (args : Arguments) (read : List Letter) : List Bytes :=
  List.zipWith Argument.bytes ((args.slots.getD []).take args.count) read

/-! ### Filling -/

theorem Segments.fill_literal (s : Segments) (literal : Bytes) (texts : List Bytes) :
    fill { s with first := literal ++ s.first } texts = literal ++ s.fill texts := by
  simp [fill]

theorem Segments.fill_gap (s : Segments) (text : Bytes) (texts : List Bytes) :
    fill { behind := s.first :: s.behind } (text :: texts) = text ++ s.fill texts := by
  simp [fill]

theorem length_segments (ts : List Token) (room : ℕ) :
    (segments room ts).behind.length = min (ts.countP Token.wants) room := by
  induction ts generalizing room with
  | nil => simp [segments]
  | cons t ts ih =>
    rw [segments, List.countP_cons]
    by_cases h : t.wants ∧ 0 < room
    · rw [if_pos h, List.length_cons, ih, if_pos h.1]
      have := h.2
      omega
    · rw [if_neg h, ih]
      by_cases hw : t.wants
      · have : room = 0 := by
          have := mt (And.intro hw) h
          omega
        omega
      · rw [if_neg hw, Nat.add_zero]

/-! ### The slots as texts -/

namespace Arguments

variable {args : Arguments}

theorem length_texts (hc : args.Covered) (read : List Letter) :
    (args.texts read).length = min args.usable read.length := by
  unfold texts usable
  cases hs : args.slots with
  | none => simp
  | some slots =>
    have := hc slots hs
    simp [this]

/-- What the slots print from slot `k` on. -/
def textsFrom (args : Arguments) (k : ℕ) (read : List Letter) : List Bytes :=
  List.zipWith Argument.bytes (((args.slots.getD []).take args.count).drop k) read

theorem textsFrom_of_usable_le {k : ℕ} (h : args.usable ≤ k) (read : List Letter) :
    args.textsFrom k read = [] := by
  have hnone : ((args.slots.getD []).take args.count).drop k = [] := by
    rw [List.drop_eq_nil_iff, List.length_take]
    unfold usable at h
    cases hs : args.slots with
    | none => simp
    | some slots =>
      rw [hs] at h
      exact (Nat.min_le_left _ _).trans h
  rw [textsFrom, hnone, List.zipWith_nil_left]

/-- A directive with a slot left prints the first of the texts from there on. -/
theorem textsFrom_letter (hc : args.Covered) {d : UInt8} {letter : Letter} {k : ℕ}
    (hd : letter? d = some letter) (h : k < args.usable) (read : List Letter) :
    args.textsFrom k (letter :: read) =
      (Token.directive d).rendering args k :: args.textsFrom (k + 1) read := by
  obtain ⟨a, ha, hr⟩ := exists_slot? hc hd h
  have hslot : ((args.slots.getD []).take args.count)[k]? = some a := by
    unfold slot? at ha
    cases hs : args.slots with
    | none => simp [hs] at ha
    | some slots =>
      have hk : k < args.count := by simpa [usable, hs] using h
      simp only [hs, if_pos hk] at ha
      rw [Option.getD_some, List.getElem?_take_of_lt hk, ha]
  rw [textsFrom, List.drop_eq_getElem?_toList_append, hslot, hr]
  rfl

end Arguments

theorem Token.rendering_of_not_wants {t : Token} (h : ¬ t.wants) (args : Arguments) (k : ℕ) :
    t.rendering args k = t.literal := by
  cases t with
  | directive d =>
    have hd : Print.letter? d = none := by simpa [wants, letter?] using h
    have hne := letter?_eq_none_iff.mp hd
    simp only [literal, rendering, if_neg hne.1, if_neg hne.2]
  | _ => rfl

/-- Tokens print literals with the slots in their gaps. The tokens stand behind `k` others
that want an argument, so the first gap takes the slot with that number. -/
theorem renderingFrom_segments {args : Arguments} (hc : args.Covered) (ts : List Token) (k : ℕ) :
    renderingFrom args k ts =
      (segments (args.usable - k) ts).fill (args.textsFrom k (letters ts)) := by
  induction ts generalizing k with
  | nil => simp [segments, Segments.fill]
  | cons t ts ih =>
    rw [renderingFrom_cons, segments]
    by_cases hw : t.wants
    · obtain ⟨d, letter, rfl, hd⟩ := Token.wants_iff.mp hw
      have hl : letters (.directive d :: ts) = letter :: letters ts := List.filterMap_cons_some hd
      rw [if_pos hw, ih (k + 1), hl]
      rcases Nat.lt_or_ge k args.usable with hk | hk
      · have hroom : args.usable - k - 1 = args.usable - (k + 1) := by omega
        rw [if_pos ⟨hw, by omega⟩, Arguments.textsFrom_letter hc hd hk, hroom, Segments.fill_gap]
      · -- the slots are used up, before this token and behind it
        have hroom : args.usable - (k + 1) = args.usable - k := by omega
        rw [if_neg (by omega), Arguments.rendering_of_usable_le hd hk, hroom,
          Arguments.textsFrom_of_usable_le hk,
          Arguments.textsFrom_of_usable_le (hk.trans (Nat.le_succ k))]
        have hliteral : (Token.directive d).literal = [percent, d] :=
          Arguments.rendering_of_usable_le hd (Nat.zero_le _)
        rw [Segments.fill_literal, hliteral]
    · have hl : letters (t :: ts) = letters ts :=
        List.filterMap_cons_none (by simpa [Token.wants] using hw)
      rw [if_neg hw, if_neg (fun h => hw h.1), Token.rendering_of_not_wants hw, ih k, hl,
        Segments.fill_literal]

theorem Arguments.textsFrom_zero (args : Arguments) (read : List Letter) :
    args.textsFrom 0 read = args.texts read := rfl

/-- An argument shows only in what its directive reads it as: what a pointer to a string is as a
number makes no difference, nor what a pointer to a number is as a string. -/
theorem writeUnchecked_eq_of_texts {args args' : Arguments} {format : Bytes} (hc : args.Covered)
    (hc' : args'.Covered) (husable : args.usable = args'.usable)
    (h : args.texts (letters (tokens format)) = args'.texts (letters (tokens format)))
    (sink : Sink) : writeUnchecked sink format args = writeUnchecked sink format args' := by
  have he := expand_tokens hc format 0
  have he' := expand_tokens hc' format 0
  rw [Nat.zero_min, renderingFrom_segments hc, Arguments.textsFrom_zero, h, husable] at he
  rw [Nat.zero_min, renderingFrom_segments hc', Arguments.textsFrom_zero] at he'
  simp only [writeUnchecked, he, he']

/-- **Arguments are data, never format.** A format, a count and whether the array is null fix the
literals and the warnings. Whatever the slots hold, the line is that of the literals with what
the first slots print in the gaps, each read as the letter of its directive says, and the slots
that are read are those. -/
theorem writeUnchecked_fills (format : Bytes) (count : ℕ) (null : Bool) :
    ∃ (literals : Segments) (log : List LogRecord),
      literals.behind.length =
        min ((tokens format).countP Token.wants) (if null then 0 else count) ∧
      ∀ args : Arguments, args.count = count → args.slots.isNone = null → args.Covered →
        let texts := args.texts (letters (tokens format))
        texts.length = literals.behind.length ∧
        (expand args 0 format).text = literals.fill texts ∧
        (expand args 0 format).reads =
          (List.range literals.behind.length).zip (letters (tokens format)) ∧
        ∀ sink, writeUnchecked sink format args =
          ⟨(writeLine sink (literals.fill texts)).1, (writeLine sink (literals.fill texts)).2,
            log⟩ := by
  let room := if null then 0 else count
  let warnings := (tokens format).filterMap Token.warning?
  refine ⟨segments room (tokens format), warnings.map Warning.record, length_segments _ _, ?_⟩
  intro args hcount hnull hc texts
  have hroom : args.usable = room := by
    unfold Arguments.usable
    cases hs : args.slots with
    | none => simp [room, ← hnull, hs]
    | some slots => simp [room, ← hnull, hs, hcount]
  have he := expand_tokens hc format 0
  rw [Nat.zero_min, renderingFrom_segments hc, Nat.sub_zero, hroom] at he
  refine ⟨?_, by rw [he]; rfl, ?_, ?_⟩
  · rw [length_segments, Arguments.length_texts hc, hroom, length_letters, Nat.min_comm]
  · rw [he, length_segments, Nat.zero_add, Nat.sub_zero, List.range_eq_range']
  · intro sink
    simp only [writeUnchecked, he, warnings]
    rfl

/-- `%s|%d|%q%s%` with two slots prints the same around a string that looks like a directive,
with a line feed and a zero byte in it, as around a null handle. -/
theorem writeUnchecked_fills_hostile :
    let format : Bytes := [37, 115, 124, 37, 100, 124, 37, 113, 37, 115, 37]
    let hostile : Arguments := ⟨some [.text (.ofBytes [37, 115, 10, 0]), .integer (-7)], 2⟩
    let absent : Arguments := ⟨some [.text ⟨[65, 66], 2, true⟩, .integer 0], 2⟩
    hostile.Covered ∧ absent.Covered ∧ ∃ (literals : Segments) (log : List LogRecord),
      literals.behind.length = 2 ∧
      (writeUnchecked {} format hostile).sink.held =
        literals.fill [[37, 115, 10, 0], [45, 55]] ++ [newline] ∧
      (writeUnchecked {} format absent).sink.held = literals.fill [[], [48]] ++ [newline] ∧
      (writeUnchecked {} format hostile).log = log ∧ (writeUnchecked {} format absent).log = log := by
  intro format hostile absent
  have hh : hostile.Covered := by simp [hostile, Arguments.Covered]
  have ha : absent.Covered := by simp [absent, Arguments.Covered]
  have hline : ∀ text, (writeLine {} text).2.held = text ++ [newline] := by
    intro text
    rw [writeLine_of_accepts ⟨by simp [Sink.Progresses], by simp, rfl⟩]
    rfl
  obtain ⟨literals, log, hk, h⟩ := writeUnchecked_fills format 2 false
  obtain ⟨-, -, -, hh'⟩ := h hostile rfl rfl hh
  obtain ⟨-, -, -, ha'⟩ := h absent rfl rfl ha
  have htexts : hostile.texts (letters (tokens format)) = [[37, 115, 10, 0], [45, 55]] := by decide
  have htexts' : absent.texts (letters (tokens format)) = [[], [48]] := by decide
  rw [htexts] at hh'
  rw [htexts'] at ha'
  refine ⟨hh, ha, literals, log, hk, ?_, ?_, ?_, ?_⟩
  · rw [hh', hline]
  · rw [ha', hline]
  · rw [hh']
  · rw [ha']

end SupportLayer.Print
