/-
# Escaping is exact

A text is escaped by doubling its percent signs. As a format, the escaped text prints the text,
whatever stands behind it: it takes no argument along and nothing of it is warned of, so what
follows is expanded as it would be alone (`expand_escaped`). Nor is there another way to write a
text so: a format without directives for arguments prints a byte for a plain byte or for two
percent signs, and all else is warned of (`eq_escaped`). Without arguments a directive stays
unfilled, so there the warning-free formats that leave none unfilled are the escaped texts.

Key definitions: `Print.escaped`, `Print.Filled`, `Print.PrintsFirst`.
Key theorems: `Print.expand_escaped`, `Print.eq_escaped`, `Print.writeUnchecked_escaped`.
-/
import Mathlib
import SupportLayer.Proofs.Print.Tokens

namespace SupportLayer.Print

/-- A byte as it stands in a format. -/
def escapeByte (b : UInt8) : Bytes := if b = percent then [percent, percent] else [b]

/-- A text as it stands in a format: its percent signs are doubled. -/
def escaped (text : Bytes) : Bytes := text.flatMap escapeByte

/-- No directive for an argument is left unfilled: a slot is read for each. -/
def Filled (args : Arguments) (format : Bytes) : Prop :=
  (expand args 0 format).reads.length = (tokens format).countP Token.wants

theorem escaped_percent (text : Bytes) :
    escaped (percent :: text) = percent :: percent :: escaped text := rfl

theorem escaped_plain {b : UInt8} (hb : b ≠ percent) (text : Bytes) :
    escaped (b :: text) = b :: escaped text := by
  rw [escaped, List.flatMap_cons, escapeByte, if_neg hb]
  rfl

/-! ### What an escaped text prints -/

/-- An escaped text prints the text, and leaves the arguments to what follows it. -/
theorem expand_escaped (args : Arguments) (next : ℕ) (text more : Bytes) :
    expand args next (escaped text ++ more) = (expand args next more).prepend text := by
  induction text with
  | nil => rfl
  | cons b text ih =>
    by_cases hb : b = percent
    · rw [hb, escaped_percent, List.cons_append, List.cons_append, expand_percent, ih]
      rfl
    · rw [escaped_plain hb, List.cons_append, expand_plain hb, ih]
      rfl

theorem countP_wants_escaped (text : Bytes) : (tokens (escaped text)).countP Token.wants = 0 := by
  induction text with
  | nil => rfl
  | cons b text ih =>
    by_cases hb : b = percent
    · rw [hb, escaped_percent, tokens_directive, List.countP_cons, ih]
      rfl
    · rw [escaped_plain hb, tokens_plain hb, List.countP_cons, ih]
      rfl

theorem filled_escaped (args : Arguments) (text : Bytes) : Filled args (escaped text) := by
  have he := expand_escaped args 0 text []
  rw [List.append_nil] at he
  rw [Filled, countP_wants_escaped, he]
  rfl

/-! ### What prints a text -/

theorem countP_wants_letter {d : UInt8} {letter : Letter} (hd : letter? d = some letter)
    (rest : Bytes) : (tokens (percent :: d :: rest)).countP Token.wants ≠ 0 := by
  have hw : (Token.directive d).wants = true := Token.wants_directive hd
  rw [tokens_directive, List.countP_cons_of_pos hw]
  exact Nat.succ_ne_zero _

/-- A format that wants no argument and is not warned of is an escaped text, the one it prints. -/
theorem eq_escaped {args : Arguments} {next : ℕ} {format : Bytes}
    (hwants : (tokens format).countP Token.wants = 0)
    (hwarnings : (expand args next format).warnings = []) :
    format = escaped (expand args next format).text := by
  fun_induction expand args next format with
  | case1 next => rfl
  | case2 next => cases hwarnings
  | case3 next rest ih =>
    have hrest : (tokens rest).countP Token.wants = 0 := by
      rwa [tokens_directive, List.countP_cons_of_neg (by decide)] at hwants
    show percent :: percent :: rest = escaped (percent :: (expand args next rest).text)
    rw [escaped_percent, ← ih hrest hwarnings]
  | case4 next d rest hp letter hd hslot ih => exact absurd hwants (countP_wants_letter hd rest)
  | case5 next d rest hp letter hd a hslot ih => exact absurd hwants (countP_wants_letter hd rest)
  | case6 next d rest hp hd ih => cases hwarnings
  | case7 next b rest hb ih =>
    have hrest : (tokens rest).countP Token.wants = 0 := by
      rwa [tokens_plain hb, List.countP_cons_of_neg Bool.false_ne_true] at hwants
    show b :: rest = escaped (b :: (expand args next rest).text)
    rw [escaped_plain hb, ← ih hrest hwarnings]

theorem reads_of_usable_eq_zero {args : Arguments} (h : args.usable = 0) (format : Bytes) :
    (expand args 0 format).reads = [] := by
  have hc : args.Covered := by
    intro slots hslots
    have hcount : args.count = 0 := by
      rw [← h, Arguments.usable, hslots]
    rw [hcount]
    exact Nat.zero_le _
  have he := expand_tokens hc format 0
  rw [Nat.zero_min] at he
  rw [he, h, Nat.min_zero]
  rfl

/-- Without arguments, a text is printed by its escaped form only. -/
theorem prints_iff_eq_escaped {args : Arguments} (h : args.usable = 0) (format text : Bytes) :
    ((expand args 0 format).text = text ∧ Filled args format ∧
      (expand args 0 format).warnings = []) ↔ format = escaped text := by
  constructor
  · rintro ⟨rfl, hfilled, hwarnings⟩
    rw [Filled, reads_of_usable_eq_zero h] at hfilled
    exact eq_escaped hfilled.symm hwarnings
  · rintro rfl
    have he := expand_escaped args 0 text []
    rw [List.append_nil] at he
    exact ⟨by rw [he]; exact List.append_nil text, filled_escaped args text, by rw [he]; rfl⟩

/-! ### Printed -/

/-- A format prints a text and behind it what another format prints with the same arguments, of
which it reads none for the text; and it is warned of no more than that other format. -/
structure PrintsFirst (args : Arguments) (format text more : Bytes) : Prop where
  reads : (expand args 0 format).reads = (expand args 0 more).reads
  log : ∀ sink, (writeUnchecked sink format args).log = (writeUnchecked sink more args).log
  /-- Whatever the sink, it is offered the text and what the other format gives. -/
  offered : ∀ sink, writeLine sink (text ++ (expand args 0 more).text) =
    ((writeUnchecked sink format args).answer, (writeUnchecked sink format args).sink)
  printed : ∀ sink : Sink, sink.Accepts (text.length + (expand args 0 more).text.length + 1) →
    let later := (expand args 0 more).text
    (writeUnchecked sink more args).answer = .ok later.length ∧
    (writeUnchecked sink more args).sink.held = sink.held ++ later ++ [newline] ∧
    (writeUnchecked sink format args).answer = .ok (text.length + later.length) ∧
    (writeUnchecked sink format args).sink.held = sink.held ++ (text ++ later) ++ [newline]

theorem printsFirst_escaped (args : Arguments) (text more : Bytes) :
    PrintsFirst args (escaped text ++ more) text more := by
  have he := expand_escaped args 0 text more
  have htext : (expand args 0 (escaped text ++ more)).text = text ++ (expand args 0 more).text := by
    rw [he]
    rfl
  refine ⟨by rw [he]; rfl, ?_, ?_, ?_⟩
  · intro sink
    simp only [writeUnchecked, he]
    rfl
  · intro sink
    simp only [writeUnchecked, htext]
  · intro sink accepting
    have hmore : sink.Accepts ((expand args 0 more).text.length + 1) := accepting.mono (by omega)
    have hwhole : sink.Accepts ((expand args 0 (escaped text ++ more)).text.length + 1) := by
      rwa [htext, List.length_append]
    obtain ⟨hlater, hlater'⟩ := writeUnchecked_of_accepts hmore
    obtain ⟨hanswer, hheld⟩ := writeUnchecked_of_accepts hwhole
    rw [htext] at hheld
    rw [htext, List.length_append] at hanswer
    exact ⟨hlater, hlater', hanswer, hheld⟩

/-- **Escaping is exact.** For any text, its escaped form in front of a format prints the text in
front of what the format prints: no argument is consumed for it and it is not warned of. And a
format that prints the text to a sink that accepts it, with no arguments to use, no directive left
unfilled and nothing logged, is the escaped text. -/
theorem writeUnchecked_escaped (text : Bytes) :
    (∀ args more, PrintsFirst args (escaped text ++ more) text more) ∧
      ∀ (args : Arguments) (format : Bytes) (sink : Sink), args.usable = 0 →
        sink.Accepts ((expand args 0 format).text.length + 1) →
        (((writeUnchecked sink format args).sink.held = sink.held ++ text ++ [newline] ∧
          Filled args format ∧ (writeUnchecked sink format args).log = []) ↔
          format = escaped text) := by
  refine ⟨fun args more => printsFirst_escaped args text more, ?_⟩
  intro args format sink husable accepting
  have hheld := (writeUnchecked_of_accepts accepting).2
  have hprinted : (writeUnchecked sink format args).sink.held = sink.held ++ text ++ [newline] ↔
      (expand args 0 format).text = text := by
    rw [hheld, List.append_left_inj, List.append_right_inj]
  have hlog : (writeUnchecked sink format args).log = [] ↔
      (expand args 0 format).warnings = [] := List.map_eq_nil_iff
  rw [hprinted, hlog]
  exact prints_iff_eq_escaped husable format text

/-- The text `%s%%d%` with a byte that is no character, escaped in front of `%s`: it is printed as
it stands, and `%s` finds the first argument. With a null array, its escaped form is what prints
it, and the text itself, as a format, is not. -/
theorem writeUnchecked_escaped_hostile :
    let text : Bytes := [37, 115, 37, 37, 100, 0, 255, 37]
    let args : Arguments := ⟨some [.text (.ofBytes [120])], 1⟩
    let sink : Sink := { chunk := some 1, interruptions := 2 }
    let form : Bytes := [37, 37, 115, 37, 37, 37, 37, 100, 0, 255, 37, 37]
    sink.Accepts 10 ∧ escaped text = form ∧
      (writeUnchecked sink (form ++ [37, 115]) args).sink.held = text ++ [120] ++ [newline] ∧
      (writeUnchecked sink (form ++ [37, 115]) args).log = [] ∧
      (expand args 0 (form ++ [37, 115])).reads = [(0, .string)] ∧
      (Arguments.mk none 1).usable = 0 ∧
      sink.Accepts ((expand ⟨none, 1⟩ 0 form).text.length + 1) ∧
      (writeUnchecked sink form ⟨none, 1⟩).sink.held = text ++ [newline] ∧
      Filled ⟨none, 1⟩ form ∧ ¬ Filled ⟨none, 1⟩ text := by
  intro text args sink form
  have haccepts : ∀ n, sink.Accepts n := fun n =>
    ⟨by simp [sink, Sink.Progresses], by simp [sink], rfl⟩
  have hform : escaped text = form := by decide
  obtain ⟨hfirst, honly⟩ := writeUnchecked_escaped text
  have hbefore := hfirst args [37, 115]
  rw [hform] at hbefore
  obtain ⟨-, -, -, hheld⟩ := hbefore.printed sink (haccepts _)
  obtain ⟨hprinted, hfilled, -⟩ :=
    (honly ⟨none, 1⟩ form sink rfl (haccepts _)).mpr hform.symm
  refine ⟨haccepts 10, hform, hheld, (hbefore.log sink).trans (by decide),
    hbefore.reads.trans (by decide), rfl, haccepts _, hprinted, hfilled, ?_⟩
  unfold Filled
  decide

end SupportLayer.Print
