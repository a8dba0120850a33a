/-
# Text comes out, unless a directive cuts a character in two

A format that spells a text can be read character by character, a directive being the character
behind a percent sign. The expansion reads bytes, and drops one byte of an unknown directive. So
a directive of one byte leaves a text a text, whatever becomes of it; of a longer one the first
byte is dropped and the others are printed, and no text starts with those (`Utf8.not_isText_rest`).
What is printed is therefore a text iff each directive takes one byte.

Key definitions: `Print.directives`, `Print.Arguments.Textual`.
Key theorems: `Print.isText_expand_iff`, `Print.writeUnchecked_isText_iff`.
-/
import Mathlib
import SupportLayer.Proofs.Print.Conventions
import SupportLayer.Proofs.Sink
import SupportLayer.Proofs.Text.Utf8

namespace SupportLayer

namespace Print

open Utf8

/-- The directives of a format: the characters behind its percent signs, read from left to
right. -/
def directives : List Char → List Char
  | [] => []
  | c :: rest =>
    if c = '%' then
      match rest with
      | [] => []
      | d :: rest => d :: directives rest
    else directives rest

/-- The handles in the slots that are read as strings hold texts. -/
def Arguments.Textual (args : Arguments) (reads : List (ℕ × Letter)) : Prop :=
  ∀ slot, (slot, .string) ∈ reads → ∀ a ∈ args.slot? slot, IsText a.handle.contents

namespace Arguments.Textual

variable {args : Arguments} {n : ℕ} {letter : Letter} {reads : List (ℕ × Letter)}

theorem bytes (h : args.Textual ((n, letter) :: reads)) {a : Argument}
    (ha : args.slot? n = some a) : IsText (a.bytes letter) := by
  cases letter with
  | integer => exact ⟨_, rfl⟩
  | string => exact h n List.mem_cons_self a ha

theorem tail (h : args.Textual ((n, letter) :: reads)) : args.Textual reads :=
  fun slot hslot => h slot (List.mem_cons_of_mem _ hslot)

end Arguments.Textual

theorem encode_percent : String.utf8EncodeChar '%' = [percent] := by decide

theorem isText_prepend_iff {text tail : List Char} {e : Expansion} :
    IsText ((e.prepend (encode text)).text ++ encode tail) ↔ IsText (e.text ++ encode tail) := by
  rw [Expansion.prepend, List.append_assoc]
  exact isText_encode_append_iff

theorem exists_expand_directive {args : Arguments} {next : ℕ} {d : Char} {b : UInt8}
    (hd : String.utf8EncodeChar d = [b]) {rest : Bytes}
    (ht : args.Textual (expand args next (percent :: b :: rest)).reads) :
    ∃ printed later, IsText printed ∧ args.Textual (expand args later rest).reads ∧
      (expand args next (percent :: b :: rest)).text =
        printed ++ (expand args later rest).text := by
  have hone : encode ['%', d] = [percent, b] := by simp [encode_percent, hd]
  by_cases hp : b = percent
  · subst hp
    rw [expand_percent] at ht ⊢
    exact ⟨encode ['%'], next, isText_encode _, ht, rfl⟩
  cases hw : letter? b with
  | some letter =>
    cases hslot : args.slot? next with
    | none =>
      rw [expand_unfilled hw hslot] at ht ⊢
      exact ⟨encode ['%', d], next, isText_encode _, ht, by rw [hone]; rfl⟩
    | some a =>
      rw [expand_filled hw hslot] at ht ⊢
      exact ⟨a.bytes letter, next + 1, ht.bytes hslot, ht.tail, rfl⟩
  | none =>
    rw [expand_unknown hp hw] at ht ⊢
    exact ⟨encode [], next, isText_encode _, ht, rfl⟩

/-- Of a longer directive only the first byte is dropped. -/
theorem expand_cut {args : Arguments} {next : ℕ} {d : Char} {b : UInt8} {more : Bytes}
    (hd : String.utf8EncodeChar d = b :: more) (hmore : more ≠ []) (rest : Bytes) :
    (expand args next (percent :: b :: (more ++ rest))).text =
      more ++ (expand args next rest).text := by
  obtain ⟨b', more', hd', -, hcont, hlarge⟩ := first_and_rest d
  obtain ⟨rfl, rfl⟩ := List.cons.inj (hd.symm.trans hd')
  have hb := hlarge hmore
  have hne : ∀ x : UInt8, x.toNat < 128 → b ≠ x := by
    rintro x hx rfl
    omega
  have hw : letter? b = none :=
    letter?_eq_none_iff.mpr ⟨hne letterS (by decide), hne letterD (by decide)⟩
  have hplain : percent ∉ more := fun hm => absurd (hcont percent hm) (by decide)
  rw [expand_unknown (hne percent (by decide)) hw, expand_plains hplain]
  rfl

/-- What is printed is a text iff no directive is cut. The text `tail` stands for what comes
behind the expansion. -/
theorem isText_expand_iff {args : Arguments} {next : ℕ} {format : List Char}
    (ht : args.Textual (expand args next (encode format)).reads) (tail : List Char) :
    IsText ((expand args next (encode format)).text ++ encode tail) ↔
      ∀ d ∈ directives format, (String.utf8EncodeChar d).length = 1 := by
  fun_induction directives format generalizing next with
  | case1 => simpa [expand] using isText_encode tail
  | case2 =>
    rw [encode_cons, encode_percent]
    simpa [expand] using isText_encode tail
  | case3 d rest ih =>
    obtain ⟨b, more, hd, -⟩ := first_and_rest d
    rw [encode_cons, encode_cons, encode_percent, hd, List.singleton_append, List.cons_append]
      at ht ⊢
    rw [List.forall_mem_cons]
    by_cases hmore : more = []
    · subst hmore
      obtain ⟨-, later, ⟨printed, rfl⟩, hlater, he⟩ := exists_expand_directive hd ht
      rw [List.nil_append] at he hlater ⊢
      have hlen : (String.utf8EncodeChar d).length = 1 := congrArg List.length hd
      rw [he, List.append_assoc, isText_encode_append_iff, ih hlater, and_iff_right hlen]
    · rw [expand_cut hd hmore, List.append_assoc]
      have hlen : (String.utf8EncodeChar d).length ≠ 1 := by
        rw [hd]
        simpa using hmore
      exact iff_of_false (not_isText_rest hd hmore _) fun h => hlen h.1
  | case4 c rest hc ih =>
    have hone : String.utf8EncodeChar c = encode [c] := by simp
    rw [encode_cons, expand_plains (percent_notMem hc), hone] at ht ⊢
    rw [isText_prepend_iff, ih ht]

/-- **Text in, text out, unless a directive is cut.** Into a sink that accepts the line, a format
that is a text prints a text, whatever its arguments are as long as those that it reads as strings
are texts, iff each character behind a percent sign takes one byte. -/
theorem writeUnchecked_isText_iff (sink : Sink) (format : List Char) (args : Arguments)
    (textual : args.Textual (expand args 0 (encode format)).reads)
    (accepting : sink.Accepts ((expand args 0 (encode format)).text.length + 1)) :
    ∃ line, (writeUnchecked sink (encode format) args).sink.held = sink.held ++ line ∧
      (IsText line ↔ ∀ d ∈ directives format, (String.utf8EncodeChar d).length = 1) := by
  refine ⟨(expand args 0 (encode format)).text ++ encode ['\n'], ?_,
    isText_expand_iff textual ['\n']⟩
  simp only [writeUnchecked, writeLine_of_accepts accepting, List.append_assoc]
  rfl

/-- `%s: %é` with one argument: the second byte of the letter is printed by itself. -/
theorem writeUnchecked_isText_iff_cut :
    let format : List Char := ['%', 's', ':', ' ', '%', 'é']
    let args : Arguments := ⟨some [.text (.ofBytes (encode ['ü']))], 1⟩
    let sink : Sink := { chunk := some 2, interruptions := 1 }
    args.Textual (expand args 0 (encode format)).reads ∧
      sink.Accepts ((expand args 0 (encode format)).text.length + 1) ∧
      directives format = ['s', 'é'] ∧
      ∃ line, (writeUnchecked sink (encode format) args).sink.held = sink.held ++ line ∧
        line = [195, 188, 58, 32, 169, 10] ∧ ¬ IsText line := by
  intro format args sink
  have hreads : (expand args 0 (encode format)).reads = [(0, .string)] := by decide
  have ht : args.Textual (expand args 0 (encode format)).reads := by
    rw [hreads]
    intro slot hslot a ha
    cases List.mem_singleton.mp hslot
    cases ha
    exact ⟨['ü'], StringHandle.contents_ofBytes _⟩
  have hlen : (expand args 0 (encode format)).text.length = 5 := by decide
  have ha : sink.Accepts ((expand args 0 (encode format)).text.length + 1) :=
    ⟨by simp [sink, Sink.Progresses], by simp [sink], rfl⟩
  have hdir : directives format = ['s', 'é'] := by decide
  have hheld : (writeUnchecked sink (encode format) args).sink.held =
      sink.held ++ [195, 188, 58, 32, 169, 10] := by
    have htext : (expand args 0 (encode format)).text = [195, 188, 58, 32, 169] := by decide
    simp only [writeUnchecked, writeLine_of_accepts ha]
    rw [htext]
    rfl
  obtain ⟨line, hline, hiff⟩ := writeUnchecked_isText_iff sink format args ht ha
  refine ⟨ht, ha, hdir, line, hline, List.append_cancel_left (hline.symm.trans hheld), ?_⟩
  rw [hiff, hdir]
  intro h
  exact absurd (h 'é' (by simp)) (by decide)

/-- `%é` prints the second byte of the letter, which is no text. -/
theorem writeUnchecked_not_isText :
    (writeUnchecked {} (encode ['%', 'é']) ⟨some [], 0⟩).sink.held = [169, 10] ∧
      ¬ IsText (writeUnchecked {} (encode ['%', 'é']) ⟨some [], 0⟩).sink.held := by
  have htext : (expand ⟨some [], 0⟩ 0 (encode ['%', 'é'])).text = [169] := by decide
  have hheld : (writeUnchecked {} (encode ['%', 'é']) ⟨some [], 0⟩).sink.held = [169, 10] := by
    simp only [writeUnchecked]
    rw [htext, writeLine_of_accepts ⟨by simp [Sink.Progresses], by simp, rfl⟩]
    rfl
  refine ⟨hheld, ?_⟩
  rw [hheld]
  exact not_isText_rest (c := 'é') (b := 195) (by decide) (List.cons_ne_nil 169 []) [10]

end Print

end SupportLayer
