/-
# The two print conventions agree

A plain template has a directive format of the same meaning: each percent sign of its text is
doubled, and each placeholder becomes `%s` or `%d` by the type of its argument; the arguments
are those of the placeholders, in the order of the placeholders, one for each. No byte of a
character other than the percent sign is that of the percent sign (`percent_notMem`), so text
goes through the expansion unread, and the argument texts are never read at all.

Key definitions: `Print.Shared.argument`, `Print.Item.directive`, `Print.directiveArguments`.
Key theorems: `Print.expand_directives`, `Print.conventions_agree`.
-/
import Mathlib
import SupportLayer.Proofs.Print.Lines
import SupportLayer.Proofs.Print.Parts

namespace SupportLayer.Print

/-- The argument for a directive. -/
def Shared.argument : Shared → Argument
  | text s => .text (.ofBytes (Utf8.encode s.toList))
  | integer n => .integer n

/-- The letter of the directive that takes the argument. -/
def Shared.letter : Shared → Letter
  | text _ => .string
  | integer _ => .integer

/-- A character as it stands in a directive format. -/
def doubledChar (c : Char) : List Char := if c = '%' then [c, c] else [c]

/-- An item as it stands in a directive format. -/
def Item.directive : Item → Bytes
  | literal text => Utf8.encode (text.flatMap doubledChar)
  | argument a => [percent, a.letter.byte]

/-- The argument of an item, if it has one. -/
def Item.argument? : Item → Option Argument
  | literal _ => none
  | argument a => some a.argument

/-- The letter of an item, if it has an argument. -/
def Item.letter? : Item → Option Letter
  | literal _ => none
  | argument a => some a.letter

/-- The arguments that go with the directives of items. -/
def directiveArguments (items : List Item) : Arguments :=
  ⟨some (items.filterMap Item.argument?), (items.filterMap Item.argument?).length⟩

/-! ### Text without directives -/

theorem percent_notMem {c : Char} (h : c ≠ '%') : percent ∉ String.utf8EncodeChar c := by
  have hval : c.toNat ≠ 37 := fun hv => h (Char.ext (UInt32.toNat_inj.mp hv))
  intro hm
  -- a byte of a longer form is above 127
  unfold String.utf8EncodeChar percent at hm
  simp only [Char.toNat_val] at hm
  split_ifs at hm <;> simp [← UInt8.toNat_inj] at hm <;> omega

theorem expand_plains {args : Arguments} {next : Nat} {bytes : Bytes} (h : percent ∉ bytes)
    (rest : Bytes) :
    expand args next (bytes ++ rest) = (expand args next rest).prepend bytes := by
  induction bytes with
  | nil => rfl
  | cons b bytes ih =>
    rw [List.mem_cons, not_or] at h
    rw [List.cons_append, expand_plain (Ne.symm h.1), ih h.2]
    rfl

theorem expand_doubledChar {args : Arguments} {next : Nat} (c : Char) (rest : Bytes) :
    expand args next (Utf8.encode (doubledChar c) ++ rest) =
      (expand args next rest).prepend (String.utf8EncodeChar c) := by
  unfold doubledChar
  by_cases h : c = '%'
  · subst h
    exact expand_percent rest
  · rw [if_neg h, Utf8.encode_cons, Utf8.encode_nil, List.append_nil]
    exact expand_plains (percent_notMem h) rest

theorem expand_doubled {args : Arguments} {next : Nat} (text : List Char) (rest : Bytes) :
    expand args next (Utf8.encode (text.flatMap doubledChar) ++ rest) =
      (expand args next rest).prepend (Utf8.encode text) := by
  induction text with
  | nil => rfl
  | cons c text ih =>
    rw [List.flatMap_cons, Utf8.encode_append, List.append_assoc, expand_doubledChar, ih]
    simp [Expansion.prepend]

/-! ### Items -/

/-- Both conventions print an argument alike, if the directive has its letter. -/
theorem Shared.argument_bytes (a : Shared) :
    a.argument.bytes a.letter = Utf8.encode a.chars := by
  cases a with
  | text s => exact StringHandle.contents_ofBytes _
  | integer n => rfl

/-- Items whose arguments stand in the array from slot `next` on expand to their texts. -/
theorem expand_directives {slots : List Argument} (items : List Item) (next : Nat)
    (h : slots.drop next = items.filterMap Item.argument?) :
    expand ⟨some slots, slots.length⟩ next (items.flatMap Item.directive) =
      { text := Utf8.encode (items.flatMap Item.chars)
        reads := (List.range' next (items.filterMap Item.argument?).length).zip
          (items.filterMap Item.letter?) } := by
  induction items generalizing next with
  | nil => rfl
  | cons item items ih =>
    rw [List.flatMap_cons, List.flatMap_cons, Utf8.encode_append]
    cases item with
    | literal text =>
      have hnone : Item.argument? (.literal text) = none := rfl
      have hletter : Item.letter? (.literal text) = none := rfl
      rw [List.filterMap_cons_none hnone] at h ⊢
      rw [List.filterMap_cons_none hletter, Item.directive, expand_doubled, ih next h]
      rfl
    | argument a =>
      have hsome : Item.argument? (.argument a) = some a.argument := rfl
      have hletter : Item.letter? (.argument a) = some a.letter := rfl
      rw [List.filterMap_cons_some hsome] at h ⊢
      rw [List.filterMap_cons_some hletter]
      have hslot : slots[next]? = some a.argument := by
        rw [← List.head?_drop, h, List.head?_cons]
      have hnext : next < slots.length := (List.getElem?_eq_some_iff.mp hslot).1
      have hrest : slots.drop (next + 1) = items.filterMap Item.argument? := by
        rw [← List.tail_drop, h, List.tail_cons]
      have ha : Arguments.slot? ⟨some slots, slots.length⟩ next = some a.argument :=
        (if_pos hnext).trans hslot
      rw [Item.directive, List.cons_append, List.singleton_append,
        expand_filled (letter?_byte a.letter) ha, ih (next + 1) hrest]
      simp [Expansion.consume, Item.chars, a.argument_bytes, List.range'_succ]

/-- **The two conventions agree.** A plain template whose placeholders have their arguments is
accepted, and the line it gives and that of its directive format leave the same sink behind,
bytes and flushes, with the same count or the same failure. The directive format is warned of
for nothing. -/
theorem conventions_agree (parts : List Part) (args : List Shared) (items : List Item)
    (fits : resolve args 0 parts = some items) (sink : Sink) :
    ∃ template text,
      Template.parse? (String.ofList (parts.flatMap Part.spelling)) = some template ∧
      template.render? (args.map Shared.value) = some text ∧
      let checked := writeChecked sink text
      let unchecked :=
        writeUnchecked sink (items.flatMap Item.directive) (directiveArguments items)
      checked.2 = unchecked.sink ∧
      ((∃ count, checked.1 = .ok count ∧ unchecked.answer = .ok count) ∨
        ∃ cause, checked.1 = .error (.writeFailure cause) ∧ unchecked.answer = .error cause) ∧
      unchecked.log = [] := by
  obtain ⟨template, hp, hr⟩ := pieces?_renders parts 0 fits
  refine ⟨template, items.flatMap Item.chars, ?_, hr, ?_⟩
  · rw [Template.parse?, String.toList_ofList, hp]
  have he : expand (directiveArguments items) 0 (items.flatMap Item.directive) = _ :=
    expand_directives items 0 rfl
  simp only [writeChecked, writeUnchecked, he]
  refine ⟨trivial, ?_, rfl⟩
  cases (writeLine sink (Utf8.encode (items.flatMap Item.chars))).1 with
  | ok count => exact .inl ⟨count, rfl, rfl⟩
  | error cause => exact .inr ⟨cause, rfl, rfl⟩

/-- `{1}%{}: {0}{{`, with a string that looks like a directive and a number, into a sink that is
full after four bytes: both conventions leave `-5%%` there, unflushed, and say so. -/
theorem conventions_agree_failing :
    let parts : List Part :=
      [.nth 1, .literal ['%'], .next, .literal [':', ' '], .nth 0, .literal ['\x7b']]
    let args : List Shared := [.text "%d", .integer (-5)]
    let items : List Item := [.argument (.integer (-5)), .literal ['%'], .argument (.text "%d"),
      .literal [':', ' '], .argument (.text "%d"), .literal ['\x7b']]
    let format : Bytes := [37, 100, 37, 37, 37, 115, 58, 32, 37, 115, 123]
    let sink : Sink := { limit := some 4, chunk := some 3, refusal := some .deviceFull }
    resolve args 0 parts = some items ∧ items.flatMap Item.directive = format ∧
      ∃ template text,
        Template.parse? (String.ofList (parts.flatMap Part.spelling)) = some template ∧
        template.render? (args.map Shared.value) = some text ∧
        let checked := writeChecked sink text
        let unchecked := writeUnchecked sink format (directiveArguments items)
        checked.1 = .error (.writeFailure .deviceFull) ∧ unchecked.answer = .error .deviceFull ∧
        checked.2 = unchecked.sink ∧ unchecked.sink.held = [45, 53, 37, 37] ∧
        unchecked.sink.flushes = 0 ∧ unchecked.log = [] := by
  intro parts args items format sink
  have fits : resolve args 0 parts = some items := by decide
  have hformat : items.flatMap Item.directive = format := by decide
  let line : Bytes := [45, 53, 37, 37, 100, 58, 32, 37, 100, 123]
  have htext : (expand (directiveArguments items) 0 format).text = line := by decide
  have hprogresses : sink.Progresses := by simp [sink, Sink.Progresses]
  have hfull : ¬ sink.Admits (line.length + 1) := by simp [Sink.Admits, sink, line]
  have hline := writeLine_of_not_admits hprogresses hfull
  have hanswer : (writeUnchecked sink format (directiveArguments items)).answer =
      .error .deviceFull := by
    simp only [writeUnchecked, htext, hline]
    rfl
  obtain ⟨template, text, hp, hr, hsame, hend, hlog⟩ := conventions_agree parts args items fits sink
  rw [hformat] at hsame hend hlog
  refine ⟨fits, hformat, template, text, hp, hr, ?_, hanswer, hsame, ?_, ?_, hlog⟩
  · obtain ⟨count, -, hcount⟩ | ⟨cause, hchecked, hcause⟩ := hend
    · rw [hanswer] at hcount
      cases hcount
    · rw [hanswer] at hcause
      cases hcause
      exact hchecked
  · simp only [writeUnchecked, htext, hline]
    rfl
  · simp only [writeUnchecked, htext, hline]
    rfl

end SupportLayer.Print
