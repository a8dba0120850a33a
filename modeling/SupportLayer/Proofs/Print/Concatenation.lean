/-
# Formats concatenate

A percent sign takes the byte behind it along, so a format may be cut in two only where the scan
stands between two tokens. Whether it does at the end of a format is told by the percent signs
there: a directive takes them in pairs, so the scan is caught behind a lone one iff their number
is odd (`even_trailing_append` for a single token, then for the format). Where it may be cut, the
expansion of a format is that of its front, and behind it that of its back with the arguments
that the front left.

Key definitions: `Print.trailing`, `Print.Arguments.drop`, `Print.Arguments.left`,
`Print.Concatenates`.
Key theorems: `Print.even_trailing_append`, `Print.expand_append`, `Print.expand_drop`,
`Print.writeUnchecked_append`.
-/
import Mathlib
import SupportLayer.Proofs.Sink

namespace SupportLayer.Print

/-! ### The percent signs at the end -/

/-- How many percent signs a format ends in. -/
def trailing (format : Bytes) : ℕ := (format.rtakeWhile (· = percent)).length

theorem trailing_append (front back : Bytes) :
    trailing (front ++ back) =
      if ∀ b ∈ back, b = percent then trailing front + back.length else trailing back := by
  have hall : (back.reverse.takeWhile (· = percent)).length = back.reverse.length ↔
      ∀ b ∈ back, b = percent := by
    have hself : back.reverse.takeWhile (· = percent) = back.reverse ↔ ∀ b ∈ back, b = percent := by
      simp
    exact ⟨fun h => hself.mp ((List.takeWhile_prefix _).eq_of_length h),
      fun h => congrArg List.length (hself.mpr h)⟩
  unfold trailing List.rtakeWhile
  rw [List.length_reverse, List.length_reverse, List.length_reverse, List.reverse_append,
    List.takeWhile_append]
  by_cases h : ∀ b ∈ back, b = percent
  · rw [if_pos (hall.mpr h), if_pos h, List.length_append, List.length_reverse]
    exact Nat.add_comm ..
  · rw [if_neg (mt hall.mp h), if_neg h]

theorem trailing_eq_length {format : Bytes} (h : ∀ b ∈ format, b = percent) :
    trailing format = format.length := by
  have hself : format.rtakeWhile (· = percent) = format :=
    List.rtakeWhile_eq_self_iff.mpr (by simpa using h)
  rw [trailing, hself]

theorem trailing_concat_percent (front : Bytes) : trailing (front ++ [percent]) = trailing front + 1 := by
  rw [trailing_append, if_pos (by simp)]
  rfl

/-- The parity at the end is that of the back behind any front with an even number. -/
theorem even_trailing_append {front : Bytes} (h : Even (trailing front)) (back : Bytes) :
    Even (trailing (front ++ back)) ↔ Even (trailing back) := by
  rw [trailing_append]
  by_cases hall : ∀ b ∈ back, b = percent
  · rw [if_pos hall, trailing_eq_length hall, Nat.even_add]
    exact iff_true_left h
  · rw [if_neg hall]

theorem even_trailing_plain {b : UInt8} (hb : b ≠ percent) (rest : Bytes) :
    Even (trailing (b :: rest)) ↔ Even (trailing rest) := by
  have hone : trailing [b] = 0 := by simp [trailing, List.rtakeWhile, hb]
  have heven : Even (trailing [b]) := by
    rw [hone]
    decide
  exact even_trailing_append heven rest

/-- Behind a percent sign with the byte that it takes along, a second one or not. -/
theorem even_trailing_directive (d : UInt8) (rest : Bytes) :
    Even (trailing (percent :: d :: rest)) ↔ Even (trailing rest) := by
  have htwo : Even (trailing [percent, d]) := by
    by_cases hd : d = percent
    · subst hd
      decide
    · have hone : trailing [percent, d] = 0 := by simp [trailing, List.rtakeWhile, hd]
      rw [hone]
      decide
  exact even_trailing_append htwo rest

theorem not_even_trailing_lone : ¬ Even (trailing [percent]) := by decide

theorem exists_eq_concat_percent {format : Bytes} (h : Odd (trailing format)) :
    ∃ front, format = front ++ [percent] ∧ Even (trailing front) := by
  rcases List.eq_nil_or_concat format with rfl | ⟨front, b, rfl⟩
  · exact absurd h (by decide)
  · rw [List.concat_eq_append] at h ⊢
    have hb : b = percent := by
      by_contra hb
      have hzero : trailing (front ++ [b]) = 0 := by
        rw [trailing_append, if_neg (by simpa using hb)]
        simp [trailing, List.rtakeWhile, hb]
      rw [hzero] at h
      exact absurd h (by decide)
    subst hb
    rw [trailing_concat_percent, Nat.odd_add_one, Nat.not_odd_iff_even] at h
    exact ⟨front, rfl, h⟩

/-! ### The arguments that are left -/

namespace Arguments

/-- The arguments without those of the first `k` slots, and the count without them. -/
def drop (args : Arguments) (k : ℕ) : Arguments := ⟨args.slots.map (·.drop k), args.count - k⟩

theorem slot?_drop (args : Arguments) (k n : ℕ) : (args.drop k).slot? n = args.slot? (k + n) := by
  unfold drop slot?
  cases args.slots with
  | none => rfl
  | some slots =>
    have hcount : n < args.count - k ↔ k + n < args.count := by omega
    simp only [Option.map_some, List.getElem?_drop, hcount]

/-- The arguments that a format leaves: those behind the slots that it reads. -/
def left (args : Arguments) (format : Bytes) : Arguments :=
  args.drop (expand args 0 format).reads.length

end Arguments

/-! ### Expansions one behind the other -/

namespace Expansion

/-- One expansion, and another behind it. -/
instance : Append Expansion :=
  ⟨fun e e' => ⟨e.text ++ e'.text, e.warnings ++ e'.warnings, e.reads ++ e'.reads⟩⟩

/-- An expansion with its slots counted from slot `k`. -/
def shift (k : ℕ) (e : Expansion) : Expansion :=
  { e with reads := e.reads.map (Prod.map (k + ·) id) }

section

variable (e e' : Expansion)

@[simp] theorem text_append : (e ++ e').text = e.text ++ e'.text := rfl

@[simp] theorem warnings_append : (e ++ e').warnings = e.warnings ++ e'.warnings := rfl

@[simp] theorem reads_append : (e ++ e').reads = e.reads ++ e'.reads := rfl

theorem prepend_append (bytes : Bytes) : e.prepend bytes ++ e' = (e ++ e').prepend bytes := by
  show Expansion.mk _ _ _ = Expansion.mk _ _ _
  rw [prepend, List.append_assoc]
  rfl

theorem warn_append (w : Warning) : e.warn w ++ e' = (e ++ e').warn w := rfl

theorem consume_append (slot : ℕ) (letter : Letter) (a : Argument) :
    e.consume slot letter a ++ e' = (e ++ e').consume slot letter a := by
  show Expansion.mk _ _ _ = Expansion.mk _ _ _
  rw [consume, List.append_assoc]
  rfl

end

end Expansion

/-- The expansion of a format is that of its front and that of its back, if the front ends in
no lone percent sign: the back goes on with the slot behind those that the front read. -/
theorem expand_append {args : Arguments} {next : ℕ} {front : Bytes} (h : Even (trailing front))
    (back : Bytes) :
    expand args next (front ++ back) = expand args next front ++
      expand args (next + (expand args next front).reads.length) back := by
  fun_induction expand args next front with
  | case1 next => rfl
  | case2 next => exact absurd h not_even_trailing_lone
  | case3 next rest ih =>
    rw [even_trailing_directive] at h
    rw [List.cons_append, List.cons_append, expand_percent, ih h, Expansion.prepend_append]
    rfl
  | case4 next d rest hp letter hd hslot ih =>
    rw [even_trailing_directive] at h
    rw [List.cons_append, List.cons_append, expand_unfilled hd hslot, ih h,
      Expansion.prepend_append]
    rfl
  | case5 next d rest hp letter hd a hslot ih =>
    rw [even_trailing_directive] at h
    have hnext : next + ((expand args (next + 1) rest).consume next letter a).reads.length =
        next + 1 + (expand args (next + 1) rest).reads.length := by
      simp only [Expansion.consume, List.length_cons]
      omega
    rw [List.cons_append, List.cons_append, expand_filled hd hslot, ih h, hnext,
      Expansion.consume_append]
  | case6 next d rest hp hd ih =>
    rw [even_trailing_directive] at h
    rw [List.cons_append, List.cons_append, expand_unknown hp hd, ih h, Expansion.warn_append]
    rfl
  | case7 next b rest hb ih =>
    rw [even_trailing_plain hb] at h
    rw [List.cons_append, expand_plain hb, ih h, Expansion.prepend_append]
    rfl

theorem expand_drop (args : Arguments) (k n : ℕ) (format : Bytes) :
    expand args (k + n) format = (expand (args.drop k) n format).shift k := by
  fun_induction expand (args.drop k) n format with
  | case1 n => rfl
  | case2 n => rfl
  | case3 n rest ih => rw [expand_percent, ih]; rfl
  | case4 n d rest hp letter hd hslot ih =>
    rw [Arguments.slot?_drop] at hslot
    rw [expand_unfilled hd hslot, ih]
    rfl
  | case5 n d rest hp letter hd a hslot ih =>
    rw [Arguments.slot?_drop] at hslot
    rw [expand_filled hd hslot, Nat.add_assoc, ih]
    rfl
  | case6 n d rest hp hd ih => rw [expand_unknown hp hd, ih]; rfl
  | case7 n b rest hb ih => rw [expand_plain hb, ih]; rfl

/-! ### Formats in two parts -/

/-- What is printed for a format is what is printed for its front, and behind it what is printed
for its back with the arguments that the front left. -/
structure Concatenates (args : Arguments) (format front back : Bytes) : Prop where
  spelled : format = front ++ back
  text : (expand args 0 format).text =
    (expand args 0 front).text ++ (expand (args.left front) 0 back).text
  /-- The slots of the back are counted from the first one that the front left. -/
  reads : (expand args 0 format).reads = (expand args 0 front).reads ++
    (expand (args.left front) 0 back).reads.map
      (Prod.map ((expand args 0 front).reads.length + ·) id)
  log : ∀ sink, (writeUnchecked sink format args).log =
    (writeUnchecked sink front args).log ++ (writeUnchecked sink back (args.left front)).log
  /-- A sink that accepts the line of the format accepts the lines of its parts. -/
  printed : ∀ sink : Sink, sink.Accepts ((expand args 0 format).text.length + 1) →
    let first := (expand args 0 front).text
    let later := (expand (args.left front) 0 back).text
    (writeUnchecked sink front args).answer = .ok first.length ∧
    (writeUnchecked sink front args).sink.held = sink.held ++ first ++ [newline] ∧
    (writeUnchecked sink back (args.left front)).answer = .ok later.length ∧
    (writeUnchecked sink back (args.left front)).sink.held = sink.held ++ later ++ [newline] ∧
    (writeUnchecked sink format args).answer = .ok (first.length + later.length) ∧
    (writeUnchecked sink format args).sink.held = sink.held ++ (first ++ later) ++ [newline]

theorem concatenates {front : Bytes} (h : Even (trailing front)) (args : Arguments)
    (back : Bytes) : Concatenates args (front ++ back) front back := by
  have he : expand args 0 (front ++ back) = expand args 0 front ++
      (expand (args.left front) 0 back).shift (expand args 0 front).reads.length := by
    have hback := expand_drop args (expand args 0 front).reads.length 0 back
    rw [Nat.add_zero] at hback
    rw [expand_append h, Nat.zero_add, hback]
    rfl
  have htext : (expand args 0 (front ++ back)).text =
      (expand args 0 front).text ++ (expand (args.left front) 0 back).text := by
    rw [he]
    rfl
  refine ⟨rfl, htext, by rw [he]; rfl, ?_, ?_⟩
  · intro sink
    simp only [writeUnchecked, he, Expansion.warnings_append, List.map_append]
    rfl
  · intro sink accepting
    have hwhole := writeUnchecked_of_accepts accepting
    rw [htext, List.length_append] at accepting hwhole
    have hfront : sink.Accepts ((expand args 0 front).text.length + 1) :=
      accepting.mono (by omega)
    have hback : sink.Accepts ((expand (args.left front) 0 back).text.length + 1) :=
      accepting.mono (by omega)
    obtain ⟨hfirst, hfirst'⟩ := writeUnchecked_of_accepts hfront
    obtain ⟨hlater, hlater'⟩ := writeUnchecked_of_accepts hback
    exact ⟨hfirst, hfirst', hlater, hlater', hwhole.1, hwhole.2⟩

/-- **Formats concatenate.** If a format ends in an even number of percent signs, what is printed
for it with another behind it is what is printed for the one and then for the other, which finds
the arguments that the first one left. If their number is odd, the last one goes with the other
format. -/
theorem writeUnchecked_append (format more : Bytes) (args : Arguments) :
    (Even (trailing format) → Concatenates args (format ++ more) format more) ∧
      (Odd (trailing format) → ∃ front, format = front ++ [percent] ∧
        Concatenates args (format ++ more) front (percent :: more)) := by
  constructor
  · intro heven
    exact concatenates heven args more
  · intro hodd
    obtain ⟨front, rfl, heven⟩ := exists_eq_concat_percent hodd
    refine ⟨front, rfl, ?_⟩
    rw [List.append_assoc, List.singleton_append]
    exact concatenates heven args (percent :: more)

/-- `%s%%` with `d%d` behind it is cut between the two; of `%s%` with `d` behind it the last byte
goes with the `d`. Both fronts leave the second argument. -/
theorem writeUnchecked_append_cut :
    let args : Arguments := ⟨some [.text (.ofBytes [120]), .integer (-7)], 2⟩
    let paired : Bytes := [37, 115, 37, 37]
    let lone : Bytes := [37, 115, 37]
    Even (trailing paired) ∧ Odd (trailing lone) ∧
      Concatenates args (paired ++ [100, 37, 100]) paired [100, 37, 100] ∧
      args.left paired = ⟨some [.integer (-7)], 1⟩ ∧
      (expand args 0 (paired ++ [100, 37, 100])).text = [120, 37] ++ [100, 45, 55] ∧
      ∃ front, lone = front ++ [percent] ∧ Concatenates args (lone ++ [100]) front [37, 100] ∧
        args.left front = ⟨some [.integer (-7)], 1⟩ ∧
        (expand args 0 (lone ++ [100])).text = [120] ++ [45, 55] := by
  intro args paired lone
  have heven : Even (trailing paired) := by decide
  have hodd : Odd (trailing lone) := by decide
  have hpaired := (writeUnchecked_append paired [100, 37, 100] args).1 heven
  obtain ⟨front, hfront, hlone⟩ := (writeUnchecked_append lone [100] args).2 hodd
  obtain rfl : front = [37, 115] := List.append_cancel_right hfront.symm
  exact ⟨heven, hodd, hpaired, rfl, hpaired.text.trans (by decide), [37, 115], hfront, hlone, rfl,
    hlone.text.trans (by decide)⟩

end SupportLayer.Print
