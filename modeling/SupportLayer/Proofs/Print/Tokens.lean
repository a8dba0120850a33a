/-
# What a format prints, token by token

A format is read from left to right as tokens: a byte that is no percent sign, a percent sign
with the byte behind it, or a percent sign at the very end. There is one way to read a format
so (`reading_iff`), and what is printed is what each token prints by itself (`expand_tokens`).
A token that wants an argument prints that of the slot with its number among those that want
one, read as its letter says, or itself if the array has no such slot to offer; so the cursor of
`expand`, which stands still once the slots are used up, is the smaller of that number and the
slots there are. Slots and letters match one to one, in order: this is all that the types of the
arguments have to do with the format.

Key definitions: `Print.Token`, `Print.tokens`, `Print.Reading`, `Print.rendering`,
`Print.letters`, `Print.Arguments.Covered`.
Key theorems: `Print.reading_iff`, `Print.expand_tokens`, `Print.writeUnchecked_renders`.
-/
import Mathlib
import SupportLayer.Proofs.Sink

namespace SupportLayer.Print

/-- The count that goes with an array is no larger than the array. -/
def Arguments.Covered (args : Arguments) : Prop := ∀ slots ∈ args.slots, args.count ≤ slots.length

/-- The number of slots that a format may use. -/
def Arguments.usable (args : Arguments) : Nat :=
  match args.slots with
  | some _ => args.count
  | none => 0

/-- What slot `k` prints, read by `read`, if there is an array and the count covers the slot;
otherwise what stands in the format. -/
def Arguments.printed (args : Arguments) (k : Nat) (unfilled : Bytes) (read : Argument → Bytes) :
    Bytes :=
  match args.slots with
  | some slots => if k < args.count then (slots[k]?.map read).getD [] else unfilled
  | none => unfilled

/-- A token of a format. -/
inductive Token where
  | plain (b : UInt8)
  | directive (d : UInt8)
  | lone
  deriving DecidableEq, Repr

namespace Token

/-- The bytes that a token stands in a format with. -/
def spelling : Token → Bytes
  | plain b => [b]
  | directive d => [percent, d]
  | lone => [percent]

/-- What the token reads an argument as, if it is a directive for one. -/
def letter? : Token → Option Letter
  | directive d => Print.letter? d
  | _ => none

/-- The token is a directive for an argument. -/
def wants (t : Token) : Bool := t.letter?.isSome

theorem wants_directive {d : UInt8} {letter : Letter} (h : Print.letter? d = some letter) :
    (directive d).wants = true := by
  rw [wants, letter?, h, Option.isSome_some]

theorem wants_iff {t : Token} :
    t.wants = true ↔ ∃ d letter, t = directive d ∧ Print.letter? d = some letter := by
  rw [wants, Option.isSome_iff_exists]
  cases t <;> simp [letter?]

/-- What a token prints that has `k` before it that want an argument. -/
def rendering (args : Arguments) (k : Nat) : Token → Bytes
  | plain b => [b]
  | directive d =>
    if d = percent then [percent]
    else if d = letterS then args.printed k [percent, letterS] fun a => a.handle.contents
    else if d = letterD then
      args.printed k [percent, letterD] fun a => Utf8.encode (Decimal.integer a.value.toInt)
    else []
  | lone => []

/-- What a token is warned of for. -/
def warning? : Token → Option Warning
  | plain _ => none
  | directive d => if d = percent ∨ d = letterS ∨ d = letterD then none else some (.unknown d)
  | lone => some .dangling

end Token

/-- The tokens of a format. -/
def tokens : Bytes → List Token
  | [] => []
  | b :: rest =>
    if b = percent then
      match rest with
      | [] => [.lone]
      | d :: rest => .directive d :: tokens rest
    else .plain b :: tokens rest

/-- The grammar of formats: how a format is read as tokens from left to right. -/
inductive Reading : Bytes → List Token → Prop where
  | nil : Reading [] []
  | plain {b format ts} : b ≠ percent → Reading format ts → Reading (b :: format) (.plain b :: ts)
  | directive {d format ts} : Reading format ts →
      Reading (percent :: d :: format) (.directive d :: ts)
  | lone : Reading [percent] [.lone]

/-- The letters of the tokens that want an argument, in order. -/
def letters (ts : List Token) : List Letter := ts.filterMap Token.letter?

/-- What tokens print behind `k` others that want an argument. -/
def renderingFrom (args : Arguments) (k : Nat) (ts : List Token) : Bytes :=
  (ts.mapIdx fun i t => t.rendering args (k + (ts.take i).countP Token.wants)).flatten

/-- What tokens print: each by itself, one after the other. -/
def rendering (args : Arguments) (ts : List Token) : Bytes :=
  (ts.mapIdx fun i t => t.rendering args ((ts.take i).countP Token.wants)).flatten

/-! ### Reading a format -/

theorem tokens_plain {b : UInt8} (hb : b ≠ percent) (rest : Bytes) :
    tokens (b :: rest) = .plain b :: tokens rest := by
  rw [tokens.eq_def]
  exact if_neg hb

theorem tokens_directive (d : UInt8) (rest : Bytes) :
    tokens (percent :: d :: rest) = .directive d :: tokens rest := by
  rw [tokens, if_pos rfl]

theorem reading_tokens (format : Bytes) : Reading format (tokens format) := by
  fun_induction tokens format with
  | case1 => exact .nil
  | case2 => exact .lone
  | case3 d rest ih => exact .directive ih
  | case4 b rest hb ih => exact .plain hb ih

theorem Reading.eq_tokens {format : Bytes} {ts : List Token} (h : Reading format ts) :
    ts = tokens format := by
  induction h with
  | nil => rfl
  | plain hb _ ih => rw [tokens.eq_def, ih]; exact (if_neg hb).symm
  | directive _ ih => simp [tokens, ← ih]
  | lone => rfl

theorem reading_iff {format : Bytes} {ts : List Token} : Reading format ts ↔ ts = tokens format :=
  ⟨Reading.eq_tokens, fun h => h ▸ reading_tokens format⟩

/-! ### What tokens print -/

theorem rendering_eq_from (args : Arguments) (ts : List Token) :
    rendering args ts = renderingFrom args 0 ts := by
  simp [rendering, renderingFrom]

@[simp] theorem renderingFrom_nil (args : Arguments) (k : Nat) : renderingFrom args k [] = [] := rfl

theorem renderingFrom_cons (args : Arguments) (k : Nat) (t : Token) (ts : List Token) :
    renderingFrom args k (t :: ts) =
      t.rendering args k ++ renderingFrom args (if t.wants then k + 1 else k) ts := by
  unfold renderingFrom
  rw [List.mapIdx_cons, List.flatten_cons]
  have hcount : ∀ i, k + ((t :: ts).take (i + 1)).countP Token.wants =
      (if t.wants then k + 1 else k) + (ts.take i).countP Token.wants := by
    intro i
    rw [List.take_succ_cons, List.countP_cons]
    split <;> omega
  simp only [hcount, List.take_zero, List.countP_nil, Nat.add_zero]

theorem length_letters (ts : List Token) : (letters ts).length = ts.countP Token.wants :=
  List.length_filterMap_eq_countP

/-! ### The cursor of the slots -/

namespace Arguments

variable {args : Arguments}

theorem slot?_of_usable_le {n : Nat} (h : args.usable ≤ n) : args.slot? n = none := by
  unfold usable at h
  unfold slot?
  cases hs : args.slots with
  | none => rfl
  | some slots =>
    rw [hs] at h
    exact if_neg (by simpa using h)

/-- A directive for an argument prints what its slot holds, read as its letter says. -/
theorem rendering_letter {d : UInt8} {letter : Letter} (hl : letter? d = some letter) (k : Nat) :
    (Token.directive d).rendering args k = args.printed k [percent, d] (·.bytes letter) := by
  obtain rfl := eq_byte_of_letter? hl
  cases letter <;> rfl

theorem rendering_of_usable_le {d : UInt8} {letter : Letter} {k : Nat}
    (hl : letter? d = some letter) (h : args.usable ≤ k) :
    (Token.directive d).rendering args k = [percent, d] := by
  rw [rendering_letter hl]
  unfold usable at h
  unfold printed
  cases hs : args.slots with
  | none => rfl
  | some slots =>
    rw [hs] at h
    exact if_neg (by simpa using h)

theorem exists_slot? (hc : args.Covered) {d : UInt8} {letter : Letter} {k : Nat}
    (hl : letter? d = some letter) (h : k < args.usable) :
    ∃ a, args.slot? k = some a ∧ (Token.directive d).rendering args k = a.bytes letter := by
  rw [rendering_letter hl]
  unfold usable at h
  simp only [slot?, printed]
  cases hs : args.slots with
  | none => rw [hs] at h; simp at h
  | some slots =>
    rw [hs] at h
    have hk : k < slots.length := Nat.lt_of_lt_of_le h (hc slots hs)
    exact ⟨slots[k], by simp [h, hk]⟩

end Arguments

/-- Expansion is token by token. The format is expanded behind `k` tokens that want an
argument, so with the cursor at `k` or behind the last slot that may be used. -/
theorem expand_tokens {args : Arguments} (hc : args.Covered) (format : Bytes) (k : Nat) :
    expand args (min k args.usable) format =
      { text := renderingFrom args k (tokens format)
        warnings := (tokens format).filterMap Token.warning?
        reads := (List.range' (min k args.usable)
          (min (k + (tokens format).countP Token.wants) args.usable - min k args.usable)).zip
            (letters (tokens format)) } := by
  fun_induction tokens format generalizing k with
  | case1 => simp [expand]
  | case2 =>
    have hl : letters [.lone] = [] := rfl
    simp [expand, renderingFrom_cons, Token.rendering, Token.warning?, hl]
  | case3 d rest ih =>
    rw [renderingFrom_cons, List.countP_cons]
    by_cases hp : d = percent
    · subst hp
      have hw : (Token.directive percent).wants = false := by decide
      have hl : letters (.directive percent :: tokens rest) = letters (tokens rest) := rfl
      simp [expand_percent, ih k, hw, hl, Expansion.prepend, Token.rendering, Token.warning?]
    cases hd : letter? d with
    | some letter =>
      have hw : (Token.directive d).wants = true := Token.wants_directive hd
      have hl : letters (.directive d :: tokens rest) = letter :: letters (tokens rest) :=
        List.filterMap_cons_some hd
      have hq : Token.warning? (.directive d) = none := by
        obtain rfl := eq_byte_of_letter? hd
        cases letter <;> rfl
      have ih' := ih (k + 1)
      rw [List.filterMap_cons_none hq, hl, hw, if_pos rfl, if_pos rfl]
      rcases Nat.lt_or_ge k args.usable with hk | hk
      · -- the slot is there: the cursor goes on
        obtain ⟨a, ha, hr⟩ := Arguments.exists_slot? hc hd hk
        rw [Nat.min_eq_left (by omega)] at ih'
        rw [Nat.min_eq_left hk.le, expand_filled hd ha, ih', hr]
        have hlen : min (k + ((tokens rest).countP Token.wants + 1)) args.usable - k =
            min (k + 1 + (tokens rest).countP Token.wants) args.usable - (k + 1) + 1 := by omega
        rw [hlen, List.range'_succ]
        rfl
      · -- the slots are used up: the cursor stands still
        have hnone : min (k + 1 + (tokens rest).countP Token.wants) args.usable - args.usable = 0 :=
          Nat.sub_eq_zero_of_le (Nat.min_le_right _ _)
        have hnone' : min (k + ((tokens rest).countP Token.wants + 1)) args.usable - args.usable =
            0 := Nat.sub_eq_zero_of_le (Nat.min_le_right _ _)
        rw [Nat.min_eq_right (by omega), hnone] at ih'
        rw [Nat.min_eq_right hk, expand_unfilled hd (Arguments.slot?_of_usable_le le_rfl), ih',
          Arguments.rendering_of_usable_le hd hk, hnone']
        rfl
    | none =>
      have hw : (Token.directive d).wants = false := by
        rw [Token.wants, Token.letter?, hd, Option.isSome_none]
      have hl : letters (.directive d :: tokens rest) = letters (tokens rest) :=
        List.filterMap_cons_none hd
      have hne := letter?_eq_none_iff.mp hd
      have hq : Token.warning? (.directive d) = some (.unknown d) := by
        simp [Token.warning?, hp, hne]
      rw [expand_unknown hp hd, ih k, List.filterMap_cons_some hq, hl]
      simp [hw, hp, hne, Expansion.warn, Token.rendering]
  | case4 b rest hb ih =>
    have hw : (Token.plain b).wants = false := rfl
    have hl : letters (.plain b :: tokens rest) = letters (tokens rest) := rfl
    have hq : Token.warning? (.plain b) = none := rfl
    rw [hl, expand_plain hb, ih k, renderingFrom_cons, List.countP_cons, List.filterMap_cons_none hq]
    simp [hw, Expansion.prepend, Token.rendering]

/-! ### Writing the line -/

/-- **A format prints its tokens.** A sink that accepts the line gains what the tokens print
and a newline, and the answer is the length without it. Each token that begins no directive is
warned of, and the slots are read from the first on, as many as there are directives for them,
or slots to use, each as what the letter of its directive says. -/
theorem writeUnchecked_renders (sink : Sink) (format : Bytes) (args : Arguments)
    (hc : args.Covered) (accepting : sink.Accepts ((rendering args (tokens format)).length + 1)) :
    (∀ ts, Reading format ts ↔ ts = tokens format) ∧
      (writeUnchecked sink format args).answer = .ok (rendering args (tokens format)).length ∧
      (writeUnchecked sink format args).sink.held =
        sink.held ++ rendering args (tokens format) ++ [newline] ∧
      (writeUnchecked sink format args).log =
        ((tokens format).filterMap Token.warning?).map Warning.record ∧
      (∀ record ∈ (writeUnchecked sink format args).log, record.level = .warn) ∧
      (expand args 0 format).reads =
        (List.range (min ((tokens format).countP Token.wants) args.usable)).zip
          (letters (tokens format)) := by
  have he := expand_tokens hc format 0
  rw [Nat.zero_min, ← rendering_eq_from] at he
  refine ⟨fun ts => reading_iff, ?_, ?_, ?_, ?_, ?_⟩
  · simp only [writeUnchecked, he, writeLine_of_accepts accepting]
  · simp only [writeUnchecked, he, writeLine_of_accepts accepting]
  · simp only [writeUnchecked, he]
  · simp only [writeUnchecked, List.mem_map]
    rintro record ⟨w, -, rfl⟩
    cases w <;> rfl
  · rw [he, Nat.zero_add, Nat.sub_zero, List.range_eq_range']

/-- `%s=%d%%%q%s%` with the arguments `%s` and -7 prints `%s=-7%%s`, two bytes a call, after
three interrupted ones. -/
theorem writeUnchecked_renders_mixed :
    let args : Arguments := ⟨some [.text (.ofBytes [37, 115]), .integer (-7)], 2⟩
    let format : Bytes := [37, 115, 61, 37, 100, 37, 37, 37, 113, 37, 115, 37]
    let sink : Sink := { limit := some 10, chunk := some 2, interruptions := 3, held := [62] }
    args.Covered ∧ sink.Accepts ((rendering args (tokens format)).length + 1) ∧
      (writeUnchecked sink format args).answer = .ok 8 ∧
      (writeUnchecked sink format args).sink.held = [62, 37, 115, 61, 45, 55, 37, 37, 115, 10] ∧
      (writeUnchecked sink format args).log = [.unknownDirective 113, .danglingPercent] ∧
      (expand args 0 format).reads = [(0, .string), (1, .integer)] := by
  intro args format sink
  have hc : args.Covered := by simp [args, Arguments.Covered]
  have hlen : (rendering args (tokens format)).length = 8 := by decide
  have ha : sink.Accepts ((rendering args (tokens format)).length + 1) :=
    ⟨by simp [sink, Sink.Progresses],
      fun l hl => by simp [sink] at hl; simp [hlen, sink, hl.symm], rfl⟩
  obtain ⟨-, h1, h2, h3, -, h4⟩ := writeUnchecked_renders sink format args hc ha
  exact ⟨hc, ha, h1.trans (by decide), h2.trans (by decide), h3.trans (by decide),
    h4.trans (by decide)⟩

end SupportLayer.Print
