/-
# Every byte of a format is accounted for

What a byte of a format comes to is told by the count and the log together: a directive gives two
bytes for its argument's, a doubled percent sign two for one, an unknown directive two for a
warning, and a lone percent sign one for a warning; all else is printed as it stands. So the two
lengths balance, and the difference is made up of what was read and what was warned of
(`expand_balance`). A lone percent sign can only be the last token, and it is there iff the
percent signs at the end are odd in number.

Key definitions: `LogRecord.directive?`, `Print.consumed`, `Print.Expansion.log`,
`Print.Balances`.
Key theorems: `Print.expand_balance`, `Print.length_consumed`, `Print.dangling_notMem`,
`Print.exists_dangling_last`, `Print.gained_of_writeUnchecked`,
`Print.writeUnchecked_accounts`.
-/
import Mathlib
import SupportLayer.Proofs.Print.Concatenation
import SupportLayer.Proofs.Print.Tokens

namespace SupportLayer

/-- The byte that a record of an unknown directive gives. -/
def LogRecord.directive? : LogRecord → Option UInt8
  | unknownDirective byte => some byte
  | _ => none

namespace Print

/-- What an expansion logs. -/
def Expansion.log (e : Expansion) : List LogRecord := e.warnings.map Warning.record

/-- What the arguments print that an expansion reads, in their order. -/
def consumed (args : Arguments) (e : Expansion) : List Bytes :=
  e.reads.filterMap fun read => (args.slot? read.1).map (·.bytes read.2)

/-- The length of a format is that of its text, but for the arguments' bytes and for what each
token adds or takes away. -/
def Balances (args : Arguments) (format : Bytes) (e : Expansion) : Prop :=
  format.length + ((consumed args e).map List.length).sum =
    e.text.length + (tokens format).count (.directive percent) + 2 * (consumed args e).length +
      2 * (e.log.filterMap LogRecord.directive?).length + e.log.count .danglingPercent

section

variable (e e' : Expansion)

theorem Expansion.log_prepend (bytes : Bytes) : (e.prepend bytes).log = e.log := rfl

theorem Expansion.log_consume (slot : ℕ) (letter : Letter) (a : Argument) :
    (e.consume slot letter a).log = e.log := rfl

theorem Expansion.log_append : (e ++ e').log = e.log ++ e'.log := List.map_append

theorem consumed_prepend (args : Arguments) (bytes : Bytes) :
    consumed args (e.prepend bytes) = consumed args e := rfl

theorem consumed_warn (args : Arguments) (w : Warning) :
    consumed args (e.warn w) = consumed args e := rfl

end

theorem consumed_consume {args : Arguments} {slot : ℕ} {a : Argument}
    (h : args.slot? slot = some a) (letter : Letter) (e : Expansion) :
    consumed args (e.consume slot letter a) = a.bytes letter :: consumed args e :=
  List.filterMap_cons_some (by rw [h, Option.map_some])

theorem count_directive {d : UInt8} (hd : d ≠ percent) (rest : Bytes) :
    (tokens (percent :: d :: rest)).count (.directive percent) =
      (tokens rest).count (.directive percent) := by
  rw [tokens_directive]
  exact List.count_cons_of_ne (fun h => hd (Token.directive.inj h))

/-! ### The balance -/

/-- The lengths balance, token by token. -/
theorem expand_balance (args : Arguments) (next : ℕ) (format : Bytes) :
    Balances args format (expand args next format) := by
  fun_induction expand args next format with
  | case1 next => rfl
  | case2 next => rfl
  | case3 next rest ih =>
    -- two bytes for one
    have htext : ((expand args next rest).prepend [percent]).text.length =
        (expand args next rest).text.length + 1 := List.length_cons
    unfold Balances at ih ⊢
    rw [tokens_directive, List.count_cons_self, htext, consumed_prepend, Expansion.log_prepend]
    simp only [List.length_cons]
    omega
  | case4 next d rest hp letter hd hslot ih =>
    -- two bytes as they stand
    have htext : ((expand args next rest).prepend [percent, d]).text.length =
        (expand args next rest).text.length + 2 := rfl
    unfold Balances at ih ⊢
    rw [count_directive hp, htext, consumed_prepend, Expansion.log_prepend]
    simp only [List.length_cons]
    omega
  | case5 next d rest hp letter hd a hslot ih =>
    -- two bytes for those of an argument
    have htext : ((expand args (next + 1) rest).consume next letter a).text.length =
        (a.bytes letter).length + (expand args (next + 1) rest).text.length := List.length_append
    unfold Balances at ih ⊢
    rw [count_directive hp, htext, consumed_consume hslot, Expansion.log_consume]
    simp only [List.length_cons, List.map_cons, List.sum_cons]
    omega
  | case6 next d rest hp hd ih =>
    -- two bytes for a warning
    have hlog : ((expand args next rest).warn (.unknown d)).log =
        .unknownDirective d :: (expand args next rest).log := rfl
    have hunknown : (((expand args next rest).warn (.unknown d)).log.filterMap
        LogRecord.directive?).length =
          ((expand args next rest).log.filterMap LogRecord.directive?).length + 1 := rfl
    have hdangling : ((expand args next rest).warn (.unknown d)).log.count .danglingPercent =
        (expand args next rest).log.count .danglingPercent := by
      rw [hlog, List.count_cons_of_ne (by simp)]
    unfold Balances at ih ⊢
    rw [count_directive hp, hunknown, hdangling, consumed_warn]
    show rest.length + 2 + _ = (expand args next rest).text.length + _ + _ + _ + _
    omega
  | case7 next b rest hb ih =>
    -- a byte as it stands
    have htext : ((expand args next rest).prepend [b]).text.length =
        (expand args next rest).text.length + 1 := List.length_cons
    have hcount : (tokens (b :: rest)).count (.directive percent) =
        (tokens rest).count (.directive percent) := by
      rw [tokens_plain hb, List.count_cons_of_ne (by simp)]
    unfold Balances at ih ⊢
    rw [hcount, htext, consumed_prepend, Expansion.log_prepend]
    simp only [List.length_cons]
    omega

theorem length_consumed (args : Arguments) (next : ℕ) (format : Bytes) :
    (consumed args (expand args next format)).length = (expand args next format).reads.length := by
  fun_induction expand args next format with
  | case1 next => rfl
  | case2 next => rfl
  | case3 next rest ih => exact ih
  | case4 next d rest hp letter hd hslot ih => exact ih
  | case5 next d rest hp letter hd a hslot ih =>
    rw [consumed_consume hslot]
    exact congrArg (· + 1) ih
  | case6 next d rest hp hd ih => exact ih
  | case7 next b rest hb ih => exact ih

/-- As many arguments are consumed as there are directives for them, or slots to use. -/
theorem length_consumed_eq_min {args : Arguments} (hc : args.Covered) (format : Bytes) :
    (consumed args (expand args 0 format)).length =
      min args.usable ((tokens format).countP Token.wants) := by
  have he := expand_tokens hc format 0
  rw [Nat.zero_min] at he
  have hletters : (letters (tokens format)).length = (tokens format).countP Token.wants :=
    length_letters _
  rw [length_consumed, he, List.length_zip, List.length_range', hletters]
  omega

/-! ### The lone percent sign -/

theorem dangling_notMem {args : Arguments} {next : ℕ} {format : Bytes}
    (h : Even (trailing format)) : .danglingPercent ∉ (expand args next format).log := by
  fun_induction expand args next format with
  | case1 next => exact List.not_mem_nil
  | case2 next => exact absurd h not_even_trailing_lone
  | case3 next rest ih => exact ih ((even_trailing_directive _ rest).mp h)
  | case4 next d rest hp letter hd hslot ih => exact ih ((even_trailing_directive d rest).mp h)
  | case5 next d rest hp letter hd a hslot ih => exact ih ((even_trailing_directive d rest).mp h)
  | case6 next d rest hp hd ih =>
    have hrest := ih ((even_trailing_directive d rest).mp h)
    exact List.not_mem_cons_of_ne_of_not_mem (by simp [Warning.record]) hrest
  | case7 next b rest hb ih => exact ih ((even_trailing_plain hb rest).mp h)

/-- The lone percent sign at the end is what is warned of last. -/
theorem exists_dangling_last (args : Arguments) (next : ℕ) {format : Bytes}
    (h : Odd (trailing format)) : ∃ front, .danglingPercent ∉ front ∧
      (expand args next format).log = front ++ [.danglingPercent] := by
  obtain ⟨front, rfl, heven⟩ := exists_eq_concat_percent h
  refine ⟨(expand args next front).log, dangling_notMem heven, ?_⟩
  rw [expand_append heven, Expansion.log_append]
  rfl

theorem dangling_mem_iff (args : Arguments) (next : ℕ) (format : Bytes) :
    .danglingPercent ∈ (expand args next format).log ↔ Odd (trailing format) := by
  constructor
  · intro h
    by_contra hodd
    exact dangling_notMem (Nat.not_odd_iff_even.mp hodd) h
  · intro h
    obtain ⟨front, -, hlast⟩ := exists_dangling_last args next h
    rw [hlast]
    exact List.mem_append_right front List.mem_cons_self

theorem dangling_last {args : Arguments} {next : ℕ} {format : Bytes} {before after : List LogRecord}
    (h : (expand args next format).log = before ++ .danglingPercent :: after) :
    .danglingPercent ∉ before ∧ after = [] := by
  have hmem : .danglingPercent ∈ (expand args next format).log := by
    rw [h]
    exact List.mem_append_right before List.mem_cons_self
  obtain ⟨front, hnone, hlast⟩ := exists_dangling_last args next ((dangling_mem_iff ..).mp hmem)
  rw [hlast] at h
  rcases List.eq_nil_or_concat after with rfl | ⟨more, r, rfl⟩
  · obtain rfl : front = before := List.append_cancel_right h
    exact ⟨hnone, rfl⟩
  · -- the one that is given would be in front of the last one
    rw [List.concat_eq_append, ← List.cons_append, ← List.append_assoc] at h
    have hfront : front = before ++ .danglingPercent :: more := (List.append_inj' h rfl).1
    refine absurd ?_ hnone
    rw [hfront]
    exact List.mem_append_right before List.mem_cons_self

/-! ### The account of a print -/

/-- A print that succeeds answers the length of its text, and the sink has gained the text and a
newline. -/
theorem gained_of_writeUnchecked {sink : Sink} {format : Bytes} {args : Arguments} {count : ℕ}
    (h : (writeUnchecked sink format args).answer = .ok count) :
    count = (expand args 0 format).text.length ∧
      (writeUnchecked sink format args).sink.held =
        sink.held ++ (expand args 0 format).text ++ [newline] :=
  gained_of_writeLine h

/-- **Every byte of a format is accounted for.** The bytes of the format and of the arguments
that are consumed are those that the print answers for, which the sink has gained in front of a
newline, and one for each doubled percent sign, two for each argument, two for each unknown
directive that is warned of, and one for a lone percent sign. The lone percent sign is warned of iff the percent signs at the end are odd in
number, once and last. As many arguments are consumed as there are directives for them, or as the
count admits. -/
theorem writeUnchecked_accounts (sink : Sink) (format : Bytes) (args : Arguments) :
    let printed := writeUnchecked sink format args
    let read := consumed args (expand args 0 format)
    (sink.Accepts ((expand args 0 format).text.length + 1) →
        ∃ count, printed.answer = .ok count) ∧
      (∀ count, printed.answer = .ok count →
        (∃ text, printed.sink.held = sink.held ++ text ++ [newline] ∧ text.length = count) ∧
        format.length + (read.map List.length).sum =
          count + (tokens format).count (.directive percent) + 2 * read.length +
            2 * (printed.log.filterMap LogRecord.directive?).length +
              printed.log.count .danglingPercent) ∧
      (.danglingPercent ∈ printed.log ↔ Odd (trailing format)) ∧
      (∀ before after, printed.log = before ++ .danglingPercent :: after →
        .danglingPercent ∉ before ∧ after = []) ∧
      (args.Covered → read.length = min args.usable ((tokens format).countP Token.wants)) := by
  intro printed read
  have hlog : printed.log = (expand args 0 format).log := rfl
  refine ⟨?_, ?_, ?_, ?_, ?_⟩
  · intro accepting
    exact ⟨_, (writeUnchecked_of_accepts accepting).1⟩
  · intro count hcount
    obtain ⟨rfl, hheld⟩ := gained_of_writeUnchecked hcount
    exact ⟨⟨_, hheld, rfl⟩, hlog ▸ expand_balance args 0 format⟩
  · rw [hlog]
    exact dangling_mem_iff args 0 format
  · intro before after hsplit
    exact dangling_last (hlog.symm.trans hsplit)
  · intro hc
    exact length_consumed_eq_min hc format

/-- `%s%%%q%d%s%` with two arguments and room for the line: eleven bytes and three of arguments,
of which six are printed. -/
theorem writeUnchecked_accounts_mixed :
    let format : Bytes := [37, 115, 37, 37, 37, 113, 37, 100, 37, 115, 37]
    let args : Arguments := ⟨some [.text (.ofBytes [37]), .integer (-7)], 2⟩
    let sink : Sink := { chunk := some 2, interruptions := 1 }
    let printed := writeUnchecked sink format args
    args.Covered ∧ sink.Accepts ((expand args 0 format).text.length + 1) ∧
      printed.answer = .ok 6 ∧ printed.sink.held.length = 7 ∧
      printed.log = [.unknownDirective 113, .danglingPercent] ∧
      format.length + 3 = 6 + 1 + 2 * 2 + 2 * 1 + 1 ∧ Odd (trailing format) ∧
      (consumed args (expand args 0 format)).length = 2 := by
  intro format args sink printed
  have hc : args.Covered := by simp [args, Arguments.Covered]
  have htext : (expand args 0 format).text.length = 6 := by decide
  have ha : sink.Accepts ((expand args 0 format).text.length + 1) :=
    ⟨by simp [sink, Sink.Progresses], by simp [sink], rfl⟩
  obtain ⟨hok, hbalance, hdangling, -, hread⟩ := writeUnchecked_accounts sink format args
  obtain ⟨count, hcount⟩ := hok ha
  obtain ⟨⟨text, hheld, rfl⟩, hsum⟩ := hbalance count hcount
  have hsix : text.length = 6 := (gained_of_writeUnchecked hcount).1.trans htext
  rw [hsix] at hcount hsum
  have hlog : printed.log = [.unknownDirective 113, .danglingPercent] := by decide
  exact ⟨hc, ha, hcount, by rw [hheld]; simp [sink, hsix], hlog, hsum, hdangling.mp (by rw [hlog]; decide),
    (hread hc).trans (by decide)⟩

end Print

end SupportLayer
