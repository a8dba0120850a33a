/-
# Strings with more text behind them

The readers of characters and strings look no further than they read, up to a closing mark, with
two exceptions: a run of blanks or of characters of one kind ends where another character stands,
and quotes that close a string may be followed by one or two that belong to it. A line feed goes
on none of these runs. So with a line feed and anything else behind a text, the same is read of it
and that much more is left (`Extends`).

Where a text ends, a line ends too. With more behind it, the line ends at the line feed instead,
and then what is left is what stands behind that (`Continues`).

Strings on several lines are read by one function in five states; it is opened by one equation for
each state, and the cases of each equation are carried over by one lemma for each kind of branch.

Key definitions: `Toml.Extends`, `Toml.Continues`, `Toml.behind`.
Key theorems: `Toml.lineEnd?_append`, `Toml.skipFiller_append`, `Toml.basicText?_append`,
`Toml.multilineBasic?_append`, `Toml.text?_append`.
-/
import Mathlib
import SupportLayer.Toml.Text

namespace SupportLayer.Toml

variable {s r u : List Char}

/-! ### Characters -/

theorem takeWhile_append_newline {p : Char → Bool} (hp : p '\n' = false) :
    ∀ s : List Char, (s ++ '\n' :: u).takeWhile p = s.takeWhile p
  | [] => by rw [List.nil_append, List.takeWhile_cons, hp]; rfl
  | c :: s => by
    rw [List.cons_append, List.takeWhile_cons, List.takeWhile_cons, takeWhile_append_newline hp s]

theorem dropWhile_append_newline {p : Char → Bool} (hp : p '\n' = false) :
    ∀ s : List Char, (s ++ '\n' :: u).dropWhile p = s.dropWhile p ++ '\n' :: u
  | [] => by rw [List.nil_append, List.dropWhile_cons, hp]; rfl
  | c :: s => by
    rw [List.cons_append, List.dropWhile_cons, List.dropWhile_cons, dropWhile_append_newline hp s]
    split <;> rfl

theorem skipBlanks_append (s : List Char) :
    skipBlanks (s ++ '\n' :: u) = skipBlanks s ++ '\n' :: u :=
  dropWhile_append_newline (by decide) s

theorem skipComment_append : ∀ s : List Char,
    skipComment (s ++ '\n' :: u) = skipComment s ++ '\n' :: u
  | [] => rfl
  | c :: s => by
    by_cases hc : c = '#'
    · subst hc
      exact dropWhile_append_newline (by decide) s
    · rw [List.cons_append, skipComment.eq_2, skipComment.eq_2] <;> simp [hc]

theorem newline?_append (h : newline? s = some r) (t : List Char) :
    newline? (s ++ t) = some (r ++ t) := by
  unfold newline? at h
  split at h
  · cases h
    rfl
  · cases h
    rfl
  · cases h

/-- What is left behind the end of a line where `r` was left: that much more or, if the line ended
with the text, what stands behind the line feed. -/
inductive Continues (u r : List Char) : List Char → Prop
  | more : Continues u r (r ++ '\n' :: u)
  | ended : r = [] → Continues u r u

theorem lineEnd?_append (h : lineEnd? s = some r) :
    ∃ r', lineEnd? (s ++ '\n' :: u) = some r' ∧ Continues u r r' := by
  unfold lineEnd? at h ⊢
  rw [skipBlanks_append, skipComment_append]
  generalize skipComment (skipBlanks s) = left at h
  cases left with
  | nil =>
    cases h
    exact ⟨u, rfl, .ended rfl⟩
  | cons c left =>
    exact ⟨_, newline?_append h _, .more⟩

/-- A character that neither ends a line nor starts what does is looked at by itself. -/
theorem skipFiller_cons_append (inComment : Bool) {c : Char} {s : List Char} (hc : c ≠ '\n')
    (hreturn : ∀ rest, c = '\r' → s ≠ '\n' :: rest) (hlone : c :: s ≠ ['\r']) :
    skipFiller inComment (c :: s ++ '\n' :: u) =
      if inComment then
        if isTextual c then skipFiller true (s ++ '\n' :: u) else c :: s ++ '\n' :: u
      else if isBlank c then skipFiller false (s ++ '\n' :: u)
      else if c = '#' then skipFiller true (s ++ '\n' :: u)
      else c :: s ++ '\n' :: u := by
  rw [List.cons_append, skipFiller]
  · exact hc
  · intro rest hcr heq
    cases s with
    | nil => exact hlone (by rw [hcr])
    | cons d s =>
      rw [List.cons_append, List.cons.injEq] at heq
      exact hreturn s hcr (by rw [heq.1])

/-- What may stand between items is skipped as before, unless the text ended there: a carriage
return that was its last character would now belong to an end of line. -/
theorem skipFiller_append (inComment : Bool) (s : List Char)
    (hnil : skipFiller inComment s ≠ []) (hlone : skipFiller inComment s ≠ ['\r']) :
    skipFiller inComment (s ++ '\n' :: u) = skipFiller inComment s ++ '\n' :: u := by
  fun_induction skipFiller inComment s with
  | case1 => exact absurd rfl hnil
  | case2 b rest ih => exact ih hnil hlone
  | case3 b rest ih => exact ih hnil hlone
  | case4 c rest hc hreturn htextual ih =>
    have hne : c :: rest ≠ ['\r'] := by
      rintro ⟨⟩
      cases htextual
    rw [skipFiller_cons_append true hc hreturn hne, if_pos rfl, if_pos htextual, ih hnil hlone]
  | case5 c rest hc hreturn htextual =>
    rw [skipFiller_cons_append true hc hreturn hlone, if_pos rfl, if_neg htextual]
  | case6 b c rest hc hreturn hb hblank ih =>
    have hne : c :: rest ≠ ['\r'] := by
      rintro ⟨⟩
      cases hblank
    rw [skipFiller_cons_append b hc hreturn hne, if_neg hb, if_pos hblank, ih hnil hlone]
  | case7 b rest hb hc hreturn hblank ih =>
    rw [skipFiller_cons_append b hc hreturn (by simp), if_neg hb, if_neg hblank, if_pos rfl,
      ih hnil hlone]
  | case8 b c rest hc hreturn hb hblank hhash =>
    rw [skipFiller_cons_append b hc hreturn hlone, if_neg hb, if_neg hblank, if_neg hhash]

/-! ### Strings -/

/-- What is read of a text is read, moved, of the text with `t` behind it, and leaves `t` too. -/
def Extends {α : Type} (move : α → α) (t : List Char) (read read' : Option (α × List Char)) :
    Prop :=
  ∀ x r, read = some (x, r) → read' = some (move x, r ++ t)

variable {α : Type} {move : α → α} {t : List Char}

/-- What is read behind a line feed that has to stand here. -/
def behind {α : Type} (read : List Char → Option α) : List Char → Option α
  | '\n' :: rest => read rest
  | _ => none

theorem extends_none {read' : Option (α × List Char)} : Extends move t none read' := by
  intro x r h
  cases h

theorem extends_some {x : α} : Extends move t (some (x, r)) (some (move x, r ++ t)) := by
  intro x r h
  cases h
  rfl

theorem Extends.withChar {read read' : Option (List Char × List Char)} (h : Extends id t read read')
    (c : Char) : Extends id t (withChar c read) (withChar c read') := by
  intro x r hread
  obtain ⟨⟨x, r⟩, hx, heq⟩ := Option.map_eq_some_iff.mp hread
  cases heq
  rw [Toml.withChar, h x r hx]
  rfl

theorem basicText?_append (state : Reading) (s : List Char) :
    Extends id t (basicText? state s) (basicText? state (s ++ t)) := by
  fun_induction basicText? state s with
  | case1 | case4 | case5 | case7 | case12 => exact extends_none
  | case2 c rest n hlong ih => simpa only [List.cons_append, basicText?, hlong] using ih
  | case3 c rest x hshort hlong ih =>
    simpa only [List.cons_append, basicText?, hshort, hlong] using ih.withChar x
  | case6 left value c rest d hdigit hleft x hx ih =>
    simpa only [List.cons_append, basicText?, hdigit, if_pos hleft, hx] using ih.withChar x
  | case8 left value c rest d hdigit hleft ih =>
    simpa only [List.cons_append, basicText?, hdigit, if_neg hleft] using ih
  | case9 state rest hbackslash hcode =>
    rw [List.cons_append, basicText?, if_pos rfl]
    · exact extends_some
    · exact hbackslash
    · exact hcode
  | case10 state rest hbackslash hcode hquote ih =>
    rw [List.cons_append, basicText?, if_neg hquote, if_pos rfl]
    · exact ih
    · exact hbackslash
    · exact hcode
  | case11 state c rest hbackslash hcode hquote hescape htextual ih =>
    rw [List.cons_append, basicText?, if_neg hquote, if_neg hescape, if_pos htextual]
    · exact ih.withChar c
    · exact hbackslash
    · exact hcode

theorem literalText?_append (s : List Char) :
    Extends id t (literalText? s) (literalText? (s ++ t)) := by
  fun_induction literalText? s with
  | case1 | case4 => exact extends_none
  | case2 rest =>
    rw [List.cons_append, literalText?, if_pos rfl]
    exact extends_some
  | case3 c rest hquote htextual ih =>
    rw [List.cons_append, literalText?, if_neg hquote, if_pos htextual]
    exact ih.withChar c

/-- With a line feed behind a text no more quotes stand in a row. -/
theorem tripleQuote?_append {quote : Char} (hquote : quote ≠ '\n') : ∀ s : List Char,
    tripleQuote? quote (s ++ '\n' :: u) = (tripleQuote? quote s).map (· ++ '\n' :: u)
  | [] => by
    rcases u with _ | ⟨b, _ | ⟨c, u⟩⟩ <;> simp [tripleQuote?, hquote.symm]
  | [a] => by
    rcases u with _ | ⟨b, u⟩ <;> simp [tripleQuote?, hquote.symm]
  | [a, b] => by simp [tripleQuote?, hquote.symm]
  | a :: b :: c :: s => by
    simp only [List.cons_append, tripleQuote?]
    split <;> rfl

theorem closing_append {quote : Char} (hquote : quote ≠ '\n') : ∀ s : List Char,
    closing quote (s ++ '\n' :: u) = ((closing quote s).1, (closing quote s).2 ++ '\n' :: u)
  | [] => by
    rcases u with _ | ⟨b, u⟩ <;> simp [closing, hquote.symm]
  | [a] => by
    simp only [List.cons_append, List.nil_append, closing, hquote.symm, if_false]
    split <;> rfl
  | a :: b :: s => by
    simp only [List.cons_append, closing]
    split
    · split <;> rfl
    · rfl

/-- Three quotes close a string, and else what starts with one goes on. -/
theorem extends_quotes {quote : Char} (hquote : quote ≠ '\n') (s : List Char)
    {read read' : Option (List Char × List Char)} (hread : Extends id ('\n' :: u) read read') :
    Extends id ('\n' :: u)
      (match tripleQuote? quote s with
        | some rest => some (closing quote rest)
        | none => read)
      (match tripleQuote? quote (s ++ '\n' :: u) with
        | some rest => some (closing quote rest)
        | none => read') := by
  rw [tripleQuote?_append hquote]
  cases tripleQuote? quote s with
  | none => exact hread
  | some rest =>
    simp only [Option.map_some, closing_append hquote]
    exact extends_some

theorem extends_ite {p : Prop} [Decidable p] {yes yes' no no' : Option (α × List Char)}
    (hyes : Extends move t yes yes') (hno : Extends move t no no') :
    Extends move t (if p then yes else no) (if p then yes' else no') := by
  split
  · exact hyes
  · exact hno

/-- What is read behind a line feed that has to stand here. -/
theorem extends_behind {read : List Char → Option (α × List Char)} : ∀ {s : List Char},
    (∀ rest, rest.length < s.length → Extends move t (read rest) (read (rest ++ t))) →
      Extends move t (behind read s) (behind read (s ++ t))
  | [], _ => extends_none
  | c :: rest, hread => by
    by_cases hc : c = '\n'
    · subst hc
      exact hread rest (Nat.lt_succ_self _)
    · rw [behind.eq_2]
      · exact extends_none
      · intro rest' he
        exact hc (List.cons.inj he).1


theorem multilineLiteral?_cons (c : Char) (rest : List Char) : multilineLiteral? (c :: rest) =
    if c = '\n' then withChar '\n' (multilineLiteral? rest)
    else if c = '\r' then behind (fun rest => withChar '\n' (multilineLiteral? rest)) rest
    else if c = '\'' then
      match tripleQuote? '\'' (c :: rest) with
      | some rest => some (closing '\'' rest)
      | none => withChar '\'' (multilineLiteral? rest)
    else if isTextual c then withChar c (multilineLiteral? rest)
    else none := by
  rw [multilineLiteral?.eq_def]
  rfl

theorem multilineLiteral?_append : ∀ s : List Char,
    Extends id ('\n' :: u) (multilineLiteral? s) (multilineLiteral? (s ++ '\n' :: u))
  | [] => extends_none
  | c :: rest => by
    have ih := multilineLiteral?_append rest
    rw [List.cons_append, multilineLiteral?_cons, multilineLiteral?_cons]
    refine extends_ite (ih.withChar _) (extends_ite (extends_behind fun rest' hrest' => ?_)
      (extends_ite (extends_quotes (by decide) (c :: rest) (ih.withChar _))
        (extends_ite (ih.withChar c) extends_none)))
    exact (multilineLiteral?_append rest').withChar _
termination_by s => s.length
decreasing_by all_goals grind

theorem multilineBasic?_backslash (c : Char) (rest : List Char) :
    multilineBasic? .backslash (c :: rest) =
    match longEscape? c, shortEscape? c with
    | some n, _ => multilineBasic? (.code n 0) rest
    | none, some x => withChar x (multilineBasic? .text rest)
    | none, none =>
      if isBlank c then multilineBasic? .lineBreak rest
      else if c = '\n' then multilineBasic? .trimming rest
      else if c = '\r' then behind (multilineBasic? .trimming) rest
      else none :=
  multilineBasic?.eq_def _ _

theorem multilineBasic?_code (left value : ℕ) (c : Char) (rest : List Char) :
    multilineBasic? (.code left value) (c :: rest) =
    match hexDigit? c with
    | none => none
    | some d =>
      if left ≤ 1 then
        match scalarValue? (16 * value + d) with
        | some x => withChar x (multilineBasic? .text rest)
        | none => none
      else multilineBasic? (.code (left - 1) (16 * value + d)) rest :=
  multilineBasic?.eq_def _ _

theorem multilineBasic?_lineBreak (c : Char) (rest : List Char) :
    multilineBasic? .lineBreak (c :: rest) =
    if isBlank c then multilineBasic? .lineBreak rest
    else if c = '\n' then multilineBasic? .trimming rest
    else if c = '\r' then behind (multilineBasic? .trimming) rest
    else none :=
  multilineBasic?.eq_def _ _

theorem multilineBasic?_text (c : Char) (rest : List Char) : multilineBasic? .text (c :: rest) =
    if c = '\n' then withChar '\n' (multilineBasic? .text rest)
    else if c = '\r' then behind (fun rest => withChar '\n' (multilineBasic? .text rest)) rest
    else if c = '"' then
      match tripleQuote? '"' (c :: rest) with
      | some rest => some (closing '"' rest)
      | none => withChar '"' (multilineBasic? .text rest)
    else if c = '\\' then multilineBasic? .backslash rest
    else if isTextual c then withChar c (multilineBasic? .text rest)
    else none := by
  rw [multilineBasic?.eq_def]
  dsimp only
  congr 2
  fun_cases behind (fun rest => withChar '\n' (multilineBasic? .text rest)) rest
  · rfl
  · split <;> simp_all

theorem multilineBasic?_trimming (c : Char) (rest : List Char) :
    multilineBasic? .trimming (c :: rest) =
    if c = '\n' then multilineBasic? .trimming rest
    else if c = '\r' then behind (multilineBasic? .trimming) rest
    else if c = '"' then
      match tripleQuote? '"' (c :: rest) with
      | some rest => some (closing '"' rest)
      | none => withChar '"' (multilineBasic? .text rest)
    else if c = '\\' then multilineBasic? .backslash rest
    else if isBlank c then multilineBasic? .trimming rest
    else if isTextual c then withChar c (multilineBasic? .text rest)
    else none := by
  rw [multilineBasic?.eq_def]
  dsimp only
  congr 2
  fun_cases behind (multilineBasic? .trimming) rest
  · rfl
  · split <;> simp_all


theorem multilineBasic?_append : ∀ (state : Reading) (s : List Char),
    Extends id ('\n' :: u) (multilineBasic? state s) (multilineBasic? state (s ++ '\n' :: u))
  | state, [] => by
    rw [multilineBasic?.eq_def state []]
    exact extends_none
  | .backslash, c :: rest => by
    rw [List.cons_append, multilineBasic?_backslash, multilineBasic?_backslash]
    cases longEscape? c with
    | some n => exact multilineBasic?_append (.code n 0) rest
    | none =>
      cases shortEscape? c with
      | some x => exact (multilineBasic?_append .text rest).withChar x
      | none =>
        exact extends_ite (multilineBasic?_append .lineBreak rest)
          (extends_ite (multilineBasic?_append .trimming rest)
            (extends_ite (extends_behind fun rest' _ => multilineBasic?_append .trimming rest')
              extends_none))
  | .code left value, c :: rest => by
    rw [List.cons_append, multilineBasic?_code, multilineBasic?_code]
    cases hexDigit? c with
    | none => exact extends_none
    | some d =>
      refine extends_ite ?_ (multilineBasic?_append (.code (left - 1) (16 * value + d)) rest)
      cases scalarValue? (16 * value + d) with
      | some x => exact (multilineBasic?_append .text rest).withChar x
      | none => exact extends_none
  | .lineBreak, c :: rest => by
    rw [List.cons_append, multilineBasic?_lineBreak, multilineBasic?_lineBreak]
    exact extends_ite (multilineBasic?_append .lineBreak rest)
      (extends_ite (multilineBasic?_append .trimming rest)
        (extends_ite (extends_behind fun rest' _ => multilineBasic?_append .trimming rest')
          extends_none))
  | .text, c :: rest => by
    have htext := multilineBasic?_append .text rest
    rw [List.cons_append, multilineBasic?_text, multilineBasic?_text]
    refine extends_ite (htext.withChar _) (extends_ite (extends_behind fun rest' _ => ?_)
      (extends_ite (extends_quotes (by decide) (c :: rest) (htext.withChar _))
        (extends_ite (multilineBasic?_append .backslash rest)
          (extends_ite (htext.withChar c) extends_none))))
    exact (multilineBasic?_append .text rest').withChar _
  | .trimming, c :: rest => by
    have htext := multilineBasic?_append .text rest
    have htrimming := multilineBasic?_append .trimming rest
    rw [List.cons_append, multilineBasic?_trimming, multilineBasic?_trimming]
    exact extends_ite htrimming
      (extends_ite (extends_behind fun rest' _ => multilineBasic?_append .trimming rest')
        (extends_ite (extends_quotes (by decide) (c :: rest) (htext.withChar _))
          (extends_ite (multilineBasic?_append .backslash rest)
            (extends_ite htrimming (extends_ite (htext.withChar c) extends_none)))))
termination_by _ s => s.length
decreasing_by all_goals grind

theorem skipNewline_append : ∀ {s : List Char}, s ≠ [] → s ≠ ['\r'] →
    skipNewline (s ++ t) = skipNewline s ++ t
  | [], hnil, _ => absurd rfl hnil
  | [c], _, hlone => by
    by_cases hc : c = '\n'
    · subst hc
      rfl
    · have hreturn : c ≠ '\r' := fun h => hlone (by rw [h])
      simp [skipNewline, newline?, hc, hreturn]
  | c :: d :: s, _, _ => by
    by_cases hc : c = '\n'
    · subst hc
      rfl
    · by_cases hreturn : c = '\r' ∧ d = '\n'
      · obtain ⟨rfl, rfl⟩ := hreturn
        rfl
      · simp_all [skipNewline, newline?]

/-- A line feed right behind the opening quotes is dropped. -/
theorem extends_skipNewline {read : List Char → Option (α × List Char)}
    (hnil : read [] = none) (hlone : read ['\r'] = none)
    (hread : ∀ s, Extends move t (read s) (read (s ++ t))) (s : List Char) :
    Extends move t (read (skipNewline s)) (read (skipNewline (s ++ t))) := by
  by_cases hs : s = []
  · subst hs
    rw [show skipNewline [] = [] from rfl, hnil]
    exact extends_none
  · by_cases hs' : s = ['\r']
    · subst hs'
      rw [show skipNewline ['\r'] = ['\r'] from rfl, hlone]
      exact extends_none
    · rw [skipNewline_append hs hs']
      exact hread _

/-- A string is read with anything behind it. -/
theorem text?_append (s : List Char) :
    Extends id ('\n' :: u) (text? s) (text? (s ++ '\n' :: u)) := by
  unfold text?
  rw [tripleQuote?_append (by decide), tripleQuote?_append (by decide)]
  cases tripleQuote? '"' s with
  | some rest =>
    exact extends_skipNewline (by rw [multilineBasic?.eq_def])
      (by rw [multilineBasic?_text]; rfl) (multilineBasic?_append .text) rest
  | none =>
    cases tripleQuote? '\'' s with
    | some rest =>
      exact extends_skipNewline rfl (by rw [multilineLiteral?_cons]; rfl)
        multilineLiteral?_append rest
    | none =>
      cases s with
      | nil => exact extends_none
      | cons c s =>
        by_cases hdouble : c = '"'
        · subst hdouble
          exact basicText?_append .text s
        · by_cases hsingle : c = '\''
          · subst hsingle
            exact literalText?_append s
          · simp [hdouble, hsingle, extends_none]

end SupportLayer.Toml
