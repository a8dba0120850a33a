/-
# Documents with more lines behind them

What is read of a text is read of it with a line feed and anything else behind it, from the single
key up to the line: the same, with its places moved by the size of what was added. Guards on the
length of what is left hold as before, both sides being longer by the same.

A document is read line by line, so by the time its lines are read the draft is the one that it
gives, moved, and what stands behind it is still to be read. That is then read as if it stood
alone, only not into an empty draft (`read?_append`). Nothing is asked of the document but that it
is one: it may end in a comment, in an array or in a string that looks like a header.

Key definitions: `Toml.shift`, `Toml.ReadsOn`.
Key theorems: `Toml.keys?_append`, `Toml.scalar?_append`, `Toml.readsOn_value?`,
`Toml.line?_append`, `Toml.read?_append`.
-/
import Mathlib
import SupportLayer.Proofs.Toml.Distinct
import SupportLayer.Proofs.Toml.Longer.Strings
import SupportLayer.Proofs.Toml.Moved

namespace SupportLayer.Toml

/-- The number of bytes of a line feed and what stands behind it. -/
def shift (u : List Char) : ℕ := Utf8.size ('\n' :: u)

variable {s r u : List Char}

theorem between_append (s r : List Char) :
    Span.between (s ++ '\n' :: u) (r ++ '\n' :: u) = (Span.between s r).moved (shift u) := by
  simp only [Span.between, Span.moved, Utf8.size_append, shift]

theorem Extends.map {α β : Type} {move : α → α} {move' : β → β} {t : List Char}
    {read read' : Option (α × List Char)} {f f' : α × List Char → β}
    (h : Extends move t read read') (hf : ∀ x r, f' (move x, r ++ t) = move' (f (x, r))) :
    Extends move' t (read.map fun p => (f p, p.2)) (read'.map fun p => (f' p, p.2)) := by
  intro y r hread
  obtain ⟨⟨x, r⟩, hx, heq⟩ := Option.map_eq_some_iff.mp hread
  cases heq
  rw [h x r hx, Option.map_some, hf]

theorem append_ne_cons {c : Char} (hc : c ≠ '\n') (h : ∀ rest, s ≠ c :: rest) (rest : List Char) :
    s ++ '\n' :: u ≠ c :: rest := by
  intro heq
  cases s with
  | nil => exact hc (List.cons.inj heq).1.symm
  | cons d s =>
    rw [List.cons_append, List.cons.injEq] at heq
    exact h s (by rw [heq.1])

/-! ### Keys -/

/-- A bare key and what is left behind it. -/
def bareKey? (s : List Char) : Option (Key × List Char) :=
  if s.takeWhile isBare = [] then none
  else some (⟨s.takeWhile isBare, Span.between s (s.dropWhile isBare)⟩, s.dropWhile isBare)

theorem key?_eq_bareKey? {c : Char} (hdouble : c ≠ '"') (hsingle : c ≠ '\'') (s : List Char) :
    key? (c :: s) = bareKey? (c :: s) := by
  rw [key?]
  · rfl
  · intro rest h
    exact hdouble (List.cons.inj h).1
  · intro rest h
    exact hsingle (List.cons.inj h).1

theorem bareKey?_append (s : List Char) :
    Extends (Key.moved (shift u)) ('\n' :: u) (bareKey? s) (bareKey? (s ++ '\n' :: u)) := by
  unfold bareKey?
  rw [takeWhile_append_newline (by decide), dropWhile_append_newline (by decide), between_append]
  exact extends_ite extends_none extends_some

theorem key?_append : ∀ s : List Char,
    Extends (Key.moved (shift u)) ('\n' :: u) (key? s) (key? (s ++ '\n' :: u))
  | [] => extends_none
  | c :: s => by
    by_cases hdouble : c = '"'
    · subst hdouble
      exact (basicText?_append .text s).map fun x r =>
        congrArg (Key.mk x) (between_append ('"' :: s) r)
    · by_cases hsingle : c = '\''
      · subst hsingle
        exact (literalText?_append s).map fun x r =>
          congrArg (Key.mk x) (between_append ('\'' :: s) r)
      · rw [List.cons_append, key?_eq_bareKey? hdouble hsingle, key?_eq_bareKey? hdouble hsingle]
        exact bareKey?_append (c :: s)

theorem keys?_append (s : List Char) :
    Extends (List.map (Key.moved (shift u))) ('\n' :: u) (keys? s) (keys? (s ++ '\n' :: u)) := by
  fun_induction keys? s with
  | case1 | case3 => exact extends_none
  | case2 s key rest hkey next hdot hshorter ih =>
    have hlonger : (next ++ '\n' :: u).length < (s ++ '\n' :: u).length := by
      rw [List.length_append, List.length_append]
      omega
    rw [keys?.eq_def (s ++ _), skipBlanks_append, key?_append _ _ _ hkey]
    simp only [skipBlanks_append, hdot, List.cons_append, if_pos hlonger]
    exact ih.map fun _ _ => rfl
  | case4 s key rest hkey hdot =>
    rw [keys?.eq_def (s ++ _), skipBlanks_append, key?_append _ _ _ hkey]
    simp only [skipBlanks_append]
    split
    · next heq => exact absurd heq (append_ne_cons (by decide) hdot _)
    · exact extends_some

theorem path?_append {steps : List Key} {key : Key} (h : path? s = some (steps, key, r)) :
    path? (s ++ '\n' :: u) =
      some (steps.map (Key.moved (shift u)), key.moved (shift u), r ++ '\n' :: u) := by
  unfold path? at h ⊢
  cases hkeys : keys? s with
  | none =>
    rw [hkeys] at h
    cases h
  | some read =>
    obtain ⟨keys, rest⟩ := read
    rw [keys?_append _ _ _ hkeys]
    simp only [hkeys] at h
    simp only [List.getLast?_map, List.length_map]
    cases hlast : keys.getLast? with
    | none =>
      rw [hlast] at h
      cases h
    | some last =>
      simp only [hlast] at h
      split at h
      · next hlength =>
        cases h
        simp only [Option.map_some, if_pos hlength, List.map_dropLast]
      · cases h

/-! ### Values -/

theorem text?_run {c : Char} (hc : isRun c) (s : List Char) : text? (c :: s) = none := by
  have hdouble : c ≠ '"' := by
    rintro rfl
    cases hc
  have hsingle : c ≠ '\'' := by
    rintro rfl
    cases hc
  have hquotes : ∀ quote, c ≠ quote → tripleQuote? quote (c :: s) = none := by
    intro quote hne
    rcases s with _ | ⟨d, _ | ⟨e, s⟩⟩ <;> simp [tripleQuote?, hne]
  simp [text?, hquotes _ hdouble, hquotes _ hsingle, hdouble, hsingle]

/-- A scalar that is no string: the run, or the date and the time, that starts here. -/
def plain? (s : List Char) : Option (Scalar × List Char) :=
  match isDate (s.takeWhile isRun), s.dropWhile isRun with
  | true, ' ' :: next =>
    if isClock (next.takeWhile isRun) then some (.moment, next.dropWhile isRun)
    else some (.moment, s.dropWhile isRun)
  | _, _ => (run? (s.takeWhile isRun)).map (·, s.dropWhile isRun)

theorem plain?_append (s : List Char) :
    Extends id ('\n' :: u) (plain? s) (plain? (s ++ '\n' :: u)) := by
  unfold plain?
  rw [takeWhile_append_newline (by decide), dropWhile_append_newline (by decide)]
  have hrun : Extends id ('\n' :: u) ((run? (s.takeWhile isRun)).map (·, s.dropWhile isRun))
      ((run? (s.takeWhile isRun)).map (·, s.dropWhile isRun ++ '\n' :: u)) := by
    cases run? (s.takeWhile isRun) with
    | none => exact extends_none
    | some x => exact extends_some
  cases isDate (s.takeWhile isRun) with
  | false => exact hrun
  | true =>
    cases hrest : s.dropWhile isRun with
    | nil =>
      rw [hrest] at hrun
      exact hrun
    | cons c next =>
      rw [hrest] at hrun
      by_cases hc : c = ' '
      · subst hc
        have hnewline : isRun '\n' = false := by decide
        simp only [List.cons_append, takeWhile_append_newline hnewline,
          dropWhile_append_newline hnewline]
        exact extends_ite extends_some extends_some
      · simpa [hc] using hrun

/-- A scalar is read with anything behind it. -/
theorem scalar?_append (s : List Char) :
    Extends id ('\n' :: u) (scalar? s) (scalar? (s ++ '\n' :: u)) := by
  intro x r h
  cases htext : text? s with
  | some read =>
    obtain ⟨y, rest⟩ := read
    simp only [scalar?, htext] at h
    cases h
    rw [scalar?, text?_append _ _ _ htext]
    rfl
  | none =>
    have hplain : plain? s = some (x, r) := by
      rw [scalar?, htext] at h
      exact h
    cases s with
    | nil => cases hplain
    | cons c s =>
      have hc : isRun c := by
        by_contra hc
        rw [plain?, List.takeWhile_cons_of_neg hc] at hplain
        cases hplain
      have hmore := plain?_append (u := u) (c :: s) _ _ hplain
      rw [scalar?, List.cons_append, text?_run hc]
      exact hmore

/-- A reader of values that reads the same with anything behind the text, and nothing where no
character but a carriage return is left. -/
structure ReadsOn (u : List Char) (item? : List Char → Option (Node × List Char)) : Prop where
  extends_append : ∀ s,
    Extends (Node.moved (shift u)) ('\n' :: u) (item? s) (item? (s ++ '\n' :: u))
  nil : item? [] = none
  lone : item? ['\r'] = none

variable {item? : List Char → Option (Node × List Char)}

/-- Where an item is read, it is read with anything behind it. -/
theorem items?_of_item (hitem : ReadsOn u item?) {s rest : List Char} {node : Node}
    (hopen : ∀ rest, skipFiller false s = ']' :: rest → False)
    (hnode : item? (skipFiller false s) = some (node, rest)) :
    items? item? (s ++ '\n' :: u) =
      match skipFiller false (rest ++ '\n' :: u) with
      | ']' :: rest => some ([node.moved (shift u)], rest)
      | ',' :: next =>
        if next.length < (s ++ '\n' :: u).length then
          (items? item? next).map fun r => (node.moved (shift u) :: r.1, r.2)
        else none
      | _ => none := by
  have hnil : skipFiller false s ≠ [] := by
    intro h
    rw [h, hitem.nil] at hnode
    cases hnode
  have hlone : skipFiller false s ≠ ['\r'] := by
    intro h
    rw [h, hitem.lone] at hnode
    cases hnode
  rw [items?.eq_def _ (s ++ _), skipFiller_append false s hnil hlone]
  split
  · next h => exact absurd h (append_ne_cons (by decide) hopen _)
  · have hmore := hitem.extends_append _ _ _ hnode
    generalize item? (skipFiller false s ++ '\n' :: u) = read at hmore ⊢
    subst hmore
    rfl

theorem items?_append (hitem : ReadsOn u item?) (s : List Char) :
    Extends (List.map (Node.moved (shift u))) ('\n' :: u) (items? item? s)
      (items? item? (s ++ '\n' :: u)) := by
  fun_induction items? item? s with
  | case1 s rest hclosed =>
    have hmore : skipFiller false (s ++ '\n' :: u) = ']' :: rest ++ '\n' :: u := by
      rw [skipFiller_append] <;> simp [hclosed]
    rw [items?, hmore]
    exact extends_some
  | case2 | case5 | case6 => exact extends_none
  | case3 s node rest rest' hclosed hopen hnode =>
    have hmore : skipFiller false (rest ++ '\n' :: u) = ']' :: rest' ++ '\n' :: u := by
      rw [skipFiller_append] <;> simp [hclosed]
    rw [items?_of_item hitem hopen hnode, hmore]
    exact extends_some
  | case4 s node rest next hcomma hshorter hopen hnode ih =>
    have hmore : skipFiller false (rest ++ '\n' :: u) = ',' :: next ++ '\n' :: u := by
      rw [skipFiller_append] <;> simp [hcomma]
    have hlonger : (next ++ '\n' :: u).length < (s ++ '\n' :: u).length := by
      rw [List.length_append, List.length_append]
      omega
    rw [items?_of_item hitem hopen hnode, hmore]
    simp only [List.cons_append, if_pos hlonger]
    exact ih.map fun _ _ => rfl

theorem pair?_append (hitem : ReadsOn u item?) {steps : List Key} {key : Key} {value : Node}
    (h : pair? item? s = some (steps, key, value, r)) :
    pair? item? (s ++ '\n' :: u) = some (steps.map (Key.moved (shift u)), key.moved (shift u),
      value.moved (shift u), r ++ '\n' :: u) := by
  unfold pair? at h ⊢
  split at h
  · next steps' key' rest hpath =>
    obtain ⟨⟨value', left⟩, hvalue, heq⟩ := Option.map_eq_some_iff.mp h
    cases heq
    rw [path?_append hpath]
    simp only [List.cons_append, skipBlanks_append, hitem.extends_append _ _ _ hvalue,
      Option.map_some]
  · cases h

theorem pairs?_append (hitem : ReadsOn u item?) (table : Node) (s : List Char) :
    Extends (Node.moved (shift u)) ('\n' :: u) (pairs? item? table s)
      (pairs? item? (table.moved (shift u)) (s ++ '\n' :: u)) := by
  fun_induction pairs? item? table s with
  | case1 | case2 | case5 | case6 => exact extends_none
  | case3 table s steps key value table' hinsert rest hpair =>
    rw [pairs?, pair?_append hitem hpair]
    simp only [Node.insert?_moved, hinsert, Option.map_some, List.cons_append]
    exact extends_some
  | case4 table s steps key value table' hinsert next hshorter hpair ih =>
    have hlonger : (next ++ '\n' :: u).length < (s ++ '\n' :: u).length := by
      rw [List.length_append, List.length_append]
      omega
    rw [pairs?.eq_def _ _ (s ++ _), pair?_append hitem hpair]
    simp only [Node.insert?_moved, hinsert, Option.map_some, List.cons_append, if_pos hlonger]
    exact ih

theorem value?_brace (depth : ℕ) (s : List Char) : value? (depth + 1) ('{' :: s) =
    match skipBlanks s with
    | '}' :: rest => some (.table .braces (some (Span.between ('{' :: s) rest)) [], rest)
    | _ => (pairs? (value? depth) (.table .braces none []) s).map fun r =>
      (placed (Span.between ('{' :: s) r.2) r.1, r.2) := rfl

theorem value?_scalar (depth : ℕ) {c : Char} (hbracket : c ≠ '[') (hbrace : c ≠ '{')
    (s : List Char) : value? (depth + 1) (c :: s) =
      (scalar? (c :: s)).map fun r => (.scalar (Span.between (c :: s) r.2) r.1, r.2) := by
  rw [value?]
  · intro rest h
    exact hbracket (List.cons.inj h).1
  · intro rest h
    exact hbrace (List.cons.inj h).1

theorem scalarNode_append (s : List Char) : Extends (Node.moved (shift u)) ('\n' :: u)
    ((scalar? s).map fun r => (.scalar (Span.between s r.2) r.1, r.2))
    ((scalar? (s ++ '\n' :: u)).map fun r =>
      (.scalar (Span.between (s ++ '\n' :: u) r.2) r.1, r.2)) :=
  (scalar?_append s).map fun x r => by
    rw [Node.moved_scalar, ← between_append]
    rfl

theorem braces_append {depth : ℕ} (hitem : ReadsOn u (value? depth)) (s : List Char) :
    Extends (Node.moved (shift u)) ('\n' :: u) (value? (depth + 1) ('{' :: s))
      (value? (depth + 1) ('{' :: s ++ '\n' :: u)) := by
  have hpairs := pairs?_append hitem (.table .braces none []) s
  rw [Node.moved_table] at hpairs
  rw [List.cons_append, value?_brace, value?_brace, skipBlanks_append]
  split
  · next rest hclosed =>
    rw [hclosed]
    intro x r h
    cases h
    rw [Node.moved_table, Option.map_some, ← between_append]
    rfl
  · next hopen =>
    split
    · next h => exact absurd h (append_ne_cons (by decide) hopen _)
    · exact hpairs.map fun x r => by
        rw [← Node.placed_moved, ← between_append]
        rfl

/-- A value is read with anything behind it, however deep it is nested. -/
theorem readsOn_value? : ∀ depth : ℕ, ReadsOn u (value? depth)
  | 0 => by
    refine ⟨fun s => ?_, rfl, rfl⟩
    rw [value?, value?]
    exact scalarNode_append s
  | depth + 1 => by
    have ih : ReadsOn u (value? depth) := readsOn_value? depth
    refine ⟨fun s => ?_, rfl, rfl⟩
    cases s with
    | nil => exact extends_none
    | cons c s =>
      by_cases hbracket : c = '['
      · subst hbracket
        exact (items?_append ih s).map fun x r => by
          rw [Node.moved_array, ← between_append]
      · by_cases hbrace : c = '{'
        · subst hbrace
          exact braces_append ih s
        · rw [List.cons_append, value?_scalar depth hbracket hbrace,
            value?_scalar depth hbracket hbrace]
          exact scalarNode_append (c :: s)

/-! ### Lines -/

theorem closed?_append {double : Bool} (h : closed? double s = some r) (t : List Char) :
    closed? double (s ++ t) = some (r ++ t) := by
  unfold closed? at h
  split at h
  · next rest =>
    cases double with
    | false =>
      cases h
      rfl
    | true =>
      cases rest with
      | nil => cases h
      | cons c rest =>
        by_cases hc : c = ']'
        · subst hc
          cases h
          rfl
        · simp [after?, hc] at h
  · cases h

/-- What a line says is read with anything behind it, and its end as far as it goes. -/
theorem header?_append {double : Bool} {start : List Char} {line : Line}
    (h : header? double start s = some (line, r)) :
    ∃ r', header? double (start ++ '\n' :: u) (s ++ '\n' :: u) = some (line.moved (shift u), r') ∧
      Continues u r r' := by
  unfold header? at h ⊢
  cases hpath : path? s with
  | none =>
    rw [hpath] at h
    cases h
  | some read =>
    obtain ⟨steps, key, rest⟩ := read
    rw [path?_append hpath]
    simp only [hpath] at h ⊢
    cases hclosed : closed? double rest with
    | none =>
      rw [hclosed] at h
      cases h
    | some left =>
      rw [closed?_append hclosed]
      simp only [hclosed] at h ⊢
      obtain ⟨r', hend, heq⟩ := Option.map_eq_some_iff.mp h
      cases heq
      obtain ⟨r', hend', hr⟩ := lineEnd?_append (u := u) hend
      refine ⟨r', ?_, hr⟩
      rw [hend', Option.map_some, between_append]
      cases double <;> rfl

theorem line?_header {rest : List Char} (h : ∀ rest', rest ≠ '[' :: rest') :
    line? ('[' :: rest) = header? false ('[' :: rest) rest := by
  rw [line?.eq_def]
  split
  · next heq => cases heq
  · next rest' heq => exact absurd (List.cons.inj heq).2 (h rest')
  · next rest' _ heq =>
    cases heq
    rfl
  · next c tail hdouble hsingle heq =>
    cases heq
    exact absurd rfl hsingle

theorem line?_other {c : Char} (hc : c ≠ '[') (s : List Char) :
    line? (c :: s) =
      if c = '#' ∨ c = '\n' ∨ c = '\r' then (lineEnd? (c :: s)).map (.nothing, ·)
      else
        match pair? (value? (nestingLimit - 1)) (c :: s) with
        | none => none
        | some (steps, key, value, rest) => (lineEnd? rest).map (.binds steps key value, ·) := by
  rw [line?.eq_def]
  split
  · next heq => cases heq
  · next heq => exact absurd (List.cons.inj heq).1 hc
  · next heq => exact absurd (List.cons.inj heq).1 hc
  · next heq =>
    cases heq
    rfl

/-- A line is read with anything behind it. -/
theorem line?_append {line : Line} (h : line? s = some (line, r)) :
    ∃ r', line? (s ++ '\n' :: u) = some (line.moved (shift u), r') ∧ Continues u r r' := by
  cases s with
  | nil => cases h
  | cons c s =>
    by_cases hc : c = '['
    · subst hc
      by_cases hdouble : ∃ rest, s = '[' :: rest
      · obtain ⟨rest, rfl⟩ := hdouble
        exact header?_append h
      · have hsingle : ∀ rest, s ≠ '[' :: rest := fun rest h => hdouble ⟨rest, h⟩
        rw [line?_header hsingle] at h
        rw [List.cons_append, line?_header (append_ne_cons (by decide) hsingle)]
        exact header?_append h
    · rw [line?_other hc] at h
      rw [List.cons_append, line?_other hc]
      split at h
      · next hmark =>
        obtain ⟨r', hend, heq⟩ := Option.map_eq_some_iff.mp h
        cases heq
        obtain ⟨r', hend', hr⟩ := lineEnd?_append (u := u) hend
        refine ⟨r', ?_, hr⟩
        rw [if_pos hmark]
        rw [List.cons_append] at hend'
        rw [hend']
        rfl
      · next hmark =>
        rw [if_neg hmark]
        cases hpair : pair? (value? (nestingLimit - 1)) (c :: s) with
        | none =>
          rw [hpair] at h
          cases h
        | some read =>
          obtain ⟨steps, key, value, rest⟩ := read
          simp only [hpair] at h
          obtain ⟨r', hend, heq⟩ := Option.map_eq_some_iff.mp h
          cases heq
          obtain ⟨r', hend', hr⟩ := lineEnd?_append (u := u) hend
          refine ⟨r', ?_, hr⟩
          have hmore := pair?_append (u := u) (readsOn_value? _) hpair
          rw [List.cons_append] at hmore
          simp only [hmore, hend', Option.map_some]
          rfl

/-! ### Documents -/

theorem read?_line {draft draft' : Draft} {line : Line} {rest : List Char}
    (hline : line? (skipBlanks s) = some (line, rest)) (hadd : draft.add? line = some draft')
    (hshorter : rest.length < s.length) : read? draft s = read? draft' rest := by
  rw [read?.eq_def]
  cases hstart : skipBlanks s with
  | nil =>
    rw [hstart] at hline
    cases hline
  | cons c start =>
    rw [hstart] at hline
    simp only [hline, hadd, if_pos hshorter]

theorem read?_blank {draft : Draft} (h : skipBlanks s = []) :
    read? draft (s ++ '\n' :: u) = read? draft u := by
  have hline : line? (skipBlanks (s ++ '\n' :: u)) = some (.nothing, u) := by
    rw [skipBlanks_append, h]
    rfl
  refine read?_line hline rfl ?_
  rw [List.length_append, List.length_cons]
  omega

/-- What stands behind a document is read as if it stood alone, but into the draft that the
document left. -/
theorem read?_append (draft : Draft) (s : List Char) {draft' : Draft}
    (h : read? draft s = some draft') :
    read? (draft.moved (shift u)) (s ++ '\n' :: u) = read? (draft'.moved (shift u)) u := by
  fun_induction read? draft s with
  | case1 draft s hend =>
    cases h
    exact read?_blank hend
  | case4 draft s line rest next hadd hshorter hopen hline ih =>
    obtain ⟨rest', hline', hrest⟩ := line?_append (u := u) hline
    have hadd' : (draft.moved (shift u)).add? (line.moved (shift u)) =
        some (next.moved (shift u)) := by
      rw [Draft.add?_moved, hadd, Option.map_some]
    rw [← skipBlanks_append] at hline'
    cases hrest with
    | more =>
      rw [read?_line hline' hadd' (by simpa using hshorter)]
      exact ih h
    | ended hnil =>
      subst hnil
      rw [read?_line hline' hadd' (by simp; omega)]
      have hnext : read? next [] = some next := by
        rw [read?]
        rfl
      rw [hnext] at h
      cases h
      rfl
  | case2 | case3 | case5 => cases h

end SupportLayer.Toml
