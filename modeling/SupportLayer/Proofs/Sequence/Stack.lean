/-
# Pushes and removals as brackets

A push is an opening bracket and a removal, in whichever of its forms, a closing one. As long as no
more brackets were closed than opened (`Covered`), a sequence of moves is made of balanced pieces
with an open push between one and the next (`Standing`), and that is also how the sequence looks:
its old elements, and behind them those of the open pushes (`exists_standing`). One more push is
one more open bracket. One more removal takes the last open push, which is the one that it matches,
and the pieces around that bracket become one.

Key definitions: `Sequence.Move`, `Sequence.move`, `Sequence.run`, `Move.Covered`, `Move.Balanced`,
`Move.unmatched`, `Move.Standing`.
Key theorems: `Move.closed_iff`, `Move.Standing.unmatched_eq`, `Sequence.exists_standing`,
`Sequence.run_as_brackets`.
-/
import Mathlib
import SupportLayer.Sequence.Registers

namespace SupportLayer.Sequence

open Registers (Answer)

/-- The forms of removal. -/
inductive Removal where
  | panicking
  | checked
  | unchecked
  deriving DecidableEq

/-- A push or a removal. -/
inductive Move (α : Type) where
  | push (element : α)
  | pop (form : Removal)
  deriving DecidableEq

variable {α : Type}

/-- What a removal answers if it gives an element. -/
def Removal.answer : Removal → α → Answer α
  | .panicking, a => .element a
  | .checked, a => .checked (.ok a)
  | .unchecked, a => .element a

/-- What a move answers, and the sequence behind it. -/
def move (s : Sequence α) : Move α → Answer α × Sequence α
  | .push a => (s.push a).map .number id
  | .pop .panicking => s.pop.map .ofPanicking id
  | .pop .checked => s.tryPop.map .checked id
  | .pop .unchecked => s.popUnchecked.map .ofUnchecked id

/-- What the moves of a run answer, and the sequence at its end. -/
def run (s : Sequence α) : List (Move α) → List (Answer α) × Sequence α
  | [] => ([], s)
  | m :: moves =>
    let (answer, s) := s.move m
    let (answers, s) := s.run moves
    (answer :: answers, s)

namespace Move

/-! ### Brackets -/

/-- The move is a push. -/
def isPush : Move α → Bool
  | .push _ => true
  | .pop _ => false

/-- The number of pushes. -/
def pushes (moves : List (Move α)) : ℕ := moves.countP isPush

/-- The number of removals. -/
def pops (moves : List (Move α)) : ℕ := moves.countP fun m => !m.isPush

/-- No prefix contains more removals than pushes. -/
def Covered (moves : List (Move α)) : Prop := ∀ front, front <+: moves → pops front ≤ pushes front

instance (moves : List (Move α)) : Decidable (Covered moves) :=
  decidable_of_iff (∀ front ∈ moves.inits, pops front ≤ pushes front)
    (by simp only [List.mem_inits, Covered])

/-- Each push is closed by a removal, and each removal closes a push. -/
def Balanced (moves : List (Move α)) : Prop := Covered moves ∧ pops moves = pushes moves

instance (moves : List (Move α)) : Decidable (Balanced moves) :=
  inferInstanceAs (Decidable (_ ∧ _))

/-- What comes behind a push has the removal that closes it: what stands between is balanced. -/
def Closed (rest : List (Move α)) : Prop :=
  ∃ between form back, rest = between ++ .pop form :: back ∧ Balanced between

variable {moves front back between : List (Move α)} {m : Move α}

@[simp] theorem pushes_nil : pushes ([] : List (Move α)) = 0 := rfl

@[simp] theorem pops_nil : pops ([] : List (Move α)) = 0 := rfl

@[simp] theorem pushes_append (front back : List (Move α)) :
    pushes (front ++ back) = pushes front + pushes back := List.countP_append

@[simp] theorem pops_append (front back : List (Move α)) :
    pops (front ++ back) = pops front + pops back := List.countP_append

@[simp] theorem pushes_push (a : α) (moves : List (Move α)) :
    pushes (.push a :: moves) = pushes moves + 1 := List.countP_cons_of_pos rfl

@[simp] theorem pops_push (a : α) (moves : List (Move α)) :
    pops (.push a :: moves) = pops moves := List.countP_cons_of_neg (by simp [isPush])

@[simp] theorem pushes_pop (form : Removal) (moves : List (Move α)) :
    pushes (.pop form :: moves) = pushes moves := List.countP_cons_of_neg (by simp [isPush])

@[simp] theorem pops_pop (form : Removal) (moves : List (Move α)) :
    pops (.pop form :: moves) = pops moves + 1 := List.countP_cons_of_pos rfl

theorem covered_nil : Covered ([] : List (Move α)) := by
  intro front h
  rw [List.prefix_nil.mp h]
  rfl

theorem Covered.prior (h : Covered (front ++ back)) : Covered front :=
  fun _ hp => h _ (hp.trans (List.prefix_append front back))

theorem Covered.all (h : Covered moves) : pops moves ≤ pushes moves := h moves List.prefix_rfl

/-- Moves that are covered may come behind others that are. -/
theorem Covered.append (hf : Covered front) (hb : Covered back) : Covered (front ++ back) := by
  rintro p ⟨q, hq⟩
  rcases List.append_eq_append_iff.mp hq with ⟨r, hr, -⟩ | ⟨r, rfl, hr⟩
  · exact hf p ⟨r, hr.symm⟩
  · have hrest := hb r ⟨q, hr.symm⟩
    have hfront := hf.all
    simp only [pops_append, pushes_append]
    omega

theorem covered_concat : Covered (moves ++ [m]) ↔
    Covered moves ∧ pops (moves ++ [m]) ≤ pushes (moves ++ [m]) := by
  refine ⟨fun h => ⟨h.prior, h.all⟩, fun ⟨h, hall⟩ p hp => ?_⟩
  rcases List.prefix_concat_iff.mp hp with rfl | hp
  · exact hall
  · exact h p hp

theorem covered_concat_push (a : α) : Covered (moves ++ [.push a]) ↔ Covered moves := by
  rw [covered_concat, and_iff_left_iff_imp]
  intro h
  have hall := h.all
  simp only [pops_append, pushes_append, pops_push, pushes_push, pops_nil, pushes_nil]
  omega

theorem covered_concat_pop (form : Removal) :
    Covered (moves ++ [.pop form]) ↔ Covered moves ∧ pops moves < pushes moves := by
  simp only [covered_concat, pops_append, pushes_append, pops_pop, pushes_pop, pops_nil, pushes_nil,
    Nat.lt_iff_add_one_le, add_zero, zero_add]

theorem covered_push (a : α) (h : Covered moves) : Covered (.push a :: moves) :=
  Covered.append ((covered_concat_push a).mpr covered_nil) h

theorem balanced_nil : Balanced ([] : List (Move α)) := ⟨covered_nil, rfl⟩

theorem Balanced.append (hf : Balanced front) (hb : Balanced back) : Balanced (front ++ back) :=
  ⟨hf.1.append hb.1, by rw [pops_append, pushes_append, hf.2, hb.2]⟩

/-- A push, balanced moves and a removal are balanced. -/
theorem Balanced.wrap (a : α) (form : Removal) (h : Balanced between) :
    Balanced (.push a :: between ++ [.pop form]) := by
  have htotal := h.2
  refine ⟨(covered_concat_pop form).mpr ⟨covered_push a h.1, ?_⟩, ?_⟩
  · rw [pops_push, pushes_push]
    omega
  · rw [pops_append, pushes_append, pops_push, pushes_push, pops_pop, pushes_pop, pops_nil,
      pushes_nil]
    omega

/-- In balanced moves no push has all that comes behind it balanced. -/
theorem Balanced.not_open {a : α} (h : Balanced (front ++ .push a :: back)) : ¬ Balanced back := by
  intro hb
  have hfront := h.1.prior.all
  have htotal := h.2
  have hback := hb.2
  simp only [pops_append, pushes_append, pops_push, pushes_push] at htotal
  omega

/-- A removal matches one push only. -/
theorem Balanced.unique {front' between' : List (Move α)} {a a' : α} (hb : Balanced between)
    (hb' : Balanced between') (h : front ++ .push a :: between = front' ++ .push a' :: between') :
    front = front' ∧ a = a' ∧ between = between' := by
  rcases List.append_eq_append_iff.mp h with ⟨r, rfl, hr⟩ | ⟨r, rfl, hr⟩
  · cases r with
    | nil => simpa using hr
    | cons m r =>
      obtain ⟨-, hbetween⟩ := List.cons.inj hr
      exact absurd hb' (hbetween ▸ hb).not_open
  · cases r with
    | nil => simpa [eq_comm] using hr
    | cons m r =>
      obtain ⟨-, hbetween⟩ := List.cons.inj hr
      exact absurd hb (hbetween ▸ hb').not_open

theorem closed_iff {rest : List (Move α)} : Closed rest ↔ ¬ Covered rest := by
  constructor
  · rintro ⟨between, form, back, rfl, hb⟩ h
    rw [List.append_cons] at h
    exact ((covered_concat_pop form).mp h.prior).2.ne hb.2
  · intro h
    induction rest using List.reverseRecOn with
    | nil => exact absurd covered_nil h
    | append_singleton rest m ih =>
      by_cases hrest : Covered rest
      · -- the first prefix that takes more than it leaves is the whole
        cases m with
        | push a => exact absurd ((covered_concat_push a).mpr hrest) h
        | pop form =>
          rw [covered_concat_pop, not_and, not_lt] at h
          exact ⟨rest, form, [], rfl, hrest, hrest.all.antisymm (h hrest)⟩
      · obtain ⟨between, form, back, rfl, hb⟩ := ih hrest
        exact ⟨between, form, back ++ [m], by simp, hb⟩

instance (rest : List (Move α)) : Decidable (Closed rest) := decidable_of_iff _ closed_iff.symm

/-- The elements of the pushes that no removal closes, in order. -/
def unmatched : List (Move α) → List α
  | [] => []
  | .push a :: rest => if Closed rest then unmatched rest else a :: unmatched rest
  | .pop _ :: rest => unmatched rest

/-- Covered moves close no push in front of them. -/
theorem closed_append (h : Covered back) : Closed (front ++ back) ↔ Closed front := by
  rw [closed_iff, closed_iff, not_iff_not]
  exact ⟨Covered.prior, fun hf => hf.append h⟩

theorem unmatched_append (h : Covered back) :
    unmatched (front ++ back) = unmatched front ++ unmatched back := by
  induction front with
  | nil => rfl
  | cons m front ih =>
    cases m with
    | pop form => exact ih
    | push a =>
      simp only [List.cons_append, unmatched, closed_append h, ih]
      split <;> rfl

/-- Where every end takes as much as it leaves, all pushes are closed. -/
theorem unmatched_eq_nil (h : ∀ back, back <:+ moves → pushes back ≤ pops back) :
    unmatched moves = [] := by
  induction moves with
  | nil => rfl
  | cons m rest ih =>
    have hrest : unmatched rest = [] :=
      ih fun back hback => h back (hback.trans (List.suffix_cons m rest))
    cases m with
    | pop form => exact hrest
    | push a =>
      have hwhole := h _ List.suffix_rfl
      rw [pushes_push, pops_push] at hwhole
      have hclosed : Closed rest := closed_iff.mpr fun hc => absurd hc.all (by omega)
      rw [unmatched, if_pos hclosed, hrest]

theorem Balanced.unmatched_eq (h : Balanced moves) : unmatched moves = [] := by
  refine unmatched_eq_nil fun back ⟨front, hsplit⟩ => ?_
  subst hsplit
  have hfront := h.1.prior.all
  have htotal := h.2
  rw [pops_append, pushes_append] at htotal
  omega

/-! ### Open pushes -/

/-- Balanced moves, and then time and again a push that is open and balanced moves behind it. -/
inductive Standing : List (Move α) → List α → Prop
  | balanced {moves : List (Move α)} : Balanced moves → Standing moves []
  | push {moves between : List (Move α)} {held : List α} {a : α} :
    Standing moves held → Balanced between →
      Standing (moves ++ .push a :: between) (held ++ [a])

namespace Standing

variable {held : List α}

theorem append (h : Standing moves held) (hb : Balanced back) : Standing (moves ++ back) held := by
  cases h with
  | balanced hm => exact .balanced (hm.append hb)
  | push hm hbetween =>
    rw [List.append_assoc, List.cons_append]
    exact .push hm (hbetween.append hb)

/-- What the removals leave of the pushes are the open ones. -/
theorem pushes_eq (h : Standing moves held) : pushes moves = pops moves + held.length := by
  induction h with
  | balanced hm => exact hm.2.symm
  | push _ hbetween ih =>
    have htotal := hbetween.2
    simp only [pushes_append, pops_append, pushes_push, pops_push, List.length_append,
      List.length_singleton]
    omega

theorem unmatched_eq (h : Standing moves held) : unmatched moves = held := by
  induction h with
  | balanced hm => exact hm.unmatched_eq
  | @push moves between held a _ hbetween ih =>
    have hopen : ¬ Closed between := fun hc => closed_iff.mp hc hbetween.1
    rw [unmatched_append (covered_push a hbetween.1), ih, unmatched, if_neg hopen,
      hbetween.unmatched_eq]

/-- Where there were more pushes than removals, the next removal matches the last open push. -/
theorem exists_match (h : Standing moves held) (hsome : pops moves < pushes moves) :
    ∃ front rest a between, moves = front ++ .push a :: between ∧ held = rest ++ [a] ∧
      Standing front rest ∧ Balanced between := by
  cases h with
  | balanced hm => exact absurd hm.2 hsome.ne
  | @push front between rest a hfront hbetween =>
    exact ⟨front, rest, a, between, rfl, rfl, hfront, hbetween⟩

end Standing

end Move

/-! ### Runs -/

open Move

variable {moves before after : List (Move α)}

theorem run_append (s : Sequence α) (before after : List (Move α)) :
    s.run (before ++ after) =
      ((s.run before).1 ++ ((s.run before).2.run after).1, ((s.run before).2.run after).2) := by
  induction before generalizing s with
  | nil => rfl
  | cons m before ih => simp only [List.cons_append, run, ih]

@[simp] theorem length_run (s : Sequence α) (moves : List (Move α)) :
    (s.run moves).1.length = moves.length := by
  induction moves generalizing s with
  | nil => rfl
  | cons m moves ih => simp only [run, List.length_cons, ih]

theorem run_getElem? (s : Sequence α) (before after : List (Move α)) (m : Move α) :
    (s.run (before ++ m :: after)).1[before.length]? = some ((s.run before).2.move m).1 := by
  rw [run_append, List.getElem?_append_right (length_run s before).le, length_run, Nat.sub_self]
  rfl

theorem move_push (s : Sequence α) (a : α) :
    s.move (.push a) = (.number (s.length + 1), ofList (s.toList ++ [a])) := by
  rw [← toList_push]
  rfl

theorem move_pop {s : Sequence α} {front : List α} {a : α} (h : s.toList = front ++ [a])
    (form : Removal) : s.move (.pop form) = (form.answer a, ofList front) := by
  cases form <;> simp [move, pop_eq, tryPop_eq, popUnchecked_eq, h] <;> rfl

/-- The sequence holds its old elements and those of the open pushes, after covered moves. -/
theorem exists_standing (s : Sequence α) (h : Covered moves) :
    ∃ held, Standing moves held ∧ (s.run moves).2.toList = s.toList ++ held := by
  induction moves using List.reverseRecOn with
  | nil => exact ⟨[], .balanced balanced_nil, (List.append_nil _).symm⟩
  | append_singleton moves m ih =>
    obtain ⟨held, hstanding, hlist⟩ := ih h.prior
    have hlast : (s.run (moves ++ [m])).2 = ((s.run moves).2.move m).2 := by rw [run_append]; rfl
    cases m with
    | push a =>
      refine ⟨held ++ [a], .push hstanding balanced_nil, ?_⟩
      rw [hlast, move_push, toList_ofList, hlist, List.append_assoc]
    | pop form =>
      have hsome : pops moves < pushes moves := ((covered_concat_pop form).mp h).2
      obtain ⟨front, rest, a, between, rfl, rfl, hfront, hbetween⟩ := hstanding.exists_match hsome
      rw [← List.append_assoc] at hlist
      refine ⟨rest, ?_, ?_⟩
      · rw [List.append_assoc]
        exact hfront.append (hbetween.wrap a form)
      · rw [hlast, move_pop hlist, toList_ofList]

/-- **Pushes and removals are brackets.** If no prefix of the moves has more removals than pushes,
every move is answered with a number or an element: a push with the number of elements that the
moves so far leave, and a removal, in whichever form, with the element of the one push that it
matches. At the end the sequence holds its old elements and those of the pushes without a match,
so it is what it was if the moves are balanced. -/
theorem run_as_brackets (s : Sequence α) (h : Covered moves) :
    (s.run moves).1.length = moves.length ∧
    (∀ before a after, moves = before ++ .push a :: after →
      (s.run moves).1[before.length]? =
        some (.number (s.length + pushes (before ++ [.push a]) - pops (before ++ [.push a])))) ∧
    (∀ before form after, moves = before ++ .pop form :: after →
      ∃ front a between, before = front ++ .push a :: between ∧ Balanced between ∧
        (∀ front' a' between', before = front' ++ .push a' :: between' → Balanced between' →
          front = front' ∧ a = a' ∧ between = between') ∧
        (s.run moves).1[before.length]? = some (form.answer a)) ∧
    (s.run moves).2.toList = s.toList ++ unmatched moves ∧
    (Balanced moves → (s.run moves).2 = s) := by
  obtain ⟨held, hstanding, hlist⟩ := s.exists_standing h
  rw [← hstanding.unmatched_eq] at hlist
  refine ⟨length_run s moves, ?_, ?_, hlist, fun hb => ?_⟩
  · rintro before a after rfl
    obtain ⟨held, hstanding, hlist⟩ := s.exists_standing h.prior
    have hlength := congrArg List.length hlist
    have hcount := hstanding.pushes_eq
    rw [length_toList, List.length_append, length_toList] at hlength
    rw [run_getElem?, move_push]
    simp only [pushes_append, pops_append, pushes_push, pops_push, pushes_nil, pops_nil]
    congr 2
    omega
  · rintro before form after rfl
    obtain ⟨held, hstanding, hlist⟩ := s.exists_standing h.prior
    have hsome : pops before < pushes before := by
      rw [List.append_cons] at h
      exact ((covered_concat_pop form).mp h.prior).2
    obtain ⟨front, rest, a, between, rfl, rfl, -, hbetween⟩ := hstanding.exists_match hsome
    refine ⟨front, a, between, rfl, hbetween, fun front' a' between' hsplit hbetween' =>
      hbetween.unique hbetween' hsplit, ?_⟩
    rw [← List.append_assoc] at hlist
    rw [run_getElem?, move_pop hlist]
  · rw [← toList_inj, hlist, hb.unmatched_eq, List.append_nil]

/-- Two elements stay, and each form of removal takes one that was pushed in between. -/
theorem run_as_brackets_nested :
    let s : Sequence ℕ := .ofList [1]
    let between : List (Move ℕ) := [.push 3, .pop .checked, .push 4, .pop .panicking]
    let moves := .push 2 :: between ++ [.pop .unchecked, .push 5]
    Covered moves ∧ (s.run moves).2.toList = [1, 5] ∧ (s.run moves).1[5]? = some (.element 2) ∧
      (s.run moves).1[6]? = some (.number 2) := by
  intro s between moves
  have h : Covered moves := by decide
  obtain ⟨-, hpush, hpop, hlast, -⟩ := s.run_as_brackets h
  refine ⟨h, ?_, ?_, ?_⟩
  · rw [hlast]
    decide
  · obtain ⟨front, a, inner, -, -, hone, hanswer⟩ :=
      hpop (.push 2 :: between) .unchecked [.push 5] rfl
    obtain ⟨-, ha, -⟩ := hone [] 2 between rfl (by decide)
    rw [ha] at hanswer
    exact hanswer
  · exact hpush (.push 2 :: between ++ [.pop .unchecked]) 5 [] rfl

end SupportLayer.Sequence
