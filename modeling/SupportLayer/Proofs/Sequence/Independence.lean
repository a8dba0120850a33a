/-
# Named sequences are values

What a run of steps does with named sequences it does with plain lists (`Lists`): a list is never
written to, a name stands for another list instead. Most steps do something with the list of one
name by itself, and only copying, handing over and comparing concern two (`Kind`). So what is to be
known about a step is known from four cases: it changes the lists of the names in it only
(`Lists.serve_frame`), and what it answers and leaves there depends on these lists only
(`Lists.serve_local`). From the two follows that steps which share no name may change places, and
that a copy and its original, or a new owner and the old one, never see what is done to the other.

Key definitions: `Registers.Lists`, `Registers.contents`, `Registers.Kind`, `Registers.Step.kind`,
`Registers.Step.names`, `Registers.Lists.step`, `Registers.Lists.run`, `Registers.Answer.Failed`.
Key theorems: `Registers.step_refines`, `Registers.run_refines`,
`Registers.Lists.serve_frame`, `Registers.Lists.serve_local`, `Registers.Lists.run_swap`,
`Registers.Lists.step_failed`, `Registers.sequences_are_values`.
-/
import Mathlib
import SupportLayer.Proofs.Sequence.Display
import SupportLayer.Sequence.Registers

namespace SupportLayer.Registers

variable {α : Type}

/-! ### Lists -/

/-- The list that each name stands for. -/
abbrev Lists (α : Type) := String → List α

/-- The lists of named sequences. -/
def contents (registers : Registers α) : Lists α := fun name => (registers.lookup name).toList

/-- What a step is to lists: something done with the list of one name, which answers and leaves a
list, or what concerns two names. -/
inductive Kind (α : Type) where
  | on (r : String) (act : List α → Answer α × List α)
  | copy (r target : String)
  | transfer (r target : String)
  | compare (r other : String)

namespace Kind

/-- The names of a step. -/
def names : Kind α → List String
  | on r _ => [r]
  | copy r target => [r, target]
  | transfer r target => [r, target]
  | compare r other => [r, other]

/-- The list of a name is looked at, and left as it is. -/
def read (r : String) (answer : List α → Answer α) : Kind α := on r fun l => (answer l, l)

/-- The last element of the list of a name is taken off. -/
def remove (r : String) (answer : Option α → Answer α) : Kind α :=
  on r fun l => (answer l.getLast?, l.dropLast)

end Kind

section

variable [Shown α] [Stored α]

/-- What each step is to lists. -/
def Step.kind : Step α → Kind α
  | .create r => .on r fun _ => (.nothing, [])
  | .createWithCapacity r room =>
    .on r fun l =>
      if room * Stored.size α ≤ Sequence.mostBytes then (.nothing, [])
      else (.panic .capacityOverflow, l)
  | .fill r elements => .on r fun _ => (.nothing, elements)
  | .copy r target => .copy r target
  | .transfer r target => .transfer r target
  | .push r a => .on r fun l => (.number (l.length + 1), l ++ [a])
  | .pop r => .remove r fun last => last.elim (.panic .emptyPop) .element
  | .tryPop r => .remove r fun last => .checked (last.elim (.error .emptyContainer) .ok)
  | .popUnchecked r => .remove r fun last => last.elim .outOfContract .element
  | .get r i => .read r fun l => l[i]?.elim (.panic (.outOfBounds l.length i)) .element
  | .tryGet r i => .read r fun l => .checked (l[i]?.elim (.error (.outOfRange i l.length)) .ok)
  | .getUnchecked r i => .read r fun l => l[i]?.elim .outOfContract .element
  | .set r i a =>
    .on r fun l => if i < l.length then (.nothing, l.set i a) else (.outOfContract, l)
  | .length r => .read r fun l => .number l.length
  | .isEmpty r => .read r fun l => .flag l.isEmpty
  | .view r => .read r fun l =>
    .view (.ofList l)
      ("RawView \x7b elements: ".toList ++
        Print.Style.list { form := .quoted } (l.map (Shown.quoted { form := .quoted })) ++
        " \x7d".toList)
  | .iterate r => .read r .elements
  | .consume r => .on r fun l => (.elements l, [])
  | .display r => .read r fun l => .text (listing (l.map (Shown.display {})))
  | .quote r => .read r fun l =>
    .text (Print.Style.list { form := .quoted } (l.map (Shown.quoted { form := .quoted })))
  | .quoteTall r => .read r fun l =>
    .text (Print.Style.list { form := .tall } (l.map (Shown.quoted { form := .tall })))
  | .write r sink => .read r fun l =>
    .written ((Sequence.ofList l).writeTo sink).1 ((Sequence.ofList l).writeTo sink).2
  | .compare r other => .compare r other

/-- The names that a step mentions. -/
def Step.names (s : Step α) : List String := s.kind.names

end

namespace Lists

variable [DecidableEq α]

/-- What a step of a kind answers, and the lists behind it. -/
def serve (lists : Lists α) : Kind α → Answer α × Lists α
  | .on r act => ((act (lists r)).1, Function.update lists r (act (lists r)).2)
  | .copy r target => (.nothing, Function.update lists target (lists r))
  | .transfer r target =>
    (.nothing, Function.update (Function.update lists r []) target (lists r))
  | .compare r other => (.comparison (lists r = lists other), lists)

/-- One step on named lists. -/
def step [Shown α] [Stored α] (lists : Lists α) (s : Step α) : Answer α × Lists α := lists.serve s.kind

/-- The answers of a run of steps, each with the lists as the step left them, and the lists at the
end. -/
def run [Shown α] [Stored α] (lists : Lists α) : List (Step α) → List (Answer α × Lists α) × Lists α
  | [] => ([], lists)
  | s :: steps =>
    let (answer, lists) := lists.step s
    let (answers, last) := run lists steps
    ((answer, lists) :: answers, last)

end Lists

/-! ### Sequences refine lists -/

section

variable (registers : Registers α)

theorem lookup_assign (name other : String) (s : Sequence α) :
    (registers.assign name s).lookup other =
      if name = other then s else registers.lookup other := by
  induction registers with
  | nil => rfl
  | cons entry rest ih =>
    obtain ⟨n, old⟩ := entry
    by_cases hn : n = name
    · subst hn
      by_cases ho : n = other <;> simp [assign, lookup, ho]
    · by_cases ho : n = other
      · subst ho
        simp [assign, lookup, hn, Ne.symm hn]
      · simp [assign, lookup, hn, ho, ih]

theorem contents_apply (name : String) :
    contents registers name = (registers.lookup name).toList := rfl

@[simp] theorem contents_assign (name : String) (s : Sequence α) :
    contents (registers.assign name s) = Function.update (contents registers) name s.toList := by
  funext other
  by_cases h : name = other
  · subst h
    simp [contents, lookup_assign]
  · simp [contents, lookup_assign, h, Ne.symm h]

@[simp] theorem contents_mention (name : String) :
    contents (registers.mention name) = contents registers := by
  rw [mention, contents_assign]
  exact Function.update_eq_self name _

theorem lookup_mention (name other : String) :
    (registers.mention name).lookup other = registers.lookup other := by
  rw [← Sequence.toList_inj]
  exact congrFun (contents_mention registers name) other

end

theorem Answer.ofPanicking_elim (last : Option α) (p : Panic) :
    Answer.ofPanicking (last.elim (.error p) .ok) = last.elim (.panic p) .element := by
  cases last <;> rfl

theorem Answer.ofUnchecked_eq (last : Option α) :
    Answer.ofUnchecked last = last.elim .outOfContract .element := by
  cases last <;> rfl

namespace Lists

variable [DecidableEq α] (lists : Lists α) (r : String)

theorem serve_on (act : List α → Answer α × List α) :
    lists.serve (.on r act) =
      ((act (lists r)).1, Function.update lists r (act (lists r)).2) := rfl

theorem serve_read (answer : List α → Answer α) :
    lists.serve (.read r answer) = (answer (lists r), lists) := by
  rw [Kind.read, serve_on, Function.update_eq_self]

theorem serve_remove (answer : Option α → Answer α) :
    lists.serve (.remove r answer) =
      (answer (lists r).getLast?, Function.update lists r (lists r).dropLast) := rfl

end Lists

section

variable [Shown α] [DecidableEq α] [Stored α]

/-- A step on sequences is that step on their lists. -/
theorem step_refines (registers : Registers α) (s : Step α) :
    ((registers.step s).1, contents (registers.step s).2) = (contents registers).step s := by
  cases s with
  | create r | fill r | consume r =>
    simp only [step, contents_assign, Lists.step, Step.kind, Lists.serve_on, contents_apply]
    rfl
  | createWithCapacity r room =>
    simp only [step, Lists.step, Step.kind, Lists.serve_on, contents_apply]
    by_cases h : Sequence.Fits α room
    · simp only [Sequence.withCapacity_of_fits h, contents_assign, if_pos (show _ ≤ _ from h)]
      rfl
    · simp only [Sequence.withCapacity_of_not_fits h, contents_mention,
        if_neg (show ¬ _ ≤ _ from h)]
      rw [← contents_apply, Function.update_eq_self]
  | copy r target =>
    simp only [step, contents_assign, contents_mention, lookup_mention, Lists.step, Step.kind]
    rfl
  | transfer r target =>
    simp only [step, Sequence.transfer, contents_assign, Lists.step, Step.kind]
    rfl
  | push r a =>
    simp only [step, contents_assign, Sequence.toList_push, Lists.step, Step.kind, Lists.serve_on,
      contents_apply, Sequence.length_toList]
    rfl
  | pop r | tryPop r | popUnchecked r =>
    simp only [step, Sequence.pop_eq, Sequence.tryPop_eq, Sequence.popUnchecked_eq,
      contents_assign, Sequence.toList_ofList, Answer.ofPanicking_elim, Answer.ofUnchecked_eq,
      Lists.step, Step.kind, Lists.serve_remove, contents_apply]
  | get r i | tryGet r i | getUnchecked r i =>
    simp only [step, Sequence.get_eq, Sequence.tryGet_eq, Sequence.getUnchecked_eq,
      contents_mention, Answer.ofPanicking_elim, Answer.ofUnchecked_eq, Lists.step, Step.kind,
      Lists.serve_read, contents_apply, Sequence.length_toList]
  | set r i a =>
    simp only [step, Sequence.set_eq, Lists.step, Step.kind, Lists.serve_on, contents_apply,
      Sequence.length_toList]
    by_cases h : i < (registers.lookup r).length
    · simp only [if_pos h, contents_assign, Sequence.toList_ofList]
    · simp only [if_neg h, contents_mention]
      rw [← contents_apply, Function.update_eq_self]
  | compare r other =>
    simp only [step, contents_mention, Lists.step, Step.kind, Lists.serve, contents_apply,
      Sequence.toList_inj]
  | display r =>
    simp only [step, contents_mention, Lists.step, Step.kind, Lists.serve_read, contents_apply,
      Sequence.display, Sequence.display_eq_listing]
  | length r | isEmpty r | iterate r =>
    simp only [step, contents_mention, Lists.step, Step.kind, Lists.serve_read, contents_apply,
      Sequence.length_toList, Sequence.isEmpty_toList]
  | view r | quote r | quoteTall r | write r sink =>
    simp only [step, contents_mention, Lists.step, Step.kind, Lists.serve_read, contents_apply]
    rfl

theorem answer_step (registers : Registers α) (s : Step α) :
    (registers.step s).1 = ((contents registers).step s).1 :=
  congrArg Prod.fst (step_refines registers s)

theorem contents_step (registers : Registers α) (s : Step α) :
    contents (registers.step s).2 = ((contents registers).step s).2 :=
  congrArg Prod.snd (step_refines registers s)

/-- A run on sequences is that run on their lists: each step has the answer that it has on
lists, and leaves the lists that it leaves there. -/
theorem run_refines (registers : Registers α) (steps : List (Step α)) :
    ((registers.run steps).1.map (fun served => (served.1, contents served.2)),
      contents (registers.run steps).2) = (contents registers).run steps := by
  induction steps generalizing registers with
  | nil => rfl
  | cons s steps ih =>
    simp only [run, Lists.run, List.map_cons, ← step_refines, ← ih]

theorem answers_run (registers : Registers α) (steps : List (Step α)) :
    (registers.run steps).1.map Prod.fst = ((contents registers).run steps).1.map Prod.fst := by
  rw [← run_refines, List.map_map]
  rfl

theorem contents_run (registers : Registers α) (steps : List (Step α)) :
    contents (registers.run steps).2 = ((contents registers).run steps).2 :=
  congrArg Prod.snd (run_refines registers steps)

end

/-! ### What a step has to do with a name -/

namespace Lists

/-- The lists of some names are the same. -/
def AgreeOn (names : List String) (lists lists' : Lists α) : Prop :=
  ∀ name ∈ names, lists name = lists' name

variable [DecidableEq α] {lists lists' : Lists α} {k k' : Kind α} {name : String}

theorem serve_frame (lists : Lists α) (h : name ∉ k.names) :
    (lists.serve k).2 name = lists name := by
  cases k with
  | on r act =>
    have hr : name ≠ r := fun he => h (he ▸ List.mem_singleton_self r)
    exact Function.update_of_ne hr _ _
  | copy r target =>
    have ht : name ≠ target := fun he => h (by simp [Kind.names, he])
    exact Function.update_of_ne ht _ _
  | transfer r target =>
    have hr : name ≠ r := fun he => h (by simp [Kind.names, he])
    have ht : name ≠ target := fun he => h (by simp [Kind.names, he])
    exact (Function.update_of_ne ht _ _).trans (Function.update_of_ne hr _ _)
  | compare r other => rfl

/-- What a step answers and leaves depends on the lists of the names in it only. -/
theorem serve_local (h : AgreeOn k.names lists lists') :
    (lists.serve k).1 = (lists'.serve k).1 ∧
      AgreeOn k.names (lists.serve k).2 (lists'.serve k).2 := by
  cases k with
  | on r act =>
    have hr : lists r = lists' r := h r (List.mem_singleton_self r)
    refine ⟨by rw [serve_on, serve_on, hr], fun name hn => ?_⟩
    cases List.mem_singleton.mp hn
    simp only [serve_on, hr, Function.update_self]
  | copy r target =>
    have hr : lists r = lists' r := h r (by simp [Kind.names])
    refine ⟨rfl, fun name hn => ?_⟩
    by_cases ht : name = target
    · simp only [serve, ht, hr, Function.update_self]
    · simpa only [serve, Function.update_of_ne ht] using h name hn
  | transfer r target =>
    have hr : lists r = lists' r := h r (by simp [Kind.names])
    refine ⟨rfl, fun name hn => ?_⟩
    by_cases ht : name = target
    · simp only [serve, ht, hr, Function.update_self]
    · simp only [serve, Function.update_of_ne ht]
      by_cases hname : name = r
      · rw [hname, Function.update_self, Function.update_self]
      · rw [Function.update_of_ne hname, Function.update_of_ne hname]
        exact h name hn
  | compare r other =>
    have hr : lists r = lists' r := h r (by simp [Kind.names])
    have ho : lists other = lists' other := h other (by simp [Kind.names])
    exact ⟨by simp only [serve, hr, ho], h⟩

/-- A step leaves what another step with no name in common depends on. -/
theorem agreeOn_serve (lists : Lists α) (h : k.names.Disjoint k'.names) :
    AgreeOn k'.names (lists.serve k).2 lists :=
  fun _ hn => serve_frame lists fun hk => h hk hn

/-- Steps with no name in common answer and leave the same in either order. -/
theorem serve_comm (lists : Lists α) (h : k.names.Disjoint k'.names) :
    ((lists.serve k).2.serve k').1 = (lists.serve k').1 ∧
      ((lists.serve k).2.serve k').2 = ((lists.serve k').2.serve k).2 := by
  have hk := serve_local (agreeOn_serve lists h.symm)
  have hk' := serve_local (agreeOn_serve lists h)
  refine ⟨hk'.1, funext fun name => ?_⟩
  by_cases hn : name ∈ k.names
  · rw [hk.2 name hn, serve_frame _ fun hn' => h hn hn']
  · rw [serve_frame (k := k) _ hn]
    by_cases hn' : name ∈ k'.names
    · exact hk'.2 name hn'
    · rw [serve_frame _ hn', serve_frame _ hn, serve_frame _ hn']

variable [Shown α] [Stored α]

/-- Two steps with no name in common change places in a run: so do their answers, and nothing else
changes. -/
theorem run_swap (lists : Lists α) (before after : List (Step α)) {s t : Step α}
    (h : s.names.Disjoint t.names) :
    ∃ front a b back, front.length = before.length ∧
      (lists.run (before ++ s :: t :: after)).1.map Prod.fst = front ++ a :: b :: back ∧
      (lists.run (before ++ t :: s :: after)).1.map Prod.fst = front ++ b :: a :: back ∧
      (lists.run (before ++ s :: t :: after)).2 = (lists.run (before ++ t :: s :: after)).2 := by
  induction before generalizing lists with
  | nil =>
    obtain ⟨hanswer, hleft⟩ := serve_comm lists h
    obtain ⟨hanswer', -⟩ := serve_comm lists h.symm
    refine ⟨[], (lists.step s).1, (lists.step t).1,
      (((lists.step s).2.step t).2.run after).1.map Prod.fst, rfl, ?_, ?_, ?_⟩
    · simp only [List.nil_append, run, step, List.map_cons, hanswer]
    · simp only [List.nil_append, run, step, List.map_cons, hanswer', hleft]
    · simp only [List.nil_append, run, step, hleft]
  | cons u before ih =>
    obtain ⟨front, a, b, back, hlength, hst, hts, hlast⟩ := ih (lists.step u).2
    refine ⟨(lists.step u).1 :: front, a, b, back, congrArg (· + 1) hlength, ?_, ?_, hlast⟩
    · exact congrArg ((lists.step u).1 :: ·) hst
    · exact congrArg ((lists.step u).1 :: ·) hts

theorem run_frame (lists : Lists α) {steps : List (Step α)} (h : ∀ s ∈ steps, name ∉ s.names) :
    (lists.run steps).2 name = lists name := by
  induction steps generalizing lists with
  | nil => rfl
  | cons s steps ih =>
    obtain ⟨hs, hsteps⟩ := List.forall_mem_cons.mp h
    exact (ih (lists.step s).2 hsteps).trans (serve_frame lists hs)

end Lists

/-! ### Steps that fail -/

/-- The step panicked, reported a fault, or was not allowed. -/
def Answer.Failed : Answer α → Prop
  | .panic _ => True
  | .checked (.error _) => True
  | .outOfContract => True
  | _ => False

namespace Lists

variable [DecidableEq α]

/-- Where there is no last element, its removal leaves all lists. -/
theorem serve_remove_of_none {lists : Lists α} {r : String} (h : (lists r).getLast? = none)
    (answer : Option α → Answer α) : (lists.serve (.remove r answer)).2 = lists := by
  rw [List.getLast?_eq_none_iff] at h
  rw [serve_remove, h, List.dropLast_nil, ← h, Function.update_eq_self]

theorem step_failed [Shown α] [Stored α] {lists : Lists α} {s : Step α} (h : (lists.step s).1.Failed) :
    (lists.step s).2 = lists := by
  cases s with
  | create r | fill r | copy r target | transfer r target | push r | consume r => exact h.elim
  | createWithCapacity r room =>
    rw [step, Step.kind, serve_on] at h ⊢
    by_cases hroom : room * Stored.size α ≤ Sequence.mostBytes
    · rw [if_pos hroom] at h
      exact h.elim
    · simp only [if_neg hroom, Function.update_eq_self]
  | pop r | tryPop r | popUnchecked r =>
    rw [step, Step.kind] at h ⊢
    refine serve_remove_of_none ?_ _
    rw [serve_remove] at h
    cases hlast : (lists r).getLast? with
    | none => rfl
    | some a =>
      rw [hlast] at h
      exact h.elim
  | set r i a =>
    rw [step, Step.kind, serve_on] at h ⊢
    by_cases hi : i < (lists r).length
    · rw [if_pos hi] at h
      exact h.elim
    · simp only [if_neg hi, Function.update_eq_self]
  | compare r other => rfl
  | _ => rw [step, Step.kind, serve_read]

end Lists

/-! ### Named sequences -/

section

variable [Shown α] [DecidableEq α] [Stored α]

theorem contents_run_frame (registers : Registers α) {steps : List (Step α)} {name : String}
    (h : ∀ s ∈ steps, name ∉ s.names) :
    contents (registers.run steps).2 name = contents registers name := by
  rw [contents_run, Lists.run_frame _ h]

/-- **Named sequences are values.** A run answers and leaves what it does on plain lists. A step
changes the sequences only that it names, and none if it fails. Two steps that follow each other and
share no name may change places. After a copy, neither the new sequence nor the old one is changed
by whatever is done to others, and after one sequence was handed over to another name, that name
holds it and the old one is empty, each until a step names it. -/
theorem sequences_are_values (registers : Registers α) :
    (∀ steps,
      ((registers.run steps).1.map (fun served => (served.1, contents served.2)),
        contents (registers.run steps).2) = (contents registers).run steps) ∧
    (∀ s name, name ∉ s.names → contents (registers.step s).2 name = contents registers name) ∧
    (∀ s, (registers.step s).1.Failed → contents (registers.step s).2 = contents registers) ∧
    (∀ before s t after, s.names.Disjoint t.names → ∃ front a b back,
      front.length = before.length ∧
      (registers.run (before ++ s :: t :: after)).1.map Prod.fst = front ++ a :: b :: back ∧
      (registers.run (before ++ t :: s :: after)).1.map Prod.fst = front ++ b :: a :: back ∧
      contents (registers.run (before ++ s :: t :: after)).2 =
        contents (registers.run (before ++ t :: s :: after)).2) ∧
    (∀ r target steps,
      let copied := (registers.step (.copy r target)).2
      ((∀ s ∈ steps, target ∉ s.names) →
        contents (copied.run steps).2 target = contents registers r) ∧
      ((∀ s ∈ steps, r ∉ s.names) →
        contents (copied.run steps).2 r = contents registers r)) ∧
    (∀ r target steps, r ≠ target →
      let handed := (registers.step (.transfer r target)).2
      ((∀ s ∈ steps, target ∉ s.names) →
        contents (handed.run steps).2 target = contents registers r) ∧
      ((∀ s ∈ steps, r ∉ s.names) → contents (handed.run steps).2 r = [])) := by
  refine ⟨run_refines registers, fun s name hn => ?_, fun s hs => ?_, ?_, ?_, ?_⟩
  · rw [contents_step]
    exact Lists.serve_frame _ hn
  · rw [answer_step] at hs
    rw [contents_step, Lists.step_failed hs]
  · intro before s t after h
    simp only [answers_run, contents_run]
    exact Lists.run_swap _ before after h
  · intro r target steps
    refine ⟨fun h => ?_, fun h => ?_⟩ <;> rw [contents_run_frame _ h, contents_step]
    · exact Function.update_self ..
    · by_cases hr : r = target
      · subst hr
        exact Function.update_self ..
      · exact Function.update_of_ne hr _ _
  · intro r target steps hne
    refine ⟨fun h => ?_, fun h => ?_⟩ <;> rw [contents_run_frame _ h, contents_step]
    · exact Function.update_self ..
    · exact (Function.update_of_ne hne _ _).trans (Function.update_self ..)

/-- A sequence of sequences is copied, and then written to, cut short, used up and popped. -/
theorem sequences_are_values_nested :
    let registers : Registers (Sequence Int64) := [("a", .ofList [.ofList [1], .empty])]
    let steps : List (Step (Sequence Int64)) :=
      [.set "a" 0 (.ofList [9]), .pop "a", .consume "a", .pop "a"]
    (∀ s ∈ steps, "b" ∉ s.names) ∧
      contents ((registers.step (.copy "a" "b")).2.run steps).2 "b" = [.ofList [1], .empty] := by
  intro registers steps
  have hnames : ∀ s ∈ steps, "b" ∉ s.names := by decide
  obtain ⟨-, -, -, -, hcopy, -⟩ := sequences_are_values registers
  exact ⟨hnames, (hcopy "a" "b" steps).1 hnames⟩

end

end SupportLayer.Registers
