/-
# What happens in a run, step by step

A history is read event by event, and of the events so far a watcher keeps the open blocks, the
guards that wait in them and the guards that are held. What may happen next depends on the events
so far and on that (`Step`): a guard is bound in the innermost block while its statements are run;
it fires when they are done with and it is the last guard that waits there; a block is left when
no guard of it waits. Whatever is run, and however it ends, only such steps are made
(`Runs.watched`): that is one induction over the rules, with the block that a part is run in on
top of the open ones.

What a watcher knows follows by induction on the steps. A block is open if it is entered and not
left, and inner blocks have greater numbers. A guard waits in its block if it is bound and has not
fired, and later guards wait in front. Since every event was a step (`Watched.happened`), what has
come before an event is what the watcher knew when it happened; so the order of two events is read
off the later one.

Key definitions: `Guard.Step`, `Guard.Watched`.
Key theorems: `Guard.Runs.watched`, `Guard.Watched.happened`, `Guard.Watched.pending_or_fired`,
`Guard.Watched.fired_before_left`.
-/
import Mathlib
import SupportLayer.Proofs.Guard.History

namespace SupportLayer.Guard

open List

/-! ### What may happen next -/

/-- A block that is entered and not left: its guards that have not fired, the last one first, and
whether its statements are done with. -/
structure OpenBlock where
  number : ℕ
  guards : List ℕ := []
  ending : Bool := false

/-- What a watcher keeps of the events so far: the open blocks, the innermost first, and the
guards that are held. -/
structure Watch where
  blocks : List OpenBlock := []
  held : List ℕ := []

/-- When a block may be entered: a turn of a loop when the turn before it has been left, the
action of a guard when the guard has just fired. -/
@[simp] def Cause.Follows (past : List Event) : Cause → Prop
  | .statement => True
  | .turn previous => ∀ b ∈ previous, ∃ o, .left b o ∈ past
  | .action guard => ∃ owner, past.getLast? = some (.fired guard owner)

/-- What may happen behind the events `past`, and what is kept of it. -/
inductive Step (past : List Event) : Watch → Event → Watch → Prop where
  | line {w text} : Step past w (.line text) w
  | entered {blocks held cause} : cause.Follows past →
      Step past ⟨blocks, held⟩ (.entered past.length cause) ⟨⟨past.length, [], false⟩ :: blocks, held⟩
  | bound {b guards blocks held} :
      Step past ⟨⟨b, guards, false⟩ :: blocks, held⟩ (.bound past.length b)
        ⟨⟨b, past.length :: guards, false⟩ :: blocks, held⟩
  | leaving {b guards blocks held o} :
      Step past ⟨⟨b, guards, false⟩ :: blocks, held⟩ (.leaving b o)
        ⟨⟨b, guards, true⟩ :: blocks, held⟩
  /-- The last guard of the innermost block fires. -/
  | fired {b t guards blocks held} :
      Step past ⟨⟨b, t :: guards, true⟩ :: blocks, held⟩ (.fired t (.block b))
        ⟨⟨b, guards, true⟩ :: blocks, held⟩
  /-- A block is left when no guard of it is left. -/
  | left {b blocks held o} :
      Step past ⟨⟨b, [], true⟩ :: blocks, held⟩ (.left b o) ⟨blocks, held⟩
  | held {blocks held} :
      Step past ⟨blocks, held⟩ (.held past.length) ⟨blocks, held ++ [past.length]⟩
  /-- A guard that is held is released in the innermost block. -/
  | released {c guards blocks before t after} :
      Step past ⟨⟨c, guards, false⟩ :: blocks, before ++ t :: after⟩ (.fired t (.release c))
        ⟨⟨c, guards, false⟩ :: blocks, before ++ after⟩
  | closing {held} : Step past ⟨[], held⟩ .closing ⟨[], held⟩
  | dropped {t held} : .closing ∈ past →
      Step past ⟨[], t :: held⟩ (.fired t .held) ⟨[], held⟩

/-- The events so far, and what is kept of them. -/
inductive Watched : List Event → Watch → Prop where
  | start : Watched [] {}
  | step {past w e w'} : Watched past w → Step past w e w' → Watched (past ++ [e]) w'

/-! ### Runs are watched -/

/-- The open block that a part starts in. -/
@[simp] def Part.before : Part → List OpenBlock
  | .rest number _ _ guards => [⟨number, guards.map Armed.number, false⟩]
  | .unwind number guards _ => [⟨number, guards.map Armed.number, true⟩]
  | _ => []

/-- The open block that a part ends in. -/
@[simp] def Part.after : Part → List OpenBlock
  | .rest number _ _ _ | .unwind number _ _ => [⟨number, [], true⟩]
  | _ => []

/-- When a part may start: a block as its cause has it, a statement in the block that it stands
in, the guards held at the end behind all blocks. -/
@[simp] def Part.Ready (past : List Event) (blocks : List OpenBlock) : Part → Prop
  | .block cause _ _ => cause.Follows past
  | .stmt number _ _ => ∃ guards outer, blocks = ⟨number, guards, false⟩ :: outer
  | .turns _ _ _ previous => (Cause.turn previous).Follows past
  | .held => blocks = [] ∧ .closing ∈ past
  | _ => True

/-- The numbers of the guards that are held. -/
def Held.numbers (held : Held) : List ℕ := held.map fun e => e.2.number

/-- The events so far of a part that has come to its end, and what is kept of them unless the
program has ended in it. -/
def WatchedTo (past : List Event) (outcome : Outcome) (w : Watch) : Prop :=
  ∃ w', Watched past w' ∧ (outcome ≠ .aborted → w' = w)

theorem Watched.to {past : List Event} {w : Watch} (h : Watched past w) (outcome : Outcome) :
    WatchedTo past outcome w := ⟨w, h, fun _ => rfl⟩

theorem Watched.lines {past : List Event} {w : Watch} (h : Watched past w) (texts : List String) :
    Watched (past ++ texts.map .line) w := by
  induction texts generalizing past with
  | nil => simpa using h
  | cons text texts ih =>
    have hline : Watched (past ++ [.line text]) w := h.step .line
    simpa using ih hline

namespace WatchedTo

variable {past : List Event} {outcome later : Outcome} {w w' : Watch}

theorem watched (h : WatchedTo past outcome w) (ho : outcome ≠ .aborted) : Watched past w := by
  obtain ⟨w', hw, heq⟩ := h
  exact heq ho ▸ hw

theorem aborted (h : WatchedTo past .aborted w) (w' : Watch) : WatchedTo past .aborted w' := by
  obtain ⟨w, hw, -⟩ := h
  exact ⟨w, hw, fun ho => absurd rfl ho⟩

theorem imp (h : WatchedTo past outcome w) (ho : outcome = .aborted → later = .aborted) :
    WatchedTo past later w := by
  obtain ⟨w', hw, heq⟩ := h
  exact ⟨w', hw, fun hlater => heq fun hend => hlater (ho hend)⟩

theorem lines (h : WatchedTo past outcome w) (texts : List String) :
    WatchedTo (past ++ texts.map .line) outcome w := by
  obtain ⟨w', hw, heq⟩ := h
  exact ⟨w', hw.lines texts, heq⟩

end WatchedTo

@[simp] theorem absorb_aborted (b : Boundary) (s : State) : b.absorb .aborted s = (.aborted, s) := by
  cases b <;> rfl

@[simp] theorem afterAction_aborted (outcome : Outcome) :
    outcome.afterAction .aborted = .aborted := by
  unfold Outcome.afterAction
  split <;> simp_all

theorem Runs.entered_left {cause : Cause} {body : List Stmt} {iteration n : ℕ} {held held' : Held}
    {events : List Event} {outcome : Outcome}
    (h : Runs (.block cause body iteration) n held events outcome held')
    (ho : outcome ≠ .aborted) : [.entered n cause, .left n outcome] <+ events := by
  cases h
  simp [Outcome.departure, ho]

/-- A run is watched from its start to its end. -/
theorem Runs.watched {part : Part} {n : ℕ} {held held' : Held} {events : List Event}
    {outcome : Outcome} (h : Runs part n held events outcome held') {past : List Event}
    {blocks : List OpenBlock} (hpast : Watched past ⟨part.before ++ blocks, held.numbers⟩)
    (hn : past.length = n) (hready : part.Ready past blocks) :
    WatchedTo (past ++ events) outcome ⟨part.after ++ blocks, held'.numbers⟩ := by
  induction h generalizing past blocks with
  | @block _ _ _ _ _ events outcome _ _ ih =>
    subst hn
    have hrest := ih (hpast.step (.entered hready)) (by simp) trivial
    by_cases ho : outcome = .aborted
    · subst ho
      simpa [Outcome.departure] using hrest.aborted _
    · simpa [Outcome.departure, ho] using ((hrest.watched ho).step .left).to outcome
  | done _ ih => simpa using ih (hpast.step .leaving) (by simp [hn]) trivial
  | bind _ ih =>
    subst hn
    simpa using ih (hpast.step .bound) (by simp) trivial
  | next _ _ _ ih ih' =>
    have hone := (ih hpast hn ⟨_, _, rfl⟩).watched (by simp)
    simpa using ih' hone (by simp [hn]) trivial
  | exit _ _ _ ih ih' =>
    have hone := (ih hpast hn ⟨_, _, rfl⟩).watched (by simp)
    simpa using ih' (hone.step .leaving) (by simp [hn, Nat.add_assoc]) trivial
  | halted _ _ ih => exact (ih hpast hn ⟨_, _, rfl⟩).aborted _
  | unwound => simpa using hpast.to _
  | @fire _ _ _ outcome _ _ _ action _ _ _ _ hgo _ _ ih ih' =>
    have hdone : action ≠ .aborted := by
      rintro rfl
      simp at hgo
    have haction := (ih (hpast.step .fired) (by simp [hn]) (by simp)).watched hdone
    simpa using ih' haction (by simp [hn]; omega) trivial
  | lastFire hend _ ih =>
    have haction := ih (hpast.step .fired) (by simp [hn]) (by simp)
    simpa using (haction.imp fun _ => rfl).aborted _
  | unbound => simpa using hpast.to _
  | log => exact (hpast.step .line).to _
  | nested _ ih =>
    rw [← List.append_assoc]
    exact ((ih hpast hn trivial).lines _).imp (by rintro rfl; simp)
  | wanted _ ih => exact ih hpast hn trivial
  | unwanted => simpa using hpast.to _
  | loop _ ih => exact ih hpast hn (by simp)
  | leave => simpa using hpast.to _
  | hold =>
    subst hn
    simpa [Held.numbers] using (hpast.step .held).to _
  | missing => simpa using hpast.to _
  | @release number name guard _ _ before after _ _ _ _ _ ih =>
    obtain ⟨guards, outer, rfl⟩ := hready
    simp only [Held.numbers, List.map_append, List.map_cons] at hpast
    have hfired : Watched (past ++ [.fired guard.number (.release number)])
        ⟨⟨number, guards, false⟩ :: outer, Held.numbers (before ++ after)⟩ := by
      simpa [Held.numbers] using hpast.step .released
    have haction := ih hfired (by simp [hn]) (by simp)
    simpa using haction.imp (by rintro rfl; simp)
  | finished => simpa using hpast.to _
  | @turn _ _ _ _ n _ events outcome _ _ _ _ ho hturn _ ih ih' =>
    have hdone : outcome ≠ .aborted := by
      rintro rfl
      simp at ho
    have hleft : ∀ b ∈ some n, ∃ o, .left b o ∈ past ++ events := by
      rintro b ⟨⟩
      exact ⟨outcome, List.mem_append_right _ ((hturn.entered_left hdone).subset (by simp))⟩
    simpa using ih' ((ih hpast hn hready).watched hdone) (by simp [hn]) hleft
  | stop _ _ _ ih => exact (ih hpast hn hready).imp (by rintro rfl; simp)
  | dropped => simpa using hpast.to _
  | drop hgo _ _ ih ih' =>
    obtain ⟨rfl, hclosing⟩ := hready
    have haction := (ih (hpast.step (.dropped hclosing)) (by simp [hn]) (by simp)).watched hgo
    simpa using ih' haction (by simp [hn]; omega) ⟨rfl, by simp [hclosing]⟩
  | lastDrop _ ih =>
    obtain ⟨rfl, hclosing⟩ := hready
    have haction := ih (hpast.step (.dropped hclosing)) (by simp [hn]) (by simp)
    simpa using haction.aborted _

/-- The history of a program is watched, and when the program has not ended before, no block is
open at its end and no guard held. -/
theorem Chronicle.watched {body : List Stmt} {history : List Event} {report : Report}
    (h : Chronicle body history report) : WatchedTo history report.outcome {} := by
  have hstart : Watched [] ⟨(Part.block .statement body 0).before ++ [], Held.numbers []⟩ := .start
  cases h with
  | @complete events drops outcome held ending held' hgo hbody hdrops =>
    have hbefore : Watched ([] ++ events) ⟨[], held.numbers⟩ :=
      (hbody.watched hstart rfl trivial).watched hgo
    have hclosed : Watched (events ++ [.closing]) ⟨Part.held.before ++ [], held.numbers⟩ :=
      hbefore.step .closing
    have hall := hdrops.watched hclosed (by simp) ⟨rfl, by simp⟩
    rw [List.append_assoc, List.singleton_append] at hall
    obtain ⟨rfl, rfl⟩ | rfl := hdrops.held_end
    · simpa [Held.numbers] using (hall.watched (by simp)).to _
    · simpa using hall.aborted {}
  | aborted hbody =>
    have hall := hbody.watched hstart rfl trivial
    simpa using hall.aborted {}

/-! ### What a watcher knows -/

/-- The numbers of the open blocks, the innermost first. -/
def Watch.numbers (w : Watch) : List ℕ := w.blocks.map OpenBlock.number

/-- The guards of the open blocks with the numbers of their blocks, in the order in which they
fire. -/
def Watch.pending (w : Watch) : List (ℕ × ℕ) :=
  w.blocks.flatMap fun ob => ob.guards.map fun t => (t, ob.number)

/-- The number that an event gives. -/
def Event.given? : Event → Option ℕ
  | .entered number _ | .bound number _ | .held number => some number
  | _ => none

/-- The block that an event happens in. -/
def Event.block? : Event → Option ℕ
  | .bound _ block | .leaving block _ | .left block _ => some block
  | .fired _ (.block block) | .fired _ (.release block) => some block
  | _ => none

theorem concat_sublist_concat {l past : List Event} {x e : Event} :
    l ++ [x] <+ past ++ [e] ↔ l ++ [x] <+ past ∨ l <+ past ∧ x = e := by
  rw [← reverse_sublist, ← @reverse_sublist _ _ past, ← @reverse_sublist _ _ past]
  simp only [reverse_append, reverse_singleton, singleton_append]
  rw [sublist_cons_iff]
  simp [and_comm]

/-- Of two events that happened one came first. -/
theorem pair_of_mem {past : List Event} {x y : Event} (hx : x ∈ past) (hy : y ∈ past)
    (hne : x ≠ y) : [x, y] <+ past ∨ [y, x] <+ past := by
  obtain ⟨before, after, rfl⟩ := List.append_of_mem hx
  rw [List.mem_append, List.mem_cons] at hy
  rcases hy with hy | rfl | hy
  · exact .inr ((singleton_sublist.mpr hy).append (singleton_sublist.mpr List.mem_cons_self))
  · exact absurd rfl hne
  · exact .inl (((singleton_sublist.mpr hy).cons_cons x).trans (sublist_append_right _ _))

/-- Behind what happened before an event, the event. -/
theorem sublist_behind {l before after : List Event} {e : Event} (h : l <+ before) :
    l ++ [e] <+ before ++ e :: after :=
  h.append (singleton_sublist.mpr (List.mem_cons_self))

namespace Step

variable {past : List Event} {w w' : Watch} {e : Event}

theorem given (h : Step past w e w') {m : ℕ} (hm : e.given? = some m) : m = past.length := by
  cases h <;> simp_all [Event.given?]

/-- What happens in a block happens in the innermost one. -/
theorem innermost (h : Step past w e w') {b : ℕ} (hb : e.block? = some b) :
    ∃ guards ending blocks held, w = ⟨⟨b, guards, ending⟩ :: blocks, held⟩ := by
  cases h with
  | bound | leaving | fired | left | released =>
    obtain rfl := Option.some.inj hb
    exact ⟨_, _, _, _, rfl⟩
  | _ => simp [Event.block?] at hb

theorem mem_numbers (h : Step past w e w') {b : ℕ} (hb : e.block? = some b) : b ∈ w.numbers := by
  obtain ⟨guards, ending, blocks, held, rfl⟩ := h.innermost hb
  simp [Watch.numbers]

theorem numbers_cases (h : Step past w e w') :
    (∃ cause, e = .entered past.length cause ∧ w'.numbers = past.length :: w.numbers) ∨
      (∃ b o, e = .left b o ∧ w.numbers = b :: w'.numbers) ∨
      (∀ b cause, e ≠ .entered b cause) ∧ (∀ b o, e ≠ .left b o) ∧ w'.numbers = w.numbers := by
  cases h with
  | entered => exact .inl ⟨_, rfl, rfl⟩
  | left => exact .inr (.inl ⟨_, _, rfl, rfl⟩)
  | _ => exact .inr (.inr ⟨by simp, by simp, rfl⟩)

theorem pending_cases (h : Step past w e w') :
    (∃ b, e = .bound past.length b ∧ w'.pending = (past.length, b) :: w.pending) ∨
      (∃ t b, e = .fired t (.block b) ∧ w.pending = (t, b) :: w'.pending) ∨
      (∀ t b, e ≠ .bound t b) ∧ (∀ t b, e ≠ .fired t (.block b)) ∧ w'.pending = w.pending := by
  cases h with
  | bound => exact .inl ⟨_, rfl, rfl⟩
  | fired => exact .inr (.inl ⟨_, _, rfl, rfl⟩)
  | _ => exact .inr (.inr ⟨by simp, by simp, rfl⟩)

end Step

namespace Watched

variable {past : List Event} {w : Watch}

/-- What happened was a step, and what happened before it came before that step. -/
theorem happened (h : Watched past w) {l : List Event} {e : Event} (hl : l ++ [e] <+ past) :
    ∃ before w₁ w₂ after, past = before ++ e :: after ∧ Watched before w₁ ∧
      Step before w₁ e w₂ ∧ l <+ before := by
  induction h with
  | start => simp at hl
  | @step past w e' w' hpast hstep ih =>
    rcases concat_sublist_concat.mp hl with hpre | ⟨hpre, rfl⟩
    · obtain ⟨before, w₁, w₂, after, rfl, hbefore, hstep, hl⟩ := ih hpre
      exact ⟨before, w₁, w₂, after ++ [e'], by simp, hbefore, hstep, hl⟩
    · exact ⟨past, w, w', [], rfl, hpast, hstep, hpre⟩

theorem happened_mem (h : Watched past w) {e : Event} (he : e ∈ past) :
    ∃ before w₁ w₂ after, past = before ++ e :: after ∧ Watched before w₁ ∧
      Step before w₁ e w₂ := by
  obtain ⟨before, w₁, w₂, after, heq, hbefore, hstep, -⟩ :=
    h.happened (l := []) (singleton_sublist.mpr he)
  exact ⟨before, w₁, w₂, after, heq, hbefore, hstep⟩

theorem given_eq (h : Watched past w) {e : Event} {m : ℕ} (he : e ∈ past)
    (hm : e.given? = some m) : past[m]? = some e := by
  obtain ⟨before, w₁, w₂, after, rfl, -, hstep⟩ := h.happened_mem he
  rw [hstep.given hm]
  simp

theorem given_lt (h : Watched past w) {e : Event} {m : ℕ} (he : e ∈ past)
    (hm : e.given? = some m) : m < past.length :=
  (List.getElem?_eq_some_iff.mp (h.given_eq he hm)).1

theorem given_lt_given (h : Watched past w) {x y : Event} {m n : ℕ} (hxy : [x, y] <+ past)
    (hm : x.given? = some m) (hn : y.given? = some n) : m < n := by
  obtain ⟨before, w₁, w₂, after, -, hbefore, hstep, hx⟩ := h.happened (l := [x]) hxy
  rw [hstep.given hn]
  exact hbefore.given_lt (singleton_sublist.mp hx) hm

/-! #### Blocks -/

theorem entered_of_open (h : Watched past w) {b : ℕ} (hb : b ∈ w.numbers) :
    ∃ cause, .entered b cause ∈ past := by
  induction h with
  | start => simp [Watch.numbers] at hb
  | step hpast hstep ih =>
    obtain ⟨cause, rfl, hn⟩ | ⟨b', o, rfl, hn⟩ | ⟨-, -, hn⟩ := hstep.numbers_cases
    · rw [hn, List.mem_cons] at hb
      rcases hb with rfl | hb
      · exact ⟨cause, by simp⟩
      · exact (ih hb).imp fun _ => List.mem_append_left _
    · exact (ih (by simp [hn, hb])).imp fun _ => List.mem_append_left _
    · exact (ih (hn ▸ hb)).imp fun _ => List.mem_append_left _

theorem open_lt (h : Watched past w) {b : ℕ} (hb : b ∈ w.numbers) : b < past.length := by
  obtain ⟨cause, hmem⟩ := h.entered_of_open hb
  exact h.given_lt hmem rfl

theorem descending (h : Watched past w) : w.numbers.Pairwise (· > ·) := by
  induction h with
  | start => simp [Watch.numbers]
  | step hpast hstep ih =>
    obtain ⟨cause, rfl, hn⟩ | ⟨b, o, rfl, hn⟩ | ⟨-, -, hn⟩ := hstep.numbers_cases
    · rw [hn]
      exact List.pairwise_cons.mpr ⟨fun b hb => hpast.open_lt hb, ih⟩
    · rw [hn] at ih
      exact ih.of_cons
    · rwa [hn]

theorem open_le_innermost {ob : OpenBlock} {blocks : List OpenBlock} {held : List ℕ}
    (h : Watched past ⟨ob :: blocks, held⟩) {b : ℕ}
    (hb : b ∈ Watch.numbers ⟨ob :: blocks, held⟩) : b ≤ ob.number := by
  have hdesc := h.descending
  simp only [Watch.numbers, List.map_cons] at hb hdesc
  rcases List.mem_cons.mp hb with rfl | hb
  · exact le_rfl
  · exact Nat.le_of_lt (List.rel_of_pairwise_cons hdesc hb)

theorem entered_before (h : Watched past w) {b : ℕ} {e : Event} (he : e ∈ past)
    (hb : e.block? = some b) : ∃ cause, [.entered b cause, e] <+ past := by
  obtain ⟨before, w₁, w₂, after, rfl, hbefore, hstep⟩ := h.happened_mem he
  obtain ⟨cause, hentered⟩ := hbefore.entered_of_open (hstep.mem_numbers hb)
  exact ⟨cause, sublist_behind (l := [_]) (singleton_sublist.mpr hentered)⟩

theorem block_lt (h : Watched past w) {b : ℕ} {e : Event} (he : e ∈ past)
    (hb : e.block? = some b) : b < past.length := by
  obtain ⟨cause, hl⟩ := h.entered_before he hb
  exact h.given_lt (hl.subset List.mem_cons_self) rfl

theorem not_open_of_left (h : Watched past w) {b : ℕ} {o : Outcome} (hb : .left b o ∈ past) :
    b ∉ w.numbers := by
  induction h with
  | start => simp at hb
  | step hpast hstep ih =>
    rw [List.mem_append, List.mem_singleton] at hb
    obtain ⟨cause, rfl, hn⟩ | ⟨b', o', rfl, hn⟩ | ⟨-, hne, hn⟩ := hstep.numbers_cases
    · have hb := hb.resolve_right (by simp)
      have := hpast.block_lt hb rfl
      simp only [hn, List.mem_cons, not_or]
      exact ⟨by omega, ih hb⟩
    · have hdesc := hpast.descending
      rw [hn] at ih hdesc
      rcases hb with hb | hb
      · exact fun hmem => ih hb (List.mem_cons_of_mem _ hmem)
      · obtain ⟨rfl, -⟩ := Event.left.inj hb
        exact fun hmem => Nat.lt_irrefl _ (List.rel_of_pairwise_cons hdesc hmem)
    · rw [hn]
      exact ih (hb.resolve_right (hne _ _).symm)

/-- In a block that has been left nothing happens any more. -/
theorem not_left_of_block (h : Watched past w) {b : ℕ} {o : Outcome} {e : Event}
    (hb : e.block? = some b) : ¬ [.left b o, e] <+ past := by
  intro hl
  obtain ⟨before, w₁, w₂, after, -, hbefore, hstep, hleft⟩ := h.happened (l := [_]) hl
  exact hbefore.not_open_of_left (singleton_sublist.mp hleft) (hstep.mem_numbers hb)

theorem open_or_left (h : Watched past w) {b : ℕ} {cause : Cause} (hb : .entered b cause ∈ past) :
    b ∈ w.numbers ∨ ∃ o, .left b o ∈ past := by
  induction h with
  | start => simp at hb
  | @step past w e w' hpast hstep ih =>
    rw [List.mem_append, List.mem_singleton] at hb
    -- what is left already stays left
    have hstays : (∃ o, .left b o ∈ past) → ∃ o, .left b o ∈ past ++ [e] :=
      fun ⟨o, ho⟩ => ⟨o, List.mem_append_left _ ho⟩
    obtain ⟨cause', rfl, hn⟩ | ⟨b', o', rfl, hn⟩ | ⟨hne, -, hn⟩ := hstep.numbers_cases
    · rw [hn, List.mem_cons]
      rcases hb with hb | hb
      · exact (ih hb).imp .inr hstays
      · exact .inl (.inl (Event.entered.inj hb).1)
    · rw [hn, List.mem_cons] at ih
      rcases ih (hb.resolve_right (by simp)) with (rfl | hmem) | hleft
      · exact .inr ⟨o', by simp⟩
      · exact .inl hmem
      · exact .inr (hstays hleft)
    · rw [hn]
      exact (ih (hb.resolve_right (hne _ _).symm)).imp_right hstays

theorem ending_iff (h : Watched past w) {ob : OpenBlock} (hob : ob ∈ w.blocks) :
    ob.ending = true ↔ ∃ o, .leaving ob.number o ∈ past := by
  induction h generalizing ob with
  | start => simp at hob
  | @step past w e w' hpast hstep ih =>
    have hdesc := (hpast.step hstep).descending
    cases hstep with
    | entered =>
      rw [List.mem_cons] at hob
      rcases hob with rfl | hob
      · have hnew : ∀ o, .leaving past.length o ∉ past :=
          fun o ho => Nat.lt_irrefl _ (hpast.block_lt ho rfl)
        simpa using hnew
      · simpa using ih hob
    | leaving =>
      rw [List.mem_cons] at hob
      rcases hob with rfl | hob
      · simp
      · have hne : ob.number ≠ _ :=
          Nat.ne_of_lt (List.rel_of_pairwise_cons hdesc (List.mem_map_of_mem hob))
        simpa [hne] using ih (List.mem_cons_of_mem _ hob)
    | bound | fired =>
      rw [List.mem_cons] at hob
      rcases hob with rfl | hob
      · simpa using ih List.mem_cons_self
      · simpa using ih (List.mem_cons_of_mem _ hob)
    | left => simpa using ih (List.mem_cons_of_mem _ hob)
    | _ => simpa using ih hob

/-! #### Guards -/

theorem bound_of_pending (h : Watched past w) {t b : ℕ} (ht : (t, b) ∈ w.pending) :
    .bound t b ∈ past := by
  induction h with
  | start => simp [Watch.pending] at ht
  | step hpast hstep ih =>
    rw [List.mem_append, List.mem_singleton]
    obtain ⟨b', rfl, hp⟩ | ⟨t', b', rfl, hp⟩ | ⟨-, -, hp⟩ := hstep.pending_cases
    · rw [hp, List.mem_cons] at ht
      rcases ht with ht | ht
      · obtain ⟨rfl, rfl⟩ := Prod.mk.inj ht
        exact .inr rfl
      · exact .inl (ih ht)
    · exact .inl (ih (by simp [hp, ht]))
    · exact .inl (ih (hp ▸ ht))

/-- Guards that are bound later fire earlier. -/
theorem pending_descending (h : Watched past w) : w.pending.Pairwise fun x y => x.1 > y.1 := by
  induction h with
  | start => simp [Watch.pending]
  | step hpast hstep ih =>
    obtain ⟨b, rfl, hp⟩ | ⟨t, b, rfl, hp⟩ | ⟨-, -, hp⟩ := hstep.pending_cases
    · rw [hp]
      exact List.pairwise_cons.mpr
        ⟨fun x hx => hpast.given_lt (hpast.bound_of_pending (t := x.1) (b := x.2) hx) rfl, ih⟩
    · rw [hp] at ih
      exact ih.of_cons
    · rwa [hp]

theorem pending_or_fired (h : Watched past w) {t b : ℕ} (ht : .bound t b ∈ past) :
    (t, b) ∈ w.pending ∨ .fired t (.block b) ∈ past := by
  induction h with
  | start => simp at ht
  | step hpast hstep ih =>
    rw [List.mem_append, List.mem_singleton] at ht ⊢
    obtain ⟨b', rfl, hp⟩ | ⟨t', b', rfl, hp⟩ | ⟨hne, -, hp⟩ := hstep.pending_cases
    · rw [hp, List.mem_cons]
      rcases ht with ht | ht
      · exact (ih ht).imp .inr .inl
      · obtain ⟨rfl, rfl⟩ := Event.bound.inj ht
        exact .inl (.inl rfl)
    · rw [hp, List.mem_cons] at ih
      rcases ih (ht.resolve_right (by simp)) with (heq | hmem) | hfired
      · obtain ⟨rfl, rfl⟩ := Prod.mk.inj heq
        exact .inr (.inr rfl)
      · exact .inl hmem
      · exact .inr (.inl hfired)
    · rw [hp]
      exact (ih (ht.resolve_right (hne _ _).symm)).imp_right .inl

theorem not_leaving_of_bound (h : Watched past w) {t b : ℕ} {o : Outcome} :
    ¬ [.leaving b o, .bound t b] <+ past := by
  intro hl
  obtain ⟨before, w₁, w₂, after, -, hbefore, hstep, hleaving⟩ := h.happened (l := [_]) hl
  cases hstep with
  | bound =>
    have := (hbefore.ending_iff List.mem_cons_self).mpr ⟨o, singleton_sublist.mp hleaving⟩
    simp at this

theorem bound_before_leaving (h : Watched past w) {t b : ℕ} {o : Outcome} (ht : .bound t b ∈ past)
    (ho : .leaving b o ∈ past) :
    ∃ cause, [.entered b cause, .bound t b, .leaving b o] <+ past := by
  have hpair := (pair_of_mem ht ho (by simp)).resolve_right h.not_leaving_of_bound
  obtain ⟨before, w₁, w₂, after, rfl, hbefore, -, hbound⟩ := h.happened (l := [_]) hpair
  obtain ⟨cause, hentered⟩ := hbefore.entered_before (singleton_sublist.mp hbound) rfl
  exact ⟨cause, sublist_behind (l := [_, _]) hentered⟩

/-- A guard of a block fires behind the statements of the block. -/
theorem leaving_before_fired (h : Watched past w) {t b : ℕ} (ht : .fired t (.block b) ∈ past) :
    ∃ cause o, [.entered b cause, .bound t b, .leaving b o, .fired t (.block b)] <+ past := by
  obtain ⟨before, w₁, w₂, after, rfl, hbefore, hstep⟩ := h.happened_mem ht
  cases hstep with
  | fired =>
    have hbound := hbefore.bound_of_pending (t := t) (b := b) (by simp [Watch.pending])
    obtain ⟨o, hleaving⟩ := (hbefore.ending_iff List.mem_cons_self).mp rfl
    obtain ⟨cause, hl⟩ := hbefore.bound_before_leaving hbound hleaving
    exact ⟨cause, o, sublist_behind (l := [_, _, _]) hl⟩

theorem not_fired_of_bound (h : Watched past w) {t u b : ℕ} :
    ¬ [.fired t (.block b), .bound u b] <+ past := by
  intro hl
  obtain ⟨before, w₁, w₂, after, rfl, hbefore, -, hfired⟩ := h.happened (l := [_]) hl
  obtain ⟨cause, o, hleaving⟩ := hbefore.leaving_before_fired (singleton_sublist.mp hfired)
  have hmem : .leaving b o ∈ before := hleaving.subset (by simp)
  exact h.not_leaving_of_bound (sublist_behind (l := [_]) (singleton_sublist.mpr hmem))

/-- A block is left behind the guards that were bound in it. -/
theorem fired_before_left (h : Watched past w) {t b : ℕ} {o' : Outcome} (ht : .bound t b ∈ past)
    (hleft : .left b o' ∈ past) :
    ∃ cause o, [.entered b cause, .bound t b, .leaving b o, .fired t (.block b),
      .left b o'] <+ past := by
  have hpair := (pair_of_mem ht hleft (by simp)).resolve_right (h.not_left_of_block rfl)
  obtain ⟨before, w₁, w₂, after, rfl, hbefore, hstep, hbound⟩ := h.happened (l := [_]) hpair
  cases hstep with
  | @left _ blocks held =>
    -- no guard of the block is left, and no block around it has its number
    have hnone : (t, b) ∉ Watch.pending ⟨⟨b, [], true⟩ :: blocks, held⟩ := by
      intro hmem
      simp only [Watch.pending, List.flatMap_cons, List.map_nil, List.nil_append,
        List.mem_flatMap, List.mem_map] at hmem
      obtain ⟨ob, hob, t', -, heq⟩ := hmem
      have hlt := List.rel_of_pairwise_cons hbefore.descending (List.mem_map_of_mem hob)
      simp_all
    have hfired := (hbefore.pending_or_fired (singleton_sublist.mp hbound)).resolve_left hnone
    obtain ⟨cause, o, hl⟩ := hbefore.leaving_before_fired hfired
    exact ⟨cause, o, sublist_behind (l := [_, _, _, _]) hl⟩

theorem held_of_mem (h : Watched past w) {t : ℕ} (ht : t ∈ w.held) : .held t ∈ past := by
  induction h with
  | start => simp at ht
  | step hpast hstep ih =>
    rw [List.mem_append, List.mem_singleton]
    cases hstep with
    | held =>
      rcases List.mem_append.mp ht with ht | ht
      · exact .inl (ih ht)
      · exact .inr (by rw [List.mem_singleton.mp ht])
    | released =>
      refine .inl (ih ?_)
      rw [List.mem_append] at ht ⊢
      exact ht.imp_right (List.mem_cons_of_mem _)
    | dropped => exact .inl (ih (List.mem_cons_of_mem _ ht))
    | _ => exact .inl (ih ht)

end Watched

end SupportLayer.Guard
