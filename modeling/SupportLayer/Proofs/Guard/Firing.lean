/-
# Guards fire once

Every guard that is made has fired, waits in an open block or is held, each in one of these places
(`Watched.ledger`); at the end no block is open and nothing is held, so every guard has fired once.
When it fired is what a watcher knew then: the last guard of a block fires first, a block that has
been left has no guard that waits, and a block is done with only when the blocks in it are left.

Nothing is asked of the program. Its blocks may be left by running off their end, by a break, a
continue, a return, a failure or a panic; its guards' actions may panic, bind guards and hold or
release others; its loops may run any number of turns. The program ends before its guards have
fired in one way only: a panic comes out of the action of a guard while its block is left by
another one (`Runs.collides`).

A guard that is moved is held under a name, and its last owner is the statement that releases it
or else what is held at the end. An owner that is bound in a block is a guard there whose action
is the release; then the moved guard fires where that guard does, between the guards of the block
that were bound behind and before the owner (`Watched.deferred`).

Key definitions: `Guard.made`, `Guard.fired`, `Guard.Orderly`.
Key theorems: `Guard.Watched.ledger`, `Guard.Watched.deferred`, `Guard.guards_fire_once`.
-/
import Mathlib
import SupportLayer.Proofs.Guard.Collision

namespace SupportLayer.Guard

open List

variable {past history : List Event} {w : Watch}

/-! ### The ledger of guards -/

/-- The number of the guard that an event makes. -/
def Event.made? : Event → Option ℕ
  | .bound guard _ | .held guard => some guard
  | _ => none

/-- The number of the guard that fires in an event. -/
def Event.fired? : Event → Option ℕ
  | .fired guard _ => some guard
  | _ => none

/-- The guards that are made in a history. -/
def made (history : List Event) : List ℕ := history.filterMap Event.made?

/-- The guards that fire in a history. -/
def fired (history : List Event) : List ℕ := history.filterMap Event.fired?

@[simp] theorem made_concat (past : List Event) (e : Event) :
    made (past ++ [e]) = made past ++ e.made?.toList := by
  cases e <;> simp [made, Event.made?]

@[simp] theorem fired_concat (past : List Event) (e : Event) :
    fired (past ++ [e]) = fired past ++ e.fired?.toList := by
  cases e <;> simp [fired, Event.fired?]

theorem idxOf_lt_idxOf {l : List ℕ} (hl : l.Nodup) {x y : ℕ} (h : [x, y] <+ l) :
    l.idxOf x < l.idxOf y := by
  induction l with
  | nil => simp at h
  | cons z l ih =>
    rw [List.nodup_cons] at hl
    rcases sublist_cons_iff.mp h with h | ⟨r, heq, hr⟩
    · have hx : z ≠ x := fun heq => hl.1 (heq ▸ h.subset (by simp))
      have hy : z ≠ y := fun heq => hl.1 (heq ▸ h.subset (by simp))
      simpa [List.idxOf_cons_ne, hx, hy] using ih hl.2 h
    · obtain ⟨rfl, rfl⟩ := List.cons.inj heq
      have hy : x ≠ y := fun heq => hl.1 (heq ▸ hr.subset (by simp))
      simp [List.idxOf_cons_ne _ hy]

theorem Event.given_of_made {e : Event} {t : ℕ} (h : e.made? = some t) : e.given? = some t := by
  cases e <;> simp_all [Event.made?, Event.given?]

/-- The guards that have not fired. -/
def Watch.waiting (w : Watch) : List ℕ := w.pending.map Prod.fst ++ w.held

theorem Step.waiting {w' : Watch} {e : Event} (h : Step past w e w') :
    (e.fired?.toList ++ w'.waiting).Perm (w.waiting ++ e.made?.toList) := by
  rw [List.perm_iff_count]
  intro t
  cases h <;> simp [Watch.waiting, Watch.pending, Event.fired?, Event.made?, List.count_cons] <;>
    omega

namespace Watched

/-- A guard that is made has fired or waits, and never both. -/
theorem ledger (h : Watched past w) : (fired past ++ w.waiting).Perm (made past) := by
  induction h with
  | start => simp [Watch.waiting, Watch.pending, made, fired]
  | @step past w e w' hpast hstep ih =>
    calc fired (past ++ [e]) ++ w'.waiting
      _ = fired past ++ (e.fired?.toList ++ w'.waiting) := by simp
      _ ~ fired past ++ (w.waiting ++ e.made?.toList) := hstep.waiting.append_left _
      _ = fired past ++ w.waiting ++ e.made?.toList := by simp
      _ ~ made past ++ e.made?.toList := ih.append_right _
      _ = made (past ++ [e]) := by simp

theorem nodup_made (h : Watched past w) : (made past).Nodup := by
  induction h with
  | start => simp [made]
  | @step past w e w' hpast hstep ih =>
    rw [made_concat, List.nodup_append]
    refine ⟨ih, by cases e.made? <;> simp, ?_⟩
    intro t ht t' ht'
    obtain ⟨e', he', hmade⟩ := List.mem_filterMap.mp ht
    have hlt := hpast.given_lt he' (Event.given_of_made hmade)
    have heq := hstep.given (Event.given_of_made (Option.mem_toList.mp ht'))
    omega

end Watched

/-! ### Every guard fires once -/

/-- What holds of the history of a program. -/
structure Orderly (history : List Event) : Prop where
  /-- The guards that fire are those that are made, and none fires twice. -/
  once : (fired history).Perm (made history) ∧ (fired history).Nodup
  /-- A guard fires while its block is left: the block is entered, the guard bound, the statements
  of the block are done with, the guard fires, the block is left. -/
  leaving : ∀ t b, .bound t b ∈ history → ∃ cause o o',
    [.entered b cause, .bound t b, .leaving b o, .fired t (.block b), .left b o'] <+ history
  /-- The guards of a block fire in reverse order. -/
  reversed : ∀ t u b, [.bound t b, .bound u b] <+ history →
    [.fired u (.block b), .fired t (.block b)] <+ history
  /-- The guards of a block fire before the statements around it are done with. -/
  inner : ∀ b cause c cause' o t,
    [.entered b cause, .entered c cause', .leaving b o] <+ history → .bound t c ∈ history →
      [.fired t (.block c), .leaving b o] <+ history
  /-- The guards of a turn of a loop fire before the next turn starts. -/
  turns : ∀ b c t, .entered c (.turn (some b)) ∈ history → .bound t b ∈ history →
    [.fired t (.block b), .entered c (.turn (some b))] <+ history
  /-- A guard that is given away fires when it is released, in the block where that is, or behind
  all blocks. -/
  moved : ∀ t, .held t ∈ history →
    (∃ c cause o, [.held t, .fired t (.release c)] <+ history ∧
      [.entered c cause, .fired t (.release c), .left c o] <+ history) ∨
    [.held t, .fired t .held] <+ history ∧ [.closing, .fired t .held] <+ history
  /-- A guard that the action of another one releases fires as a guard of the block where that one
  is bound: while the block is left, behind the guards of the block that were bound later and
  before those that were bound earlier. -/
  deferred : ∀ t c g b, .fired t (.release c) ∈ history → .entered c (.action g) ∈ history →
    .bound g b ∈ history →
    (∃ o o' o'', [.leaving b o, .fired g (.block b), .entered c (.action g),
      .fired t (.release c), .left c o', .left b o''] <+ history) ∧
    (∀ u, [.bound g b, .bound u b] <+ history →
      [.fired u (.block b), .fired t (.release c)] <+ history) ∧
    ∀ u, [.bound u b, .bound g b] <+ history →
      [.fired t (.release c), .fired u (.block b)] <+ history

namespace Watched

theorem fired_of_bound (h : Watched history {}) {t b : ℕ} (ht : .bound t b ∈ history) :
    .fired t (.block b) ∈ history :=
  (h.pending_or_fired ht).resolve_left (by simp [Watch.pending])

theorem left_of_entered (h : Watched history {}) {b : ℕ} {cause : Cause}
    (hb : .entered b cause ∈ history) : ∃ o, .left b o ∈ history :=
  (h.open_or_left hb).resolve_left (by simp [Watch.numbers])

theorem once (h : Watched history {}) :
    (fired history).Perm (made history) ∧ (fired history).Nodup := by
  have hperm : (fired history).Perm (made history) := by
    simpa [Watch.waiting, Watch.pending] using h.ledger
  exact ⟨hperm, hperm.nodup_iff.mpr h.nodup_made⟩

theorem leaving (h : Watched history {}) {t b : ℕ} (ht : .bound t b ∈ history) :
    ∃ cause o o', [.entered b cause, .bound t b, .leaving b o, .fired t (.block b),
      .left b o'] <+ history := by
  obtain ⟨cause, hentered⟩ := h.entered_before ht rfl
  obtain ⟨o', hleft⟩ := h.left_of_entered (hentered.subset List.mem_cons_self)
  obtain ⟨cause, o, hl⟩ := h.fired_before_left ht hleft
  exact ⟨cause, o, o', hl⟩

theorem reversed (h : Watched history {}) {t u b : ℕ} (hl : [.bound t b, .bound u b] <+ history) :
    [.fired u (.block b), .fired t (.block b)] <+ history := by
  have hlt : t < u := h.given_lt_given hl rfl rfl
  have hu : .bound u b ∈ history := hl.subset (by simp)
  have ht : .fired t (.block b) ∈ history := h.fired_of_bound (hl.subset (by simp))
  have hpair := (pair_of_mem hu ht (by simp)).resolve_right h.not_fired_of_bound
  obtain ⟨before, w₁, w₂, after, rfl, hbefore, hstep, hbound⟩ := h.happened (l := [_]) hpair
  cases hstep with
  | @fired _ _ guards blocks held =>
    -- the guard in front is the last that was bound of those that wait
    have hnone : (u, b) ∉ Watch.pending ⟨⟨b, t :: guards, true⟩ :: blocks, held⟩ := by
      intro hmem
      have hdesc := hbefore.pending_descending
      simp only [Watch.pending, List.flatMap_cons, List.map_cons, List.cons_append] at hmem hdesc
      rw [List.mem_cons] at hmem
      rcases hmem with heq | hmem
      · exact absurd (Prod.mk.inj heq).1 (by omega)
      · exact absurd (List.rel_of_pairwise_cons hdesc hmem) (by simp; omega)
    have hfired := (hbefore.pending_or_fired (singleton_sublist.mp hbound)).resolve_left hnone
    exact sublist_behind (l := [_]) (singleton_sublist.mpr hfired)

theorem fired_before (h : Watched history w) {before after : List Event} {w₁ : Watch} {e : Event}
    (heq : history = before ++ e :: after) (hbefore : Watched before w₁) {t c : ℕ} {o : Outcome}
    (hleft : .left c o ∈ before) (ht : .bound t c ∈ history) :
    [.fired t (.block c), e] <+ history := by
  subst heq
  have hbound : .bound t c ∈ before := by
    rcases List.mem_append.mp ht with hbound | hbound
    · exact hbound
    · exact absurd ((singleton_sublist.mpr hleft).append (singleton_sublist.mpr hbound))
        (h.not_left_of_block rfl)
  obtain ⟨cause, o', hl⟩ := hbefore.fired_before_left hbound hleft
  have hfired : .fired t (.block c) ∈ before := hl.subset (by simp)
  exact sublist_behind (l := [_]) (singleton_sublist.mpr hfired)

/-- A block is left before a block around it is done away with. -/
theorem left_before (h : Watched history w) {b c : ℕ} {cause : Cause} {e : Event} (hlt : b < c)
    (he : e.block? = some b) (hl : [.entered c cause, e] <+ history) :
    ∃ before w₁ after o, history = before ++ e :: after ∧ Watched before w₁ ∧
      .entered c cause ∈ before ∧ .left c o ∈ before := by
  obtain ⟨before, w₁, w₂, after, heq, hbefore, hstep, hentered⟩ := h.happened (l := [_]) hl
  obtain ⟨guards, ending, blocks, held, rfl⟩ := hstep.innermost he
  have hclosed : c ∉ Watch.numbers ⟨⟨b, guards, ending⟩ :: blocks, held⟩ :=
    fun hopen => Nat.not_le_of_lt hlt (hbefore.open_le_innermost hopen)
  have hmem : .entered c cause ∈ before := singleton_sublist.mp hentered
  obtain ⟨o, hleft⟩ := (hbefore.open_or_left hmem).resolve_left hclosed
  exact ⟨before, _, after, o, heq, hbefore, hmem, hleft⟩

theorem inner (h : Watched history w) {b c t : ℕ} {cause cause' : Cause} {o : Outcome}
    (hl : [.entered b cause, .entered c cause', .leaving b o] <+ history)
    (ht : .bound t c ∈ history) : [.fired t (.block c), .leaving b o] <+ history := by
  have hpair : [.entered b cause, .entered c cause'] <+ history :=
    (sublist_append_left [_, _] [_]).trans hl
  have hlt : b < c := h.given_lt_given hpair rfl rfl
  obtain ⟨before, w₁, after, o', heq, hbefore, -, hleft⟩ :=
    h.left_before hlt rfl (sublist_of_cons_sublist hl)
  exact h.fired_before heq hbefore hleft ht

theorem turns (h : Watched history w) {b c t : ℕ}
    (hc : .entered c (.turn (some b)) ∈ history) (ht : .bound t b ∈ history) :
    [.fired t (.block b), .entered c (.turn (some b))] <+ history := by
  obtain ⟨before, w₁, w₂, after, heq, hbefore, hstep⟩ := h.happened_mem hc
  cases hstep with
  | entered hready =>
    obtain ⟨o, hleft⟩ := hready b rfl
    exact h.fired_before heq hbefore hleft ht

/-! #### Guards that are moved -/

/-- What happens before an event that gives a number and what happens behind it. -/
theorem through (h : Watched history w) {l r : List Event} {e : Event} {m : ℕ}
    (he : e.given? = some m) (hl : l ++ [e] <+ history) (hr : e :: r <+ history) :
    l ++ e :: r <+ history := by
  obtain ⟨before, w₁, w₂, after, rfl, hbefore, hstep, hl⟩ := h.happened hl
  have hnew : e ∉ before := by
    intro hmem
    have hlt := hbefore.given_lt hmem he
    rw [hstep.given he] at hlt
    exact Nat.lt_irrefl _ hlt
  refine hl.append ?_
  obtain ⟨front, back, heq, hfront, hback⟩ := sublist_append_iff.mp hr
  cases front with
  | nil => exact heq ▸ hback
  | cons x front =>
    obtain ⟨rfl, -⟩ := List.cons.inj heq
    exact absurd (hfront.subset List.mem_cons_self) hnew

theorem fired_idxOf_lt (h : Watched history {}) {x y : Owner} {t u : ℕ}
    (hl : [.fired t x, .fired u y] <+ history) :
    (fired history).idxOf t < (fired history).idxOf u :=
  idxOf_lt_idxOf h.once.2 (hl.filterMap Event.fired?)

/-- Of the guards of a block only the block is the owner. -/
theorem owner_eq (h : Watched past w) {g b : ℕ} {owner : Owner} (hg : .bound g b ∈ past)
    (hfired : .fired g owner ∈ past) : owner = .block b := by
  obtain ⟨before, w₁, w₂, after, rfl, hbefore, hstep⟩ := h.happened_mem hfired
  have hplace := h.given_eq hg rfl
  cases hstep with
  | @fired b' =>
    have hbound := hbefore.bound_of_pending (t := g) (b := b') (by simp [Watch.pending])
    rw [h.given_eq (List.mem_append_left _ hbound) rfl] at hplace
    simpa using hplace
  | released =>
    have hheld := hbefore.held_of_mem (t := g) (by simp)
    rw [h.given_eq (List.mem_append_left _ hheld) rfl] at hplace
    simp at hplace
  | dropped =>
    have hheld := hbefore.held_of_mem (t := g) (by simp)
    rw [h.given_eq (List.mem_append_left _ hheld) rfl] at hplace
    simp at hplace

theorem entered_in_block (h : Watched past w) {g b c : ℕ} (hg : .bound g b ∈ past)
    (hc : .entered c (.action g) ∈ past) :
    ∃ o, [.leaving b o, .fired g (.block b), .entered c (.action g)] <+ past ∧ b < c := by
  obtain ⟨before, w₁, w₂, after, rfl, hbefore, hstep⟩ := h.happened_mem hc
  cases hstep with
  | entered hfollows =>
    obtain ⟨owner, hlast⟩ := hfollows
    have hfired : .fired g owner ∈ before := List.mem_of_getLast? hlast
    obtain rfl := h.owner_eq hg (List.mem_append_left _ hfired)
    obtain ⟨cause, o, hl⟩ := hbefore.leaving_before_fired hfired
    have hentered : .entered b cause ∈ before := hl.subset (by simp)
    have hleaving : [.leaving b o, .fired g (.block b)] <+ before :=
      sublist_of_cons_sublist (sublist_of_cons_sublist hl)
    exact ⟨o, sublist_behind (l := [_, _]) hleaving, hbefore.given_lt hentered rfl⟩

theorem released_mem {before after : List Event} (h : Watched (before ++ after) w) {t c : ℕ}
    {o : Outcome} (ht : .fired t (.release c) ∈ before ++ after) (hleft : .left c o ∈ before) :
    .fired t (.release c) ∈ before := by
  refine (List.mem_append.mp ht).resolve_right fun hafter => ?_
  exact h.not_left_of_block rfl
    ((singleton_sublist.mpr hleft).append (singleton_sublist.mpr hafter))

theorem released_before_left (h : Watched past w) {t c : ℕ} {o : Outcome}
    (ht : .fired t (.release c) ∈ past) (hleft : .left c o ∈ past) :
    ∃ cause, [.entered c cause, .fired t (.release c), .left c o] <+ past := by
  have hpair := (pair_of_mem ht hleft (by simp)).resolve_right (h.not_left_of_block rfl)
  obtain ⟨before, w₁, w₂, after, rfl, hbefore, -, ht⟩ := h.happened (l := [_]) hpair
  obtain ⟨cause, hl⟩ := hbefore.entered_before (singleton_sublist.mp ht) rfl
  exact ⟨cause, sublist_behind (l := [_, _]) hl⟩

theorem moved (h : Watched history {}) {t : ℕ} (ht : .held t ∈ history) :
    (∃ c cause o, [.held t, .fired t (.release c)] <+ history ∧
      [.entered c cause, .fired t (.release c), .left c o] <+ history) ∨
    [.held t, .fired t .held] <+ history ∧ [.closing, .fired t .held] <+ history := by
  have hmem : t ∈ fired history := h.once.1.mem_iff.mpr (List.mem_filterMap.mpr ⟨_, ht, rfl⟩)
  obtain ⟨e, he, hfired⟩ := List.mem_filterMap.mp hmem
  obtain ⟨before, w₁, w₂, after, heq, hbefore, hstep⟩ := h.happened_mem he
  cases hstep with
  | @fired b t' =>
    -- a guard that is bound in a block is not given away
    obtain rfl : t' = t := Option.some.inj hfired
    have hbound := hbefore.bound_of_pending (t := t') (b := b) (by simp [Watch.pending])
    have hplace := h.given_eq (heq ▸ List.mem_append_left _ hbound) rfl
    rw [h.given_eq ht rfl] at hplace
    simp at hplace
  | @released c _ _ _ t' =>
    obtain rfl : t' = t := Option.some.inj hfired
    have hheld := hbefore.held_of_mem (t := t') (by simp)
    obtain ⟨cause, hentered⟩ := h.entered_before he rfl
    obtain ⟨o, hleft⟩ := h.left_of_entered (hentered.subset List.mem_cons_self)
    obtain ⟨cause, hl⟩ := h.released_before_left he hleft
    refine .inl ⟨c, cause, o, ?_, hl⟩
    exact heq ▸ sublist_behind (l := [_]) (singleton_sublist.mpr hheld)
  | @dropped t' _ hclosing =>
    obtain rfl : t' = t := Option.some.inj hfired
    have hheld := hbefore.held_of_mem (t := t') (by simp)
    subst heq
    exact .inr ⟨sublist_behind (l := [_]) (singleton_sublist.mpr hheld),
      sublist_behind (l := [_]) (singleton_sublist.mpr hclosing)⟩
  | _ => simp [Event.fired?] at hfired

/-- What is no earlier than a guard comes behind the start of its action. -/
theorem action_at_once (h : Watched past w) {g b c : ℕ} {e : Event} (hg : .bound g b ∈ past)
    (hc : .entered c (.action g) ∈ past) (he : e ∈ past) (hne : e ≠ .entered c (.action g))
    (hne' : e ≠ .fired g (.block b)) (hl : ¬ [e, .fired g (.block b)] <+ past) :
    [.entered c (.action g), e] <+ past := by
  refine (pair_of_mem hc he hne.symm).resolve_right fun hpair => hl ?_
  obtain ⟨before, w₁, w₂, after, rfl, -, hstep, hmem⟩ := h.happened (l := [_]) hpair
  cases hstep with
  | entered hfollows =>
    obtain ⟨owner, hlast⟩ := hfollows
    have hfired : .fired g owner ∈ before := List.mem_of_getLast? hlast
    obtain rfl := h.owner_eq hg (List.mem_append_left _ hfired)
    obtain ⟨front, rfl⟩ := List.getLast?_eq_some_iff.mp hlast
    have hfront : e ∈ front := by simpa [hne'] using singleton_sublist.mp hmem
    exact (sublist_behind (l := [_]) (singleton_sublist.mpr hfront)).trans (sublist_append_left _ _)

section Deferred

variable {t c g b : ℕ}

theorem deferred_left (h : Watched history {}) (ht : .fired t (.release c) ∈ history)
    (hc : .entered c (.action g) ∈ history) (hg : .bound g b ∈ history) :
    ∃ o o' o'', [.leaving b o, .fired g (.block b), .entered c (.action g),
      .fired t (.release c), .left c o', .left b o''] <+ history := by
  obtain ⟨o, hstart, hlt⟩ := h.entered_in_block hg hc
  obtain ⟨_, _, o'', hl⟩ := h.leaving hg
  have hleft : .left b o'' ∈ history := hl.subset (by simp)
  have hpair := h.action_at_once hg hc hleft (by simp) (by simp) (h.not_left_of_block rfl)
  obtain ⟨before, w₁, after, o', heq, hbefore, hentered, hinner⟩ := h.left_before hlt rfl hpair
  have hreleased : .fired t (.release c) ∈ before := (heq ▸ h).released_mem (heq ▸ ht) hinner
  obtain ⟨cause, hl⟩ := hbefore.released_before_left hreleased hinner
  have hplace := hbefore.given_eq (hl.subset List.mem_cons_self) rfl
  rw [hbefore.given_eq hentered rfl] at hplace
  obtain rfl : Cause.action g = cause := by simpa using hplace
  have hend : [.entered c (.action g), .fired t (.release c), .left c o', .left b o''] <+ history :=
    heq ▸ sublist_behind (l := [_, _, _]) hl
  exact ⟨o, o', o'', h.through (l := [_, _]) rfl hstart hend⟩

theorem deferred (h : Watched history {}) (ht : .fired t (.release c) ∈ history)
    (hc : .entered c (.action g) ∈ history) (hg : .bound g b ∈ history) :
    (∃ o o' o'', [.leaving b o, .fired g (.block b), .entered c (.action g),
      .fired t (.release c), .left c o', .left b o''] <+ history) ∧
    (∀ u, [.bound g b, .bound u b] <+ history →
      [.fired u (.block b), .fired t (.release c)] <+ history) ∧
    ∀ u, [.bound u b, .bound g b] <+ history →
      [.fired t (.release c), .fired u (.block b)] <+ history := by
  obtain ⟨o, o', o'', hl⟩ := h.deferred_left ht hc hg
  have howner : [.fired g (.block b), .fired t (.release c)] <+ history := by
    refine .trans ?_ hl
    simp
  refine ⟨⟨o, o', o'', hl⟩, fun u hu => ?_, fun u hu => ?_⟩
  · have hbound : .bound u b ∈ history := hu.subset (by simp)
    have hfired := h.fired_of_bound hbound
    refine (pair_of_mem hfired ht (by simp)).resolve_right fun hback => ?_
    have h₁ := h.fired_idxOf_lt hback
    have h₂ := h.fired_idxOf_lt (h.reversed hu)
    have h₃ := h.fired_idxOf_lt howner
    omega
  · have hbound : .bound u b ∈ history := hu.subset (by simp)
    have hfired := h.fired_of_bound hbound
    have hreversed := h.fired_idxOf_lt (h.reversed hu)
    have hlt : b < c := (h.entered_in_block hg hc).choose_spec.2
    have hpair : [.entered c (.action g), .fired u (.block b)] <+ history := by
      refine h.action_at_once hg hc hfired (by simp) ?_ fun hback => ?_
      · rintro ⟨⟩
        exact Nat.lt_irrefl _ hreversed
      · have := h.fired_idxOf_lt hback
        omega
    obtain ⟨before, w₁, after, o, rfl, -, -, hleft⟩ := h.left_before hlt rfl hpair
    exact sublist_behind (l := [_]) (singleton_sublist.mpr (h.released_mem ht hleft))

end Deferred

/-- No guard fires twice, and none that has not been made. -/
theorem fired_nodup (h : Watched past w) : (fired past).Nodup ∧ fired past ⊆ made past := by
  have hperm := h.ledger
  refine ⟨(hperm.nodup_iff.mpr h.nodup_made).of_append_left, fun t ht => ?_⟩
  exact hperm.subset (List.mem_append_left _ ht)

end Watched

/-- **The guards of a program fire once**, each when its block is left, whatever way that is. Only
two panics at once end a program before; and even then no guard fires twice. -/
theorem guards_fire_once (body : List Stmt) :
    ∃ report, execute body = some report ∧ (∃ history, Chronicle body history report) ∧
      ∀ history, Chronicle body history report →
        (fired history).Nodup ∧ fired history ⊆ made history ∧
        (report.outcome ≠ .aborted → Orderly history) ∧
        (report.outcome = .aborted → Collides history) := by
  obtain ⟨history, report, hchronicle⟩ := exists_chronicle body
  refine ⟨report, hchronicle.execute_eq, ⟨history, hchronicle⟩, fun history h => ?_⟩
  obtain ⟨w, hw, heq⟩ := h.watched
  refine ⟨hw.fired_nodup.1, hw.fired_nodup.2, fun hgo => ?_, h.collides⟩
  obtain rfl := heq hgo
  exact {
    once := hw.once
    leaving := fun t b => hw.leaving
    reversed := fun t u b => hw.reversed
    inner := fun b cause c cause' o t => hw.inner
    turns := fun b c t => hw.turns
    moved := fun t => hw.moved
    deferred := fun t c g b => hw.deferred }

/-- A moved guard fires in the place of its owner, though an action has panicked before. -/
theorem guards_fire_once_panicking :
    ∃ history, Chronicle [.hold "g" [.log "moved"], .defer [.log "closed"],
        .defer [.release "g"], .defer [.leave (.panic "broken")], .log "open"] history
      ⟨.exit (.panic "broken"), ["open", "moved", "closed"], []⟩ ∧ Orderly history := by
  obtain ⟨report, hreport, ⟨history, h⟩, hall⟩ :=
    guards_fire_once [.hold "g" [.log "moved"], .defer [.log "closed"],
      .defer [.release "g"], .defer [.leave (.panic "broken")], .log "open"]
  have hrun : execute [.hold "g" [.log "moved"], .defer [.log "closed"],
      .defer [.release "g"], .defer [.leave (.panic "broken")], .log "open"] =
      some ⟨.exit (.panic "broken"), ["open", "moved", "closed"], []⟩ := by
    simp [execute, State.runList, State.runStmt, State.unwind, State.line, State.take?,
      Outcome.afterAction]
  obtain rfl := Option.some.inj (hreport.symm.trans hrun)
  exact ⟨history, h, (hall history h).2.2.1 (by simp)⟩
end SupportLayer.Guard
