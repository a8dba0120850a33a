/-
# Two panics at once

A program that comes to no end of its own ends in the middle of its blocks. What ends it is the
panic of an action: its guard fires while the block is left by a panic already, be it that of the
statements of the block or that of the action of a guard that fired there before. Nothing else ends
a program (`Runs.collides`), since every rule but the one for such a guard hands on the end that a
part of it has come to.

Key definitions: `Guard.LeftByPanic`, `Guard.Collides`.
Key theorems: `Guard.Runs.collides`, `Guard.Chronicle.collides`.
-/
import Mathlib
import SupportLayer.Proofs.Guard.Watch

namespace SupportLayer.Guard

open List

variable {past history : List Event}

/-- A block is left by a panic, that of its statements or that of the action of a guard of it. -/
def LeftByPanic (past : List Event) (b : ℕ) : Prop :=
  ∃ v, .leaving b (.exit (.panic v)) ∈ past ∨ ∃ t c, .fired t (.block b) ∈ past ∧
    [.entered c (.action t), .left c (.exit (.panic v))] <+ past

/-- A panic comes out of the action of a guard while its block is left by another one. -/
def Collides (history : List Event) : Prop :=
  ∃ before t b after c v, history = before ++ .fired t (.block b) :: after ∧ LeftByPanic before b ∧
    [.entered c (.action t), .left c (.exit (.panic v))] <+ after

theorem LeftByPanic.append {b : ℕ} (h : LeftByPanic past b) (later : List Event) :
    LeftByPanic (past ++ later) b := by
  obtain ⟨v, hv | ⟨t, c, ht, hc⟩⟩ := h
  · exact ⟨v, .inl (List.mem_append_left _ hv)⟩
  · exact ⟨v, .inr ⟨t, c, List.mem_append_left _ ht, hc.trans (sublist_append_left _ _)⟩⟩

theorem Collides.append (h : Collides past) (later : List Event) : Collides (past ++ later) := by
  obtain ⟨before, t, b, after, c, v, rfl, hpanic, hl⟩ := h
  exact ⟨before, t, b, after ++ later, c, v, by simp, hpanic,
    hl.trans (sublist_append_left _ _)⟩

theorem afterAction_eq_panic {outcome action : Outcome} {v : String}
    (h : outcome.afterAction action = .exit (.panic v)) :
    outcome = .exit (.panic v) ∨ action = .exit (.panic v) := by
  unfold Outcome.afterAction at h
  split at h <;> simp_all

theorem afterAction_eq_aborted {outcome action : Outcome} (h : outcome.afterAction action = .aborted)
    (ho : outcome ≠ .aborted) (ha : action ≠ .aborted) :
    ∃ v w, outcome = .exit (.panic v) ∧ action = .exit (.panic w) := by
  unfold Outcome.afterAction at h
  split at h <;> simp_all

theorem absorb_eq_aborted {b : Boundary} {outcome : Outcome} {s : State}
    (h : (b.absorb outcome s).1 = .aborted) : outcome = .aborted := by
  unfold Boundary.absorb at h
  split at h <;> simp_all

/-- The outcome with which the guards of a block fire is that of a panic only when the block is
left by one. -/
@[simp] def Part.Explained (past : List Event) : Part → Prop
  | .unwind b _ outcome =>
    outcome ≠ .aborted ∧ ∀ v, outcome = .exit (.panic v) → LeftByPanic past b
  | _ => True

/-- A program that ends before its guards have fired ends by two panics at once. -/
theorem Runs.collides {part : Part} {n : ℕ} {held held' : Held} {events : List Event}
    {outcome : Outcome} (h : Runs part n held events outcome held') (hend : outcome = .aborted)
    {past : List Event} (hpast : part.Explained past) : Collides (past ++ events) := by
  induction h generalizing past with
  | block _ ih =>
    subst hend
    rw [List.append_cons, Outcome.departure, if_pos rfl, List.append_nil]
    exact ih rfl trivial
  | done _ ih =>
    rw [List.append_cons]
    exact ih hend (by simp)
  | bind _ ih =>
    rw [List.append_cons]
    exact ih hend trivial
  | next _ _ _ _ ih =>
    rw [← List.append_assoc]
    exact ih hend trivial
  | @exit number _ _ _ _ _ _ events exit _ _ _ _ _ _ _ _ ih =>
    have hleaving : Part.Explained (past ++ events ++ [.leaving number (.exit exit)])
        (.unwind number [] (.exit exit)) :=
      ⟨by simp, fun v hv => ⟨v, .inl (by simp [hv])⟩⟩
    simpa using ih hend hleaving
  | halted _ _ ih => exact ih rfl trivial
  | unwound => exact absurd hend hpast.1
  | @fire number guard _ outcome n _ events action _ _ _ _ hgo haction _ _ ih =>
    have hpanic : ∀ v, outcome.afterAction action = .exit (.panic v) →
        LeftByPanic (past ++ .fired guard.number (.block number) :: events) number := by
      intro v hv
      rcases afterAction_eq_panic hv with hv | rfl
      · exact (hpast.2 v hv).append _
      · have hl := haction.entered_left (by simp)
        exact ⟨v, .inr ⟨guard.number, n + 1, by simp,
          hl.trans ((sublist_cons_self _ _).trans (sublist_append_right _ _))⟩⟩
    simpa using ih hend ⟨hgo, hpanic⟩
  | @lastFire number guard _ outcome n _ events action _ hafter haction ih =>
    by_cases ha : action = .aborted
    · rw [List.append_cons]
      exact ih ha trivial
    · obtain ⟨v, w, rfl, rfl⟩ := afterAction_eq_aborted hafter hpast.1 ha
      exact ⟨past, guard.number, number, events, n + 1, w, rfl, hpast.2 v rfl,
        haction.entered_left (by simp)⟩
  | nested _ ih =>
    rw [← List.append_assoc]
    exact (ih (absorb_eq_aborted hend) trivial).append _
  | wanted _ ih | loop _ ih => exact ih hend trivial
  | release _ _ ih =>
    rw [List.append_cons]
    refine ih ?_ trivial
    by_contra ha
    obtain ⟨v, w, hv, -⟩ := afterAction_eq_aborted hend (by simp) ha
    simp at hv
  | turn _ _ _ _ ih =>
    rw [← List.append_assoc]
    exact ih hend trivial
  | stop _ _ _ ih =>
    refine ih ?_ trivial
    by_contra ha
    split at hend <;> simp_all
  | drop _ _ _ _ ih =>
    rw [List.append_cons, ← List.append_assoc]
    exact ih hend trivial
  | lastDrop _ ih =>
    rw [List.append_cons]
    exact ih rfl trivial
  | _ => simp at hend

theorem Chronicle.collides {body : List Stmt} {report : Report}
    (h : Chronicle body history report) (hend : report.outcome = .aborted) : Collides history := by
  cases h with
  | @complete events drops outcome held ending held' hgo hbody hdrops =>
    have hending : ending = .aborted := by
      by_contra hne
      simp [hne, hgo] at hend
    rw [List.append_cons]
    exact hdrops.collides hending trivial
  | aborted hbody =>
    have hall : Collides ([] ++ history) := hbody.collides rfl trivial
    exact hall

end SupportLayer.Guard
