/-
# No slot is lost or doubled

A run of calls is watched at its borders: what is given to new sequences, pushed and copied comes
in, what is removed and freed goes out (`Traffic`). What the live sequences hold at the end is the
difference, as a multiset; so a transfer, which is no traffic at all, hands its slots on as they
are. Calls that write into a slot are left out: they put one value in the place of another.

A number stands for one live sequence at most (`Tidy`), so storing, adding and freeing change the
multiset of all slots by one sequence each, and a call is one of these (`Tidy.serve`).

Key definitions: `Shelf.held`, `Shelf.Traffic`, `Shelf.traffic`, `Shelf.Tidy`, `Shelf.HandsOn`.
Key theorems: `Shelf.held_store`, `Shelf.held_free`, `Shelf.Tidy.serve`, `Shelf.run_balanced`,
`Shelf.handsOn_transfer`, `Shelf.slots_conserved`.
-/
import Mathlib
import SupportLayer.Proofs.Shelf.Refinement

namespace SupportLayer

namespace Sequence

variable {α : Type}

/-- The slots of a sequence. -/
def slots (s : Sequence α) : Multiset α := s.toList

@[simp] theorem slots_empty : (empty : Sequence α).slots = 0 := rfl

theorem slots_push (s : Sequence α) (a : α) : (s.push a).2.slots = s.slots + {a} := by
  rw [slots, toList_push]
  rfl

theorem slots_dropLast {s : Sequence α} {a : α} (h : s.dropLast.1 = some a) :
    s.dropLast.2.slots + {a} = s.slots := by
  rw [(dropLast_eq s).1, List.getLast?_eq_some_iff] at h
  obtain ⟨l, hl⟩ := h
  rw [slots, slots, (dropLast_eq s).2, hl, List.dropLast_concat]
  rfl

theorem slots_popUnchecked {s rest : Sequence α} {a : α} (h : s.popUnchecked = (some a, rest)) :
    rest.slots + {a} = s.slots := by
  unfold popUnchecked at h
  split at h
  · next heq =>
    cases h
    have hlast := slots_dropLast (s := s) (a := a) (by rw [heq])
    rwa [heq] at hlast
  · cases h

theorem getLast?_of_tryPop {s rest : Sequence α} {a : α} (h : s.tryPop = (.ok a, rest)) :
    s.toList.getLast? = some a := by
  unfold tryPop at h
  split at h
  · next heq =>
    cases h
    rw [← (dropLast_eq s).1, heq]
  · cases h

theorem fault_of_tryPop {s rest : Sequence α} {fault : Fault}
    (h : s.tryPop = (.error fault, rest)) : fault = .emptyContainer := by
  unfold tryPop at h
  split at h <;> cases h
  rfl

theorem slots_tryPop {s rest : Sequence α} {a : α} (h : s.tryPop = (.ok a, rest)) :
    rest.slots + {a} = s.slots := by
  unfold tryPop at h
  split at h
  · next heq =>
    cases h
    have hlast := slots_dropLast (s := s) (a := a) (by rw [heq])
    rwa [heq] at hlast
  · cases h

end Sequence

namespace Shelf

/-! ### Traffic -/

/-- All slots of some live sequences. -/
def heldBy (live : List (ℕ × Sequence Int64)) : Multiset Int64 :=
  (live.map fun entry => entry.2.slots).sum

/-- All slots of the live sequences. -/
def held (shelf : Shelf) : Multiset Int64 := heldBy shelf.live

/-- What crosses the border of the shelf: the values given to new sequences, pushed, and copied
from a sequence, and on the other side those removed by a pop and freed with their sequence. -/
structure Traffic where
  given : Multiset Int64 := 0
  pushed : Multiset Int64 := 0
  copied : Multiset Int64 := 0
  popped : Multiset Int64 := 0
  freed : Multiset Int64 := 0

/-- One traffic and then another. -/
def Traffic.and (t u : Traffic) : Traffic where
  given := t.given + u.given
  pushed := t.pushed + u.pushed
  copied := t.copied + u.copied
  popped := t.popped + u.popped
  freed := t.freed + u.freed

/-- The traffic of a call. What a pop removes is what it answers with: it returns the value, or
stores it in its cell; without a cell it drops it, which then is the last slot. -/
def trafficOf (shelf : Shelf) : Call → Answer → Traffic
  | .fill (some values) count, _ => { given := ↑(values.take count) }
  | .push (some _) value, _ => { pushed := {value} }
  | .copy h, _ => { copied := (shelf.contents h).slots }
  | .pop _, .value v => { popped := {v} }
  | .tryPop _ (some _), .status .ok (some v) => { popped := {v} }
  | .tryPop h none, .status .ok none => { popped := ↑(shelf.contents h).toList.getLast?.toList }
  | .free h, _ => { freed := (shelf.contents h).slots }
  | _, _ => {}

/-- The traffic of the calls of a run. -/
def traffic (shelf : Shelf) : List Call → Traffic
  | [] => {}
  | call :: calls =>
    match shelf.serve call with
    | some (answer, shelf') => (shelf.trafficOf call answer).and (shelf'.traffic calls)
    | none => {}

/-- The call writes into a slot. -/
def Call.writes : Call → Bool
  | .set _ _ _ => true
  | _ => false

/-- What came in. -/
def Traffic.incoming (t : Traffic) : Multiset Int64 := t.given + t.pushed + t.copied

/-- What went out. -/
def Traffic.outgoing (t : Traffic) : Multiset Int64 := t.popped + t.freed

/-- What is held afterwards and went out is what was held and came in. -/
def Balanced (shelf shelf' : Shelf) (t : Traffic) : Prop :=
  shelf'.held + t.outgoing = shelf.held + t.incoming

theorem Balanced.refl (shelf : Shelf) : Balanced shelf shelf {} := rfl

theorem Balanced.trans {a b c : Shelf} {t u : Traffic} (ht : Balanced a b t)
    (hu : Balanced b c u) : Balanced a c (t.and u) := by
  have hout : (t.and u).outgoing = t.outgoing + u.outgoing := by
    simp only [Traffic.and, Traffic.outgoing]
    abel
  have hin : (t.and u).incoming = t.incoming + u.incoming := by
    simp only [Traffic.and, Traffic.incoming]
    abel
  unfold Balanced at *
  calc c.held + (t.and u).outgoing
      = (c.held + u.outgoing) + t.outgoing := by rw [hout]; abel
    _ = (b.held + t.outgoing) + u.incoming := by rw [hu]; abel
    _ = a.held + (t.and u).incoming := by rw [ht, hin, add_assoc]

/-! ### One sequence at a time -/

/-- A number stands for one live sequence at most, and the next one for none. -/
structure Tidy (shelf : Shelf) : Prop where
  nodup : (shelf.live.map (·.1)).Nodup
  below : ∀ entry ∈ shelf.live, entry.1 < shelf.next

section

variable {shelf : Shelf} {live : List (ℕ × Sequence Int64)} {number : ℕ}

theorem heldBy_replace {old : Sequence Int64} (s : Sequence Int64)
    (h : find? number live = some old) :
    heldBy (replace number s live) + old.slots = heldBy live + s.slots := by
  induction live with
  | nil => cases h
  | cons entry rest ih =>
    obtain ⟨k, t⟩ := entry
    by_cases hk : k = number
    · simp only [find?, if_pos hk, Option.some.injEq] at h
      subst h
      simp only [replace, if_pos hk, heldBy, List.map_cons, List.sum_cons]
      abel
    · simp only [find?, if_neg hk] at h
      simp only [heldBy] at ih
      simp only [replace, if_neg hk, heldBy, List.map_cons, List.sum_cons, add_assoc, ih h]

theorem replace_of_none (s : Sequence Int64) (h : find? number live = none) :
    replace number s live = live := by
  induction live with
  | nil => rfl
  | cons entry rest ih =>
    obtain ⟨k, t⟩ := entry
    by_cases hk : k = number
    · simp [find?, hk] at h
    · simp only [find?, if_neg hk] at h
      rw [replace, if_neg hk, ih h]

theorem numbers_replace (number : ℕ) (s : Sequence Int64) (live : List (ℕ × Sequence Int64)) :
    (replace number s live).map (·.1) = live.map (·.1) := by
  induction live with
  | nil => rfl
  | cons entry rest ih =>
    obtain ⟨k, t⟩ := entry
    by_cases hk : k = number
    · simp only [replace, if_pos hk, List.map_cons]
    · simp only [replace, if_neg hk, List.map_cons, ih]

theorem heldBy_filter (h : (live.map (·.1)).Nodup) :
    heldBy (live.filter fun entry => entry.1 ≠ number) +
      ((find? number live).getD .empty).slots = heldBy live := by
  induction live with
  | nil => rfl
  | cons entry rest ih =>
    obtain ⟨k, t⟩ := entry
    obtain ⟨hnew, hrest⟩ := List.nodup_cons.mp h
    by_cases hk : k = number
    · subst hk
      have hother : rest.filter (fun entry => entry.1 ≠ k) = rest := by
        rw [List.filter_eq_self]
        intro entry hentry
        have hne : entry.1 ≠ k := fun he => hnew (List.mem_map.mpr ⟨entry, hentry, he⟩)
        simpa using hne
      simp only [List.filter_cons, ne_eq, not_true_eq_false, decide_false, Bool.false_eq_true,
        if_false, find?, if_true, Option.getD_some]
      simp only [ne_eq] at hother
      rw [hother, heldBy, heldBy, List.map_cons, List.sum_cons, add_comm]
    · have ih := ih hrest
      simp only [heldBy] at ih ⊢
      simp only [List.filter_cons, ne_eq, hk, not_false_eq_true, decide_true, if_true, find?,
        if_false, List.map_cons, List.sum_cons, add_assoc]
      rw [← ih]

theorem held_add (shelf : Shelf) (s : Sequence Int64) :
    (shelf.add s).2.held = shelf.held + s.slots := by
  simp [held, heldBy, add]

theorem Balanced.add (shelf : Shelf) (s : Sequence Int64) {t : Traffic}
    (hin : t.incoming = s.slots) (hout : t.outgoing = 0) : Balanced shelf (shelf.add s).2 t := by
  rw [Balanced, held_add, hin, hout, add_zero]

/-- Storing puts one sequence in the place of another. Where there is none, nothing may be
stored. -/
theorem held_store (shelf : Shelf) (h : Handle) (s : Sequence Int64)
    (hdead : shelf.sequence? h = none → s.slots = 0) :
    (shelf.store h s).held + (shelf.contents h).slots = shelf.held + s.slots := by
  cases hs : shelf.sequence? h with
  | none =>
    have hstay : shelf.store h s = shelf := by
      cases h with
      | none => rfl
      | some n => simp only [store, replace_of_none s hs]
    rw [hstay, contents, hs, hdead hs]
    rfl
  | some old =>
    cases h with
    | none => cases hs
    | some n =>
      rw [contents, hs]
      exact heldBy_replace s hs

/-- Storing what a removal leaves takes the removed value away. -/
theorem held_store_rest (shelf : Shelf) (h : Handle) {rest : Sequence Int64} {v : Int64}
    (hrest : rest.slots + {v} = (shelf.contents h).slots) :
    (shelf.store h rest).held + {v} = shelf.held := by
  have hlive : shelf.sequence? h ≠ none := by
    intro hnone
    rw [contents, hnone] at hrest
    exact Multiset.singleton_ne_zero v (add_eq_zero.mp hrest).2
  have hstore := held_store shelf h rest fun hnone => absurd hnone hlive
  rw [← hrest, add_comm rest.slots, ← add_assoc] at hstore
  exact add_right_cancel hstore

theorem held_free (ht : Tidy shelf) (h : Handle) :
    (shelf.free h).held + (shelf.contents h).slots = shelf.held := by
  cases h with
  | none => exact add_zero _
  | some n => exact heldBy_filter ht.nodup

theorem Tidy.start : Tidy {} := ⟨List.nodup_nil, nofun⟩

theorem Tidy.find?_next (ht : Tidy shelf) : find? shelf.next shelf.live = none := by
  have hbelow := ht.below
  generalize shelf.live = live at hbelow
  induction live with
  | nil => rfl
  | cons entry rest ih =>
    obtain ⟨hentry, hrest⟩ := List.forall_mem_cons.mp hbelow
    rw [find?, if_neg hentry.ne, ih hrest]

theorem Tidy.add (ht : Tidy shelf) (s : Sequence Int64) : Tidy (shelf.add s).2 := by
  refine ⟨?_, fun entry hentry => ?_⟩
  · have hnumbers : ((shelf.add s).2.live.map (·.1)) =
        (shelf.live.map (·.1)).concat shelf.next := by simp [Shelf.add]
    rw [hnumbers]
    refine ht.nodup.concat fun hmem => ?_
    obtain ⟨entry, hentry, hnext⟩ := List.mem_map.mp hmem
    exact absurd (ht.below entry hentry) (hnext ▸ lt_irrefl _)
  · rcases List.mem_append.mp hentry with hold | hnew
    · exact (ht.below entry hold).trans (Nat.lt_succ_self _)
    · rw [List.mem_singleton.mp hnew]
      exact Nat.lt_succ_self _

theorem Tidy.store (ht : Tidy shelf) (h : Handle) (s : Sequence Int64) :
    Tidy (shelf.store h s) := by
  cases h with
  | none => exact ht
  | some n =>
    have hnumbers := numbers_replace n s shelf.live
    refine ⟨hnumbers.symm ▸ ht.nodup, fun entry hentry => ?_⟩
    have hmem : entry.1 ∈ (replace n s shelf.live).map (·.1) := List.mem_map_of_mem hentry
    rw [hnumbers] at hmem
    obtain ⟨old, hold, hsame⟩ := List.mem_map.mp hmem
    exact hsame ▸ ht.below old hold

theorem Tidy.free (ht : Tidy shelf) (h : Handle) : Tidy (shelf.free h) := by
  cases h with
  | none => exact ht
  | some n =>
    exact ⟨ht.nodup.sublist (List.filter_sublist.map _),
      fun entry hentry => ht.below entry (List.mem_of_mem_filter hentry)⟩

end

/-! ### Calls -/

section

variable {shelf shelf' : Shelf} {call : Call} {answer : Answer}

/-- A call keeps the balance: what is held changes by its traffic alone. -/
theorem Tidy.serve (ht : Tidy shelf) (hwrites : call.writes = false)
    (hpush : ∀ n v, call = .push (some n) v → (shelf.sequence? (some n)).isSome)
    (h : shelf.serve call = some (answer, shelf')) :
    Tidy shelf' ∧ Balanced shelf shelf' (shelf.trafficOf call answer) := by
  cases call with
  | create room =>
    rw [serve_create] at h
    split at h <;> cases h
    exact ⟨ht.add _, .add shelf .empty rfl rfl⟩
  | fill values count =>
    cases values with
    | none =>
      cases h
      exact ⟨ht.add _, .add shelf .empty rfl rfl⟩
    | some values =>
      cases h
      refine ⟨ht.add _, .add shelf (.ofList (values.take count)) ?_ rfl⟩
      simp [trafficOf, Traffic.incoming, Sequence.slots]
  | copy handle =>
    cases h
    refine ⟨ht.add _, .add shelf (shelf.contents handle) ?_ rfl⟩
    simp [trafficOf, Traffic.incoming]
  | transfer handle =>
    cases h
    refine ⟨(ht.store handle .empty).add _, ?_⟩
    -- the new sequence holds what the old one is short of
    have hstore := held_store shelf handle .empty fun _ => rfl
    change ((shelf.store handle .empty).add (shelf.contents handle)).2.held + 0 = shelf.held + 0
    rw [held_add, add_zero, hstore, Sequence.slots_empty]
  | free handle =>
    cases h
    refine ⟨ht.free handle, ?_⟩
    simpa [Balanced, trafficOf, Traffic.incoming, Traffic.outgoing] using held_free ht handle
  | length handle =>
    cases h
    exact ⟨ht, .refl shelf⟩
  | get handle index =>
    obtain ⟨value, -, hv⟩ := Option.map_eq_some_iff.mp h
    cases hv
    exact ⟨ht, .refl shelf⟩
  | tryGet handle index cell =>
    cases h
    exact ⟨ht, .refl shelf⟩
  | push handle value =>
    cases handle with
    | none =>
      cases h
      exact ⟨ht, .refl shelf⟩
    | some n =>
      obtain ⟨s, hs⟩ := Option.isSome_iff_exists.mp (hpush n value rfl)
      simp only [Shelf.serve, push, hs] at h
      cases h
      refine ⟨ht.store _ _, ?_⟩
      have hstore := held_store shelf (some n) (s.push value).2 fun hnone => by simp [hs] at hnone
      rw [contents, hs, Sequence.slots_push, Option.getD_some, add_comm s.slots, ← add_assoc]
        at hstore
      simpa [Balanced, trafficOf, Traffic.incoming, Traffic.outgoing]
        using add_right_cancel hstore
  | pop handle =>
    obtain ⟨⟨value, rest⟩, hp, hv⟩ := Option.map_eq_some_iff.mp h
    cases hv
    unfold pop at hp
    split at hp
    · next hp' =>
      cases hp
      refine ⟨ht.store _ _, ?_⟩
      simpa [Balanced, trafficOf, Traffic.incoming, Traffic.outgoing] using
        held_store_rest shelf handle (Sequence.slots_popUnchecked hp')
    · cases hp
  | tryPop handle cell =>
    cases hp : (shelf.contents handle).tryPop with
    | mk taken rest =>
      simp only [Shelf.serve, tryPop, hp] at h
      cases taken with
      | ok value =>
        cases h
        refine ⟨ht.store _ _, ?_⟩
        have hrest := held_store_rest shelf handle (Sequence.slots_tryPop hp)
        have hlast := Sequence.getLast?_of_tryPop hp
        cases cell <;>
          simpa [Balanced, trafficOf, outcome, Traffic.incoming, Traffic.outgoing, hlast]
            using hrest
      | error fault =>
        cases h
        obtain rfl := Sequence.fault_of_tryPop hp
        rw [Sequence.eq_of_tryPop_error hp, store_contents]
        cases cell <;> exact ⟨ht, .refl shelf⟩
  | set handle index value => cases hwrites

end

/-! ### Runs -/

section

variable {shelf : Shelf} {lists lists' : Lists} {calls : List Call} {answers : List Answer}

theorem traffic_cons {shelf' : Shelf} {call : Call} {answer : Answer}
    (h : shelf.serve call = some (answer, shelf')) (calls : List Call) :
    shelf.traffic (call :: calls) = (shelf.trafficOf call answer).and (shelf'.traffic calls) := by
  simp only [traffic, h]

/-- Within the contract, nothing is pushed through a handle that was freed. -/
theorem Matches.isSome_of_push (m : Matches shelf lists) {call : Call} {answer : Answer}
    (h : lists.serve call = some (answer, lists')) (n : ℕ) (v : Int64)
    (hcall : call = .push (some n) v) : (shelf.sequence? (some n)).isSome := by
  subst hcall
  obtain ⟨l, hr, -⟩ := Option.map_eq_some_iff.mp h
  rw [m.sequence?_some hr, Option.isSome_some]

theorem run_balanced (m : Matches shelf lists) (ht : Tidy shelf)
    (hwrites : ∀ call ∈ calls, call.writes = false)
    (h : lists.run calls = some (answers, lists')) :
    ∃ shelf', shelf.run calls = some (answers, shelf') ∧ Matches shelf' lists' ∧ Tidy shelf' ∧
      Balanced shelf shelf' (shelf.traffic calls) := by
  induction calls generalizing shelf lists answers with
  | nil =>
    cases h
    exact ⟨shelf, rfl, m, ht, .refl shelf⟩
  | cons call calls ih =>
    obtain ⟨hhead, htail⟩ := List.forall_mem_cons.mp hwrites
    obtain ⟨⟨answer, next⟩, hc, h⟩ := Option.bind_eq_some_iff.mp h
    obtain ⟨⟨rest, last⟩, hr, h⟩ := Option.bind_eq_some_iff.mp h
    cases h
    obtain ⟨shelf₁, hs₁, m₁⟩ := serve_refines m hc
    obtain ⟨ht₁, hb₁⟩ := ht.serve hhead (m.isSome_of_push hc) hs₁
    obtain ⟨shelf₂, hs₂, m₂, ht₂, hb₂⟩ := ih m₁ ht₁ htail hr
    refine ⟨shelf₂, ?_, m₂, ht₂, ?_⟩
    · rw [run, hs₁]
      simp only [Option.bind_eq_bind, Option.bind_some, hs₂]
      rfl
    · rw [traffic_cons hs₁]
      exact hb₁.trans hb₂

theorem Lists.run_append (before after : List Call)
    (h : lists.run (before ++ after) = some (answers, lists')) :
    ∃ first second middle, lists.run before = some (first, middle) ∧
      Lists.run middle after = some (second, lists') ∧ answers = first ++ second := by
  induction before generalizing lists answers with
  | nil => exact ⟨[], answers, lists, rfl, h, rfl⟩
  | cons call before ih =>
    obtain ⟨⟨answer, next⟩, hc, h⟩ := Option.bind_eq_some_iff.mp h
    obtain ⟨⟨rest, last⟩, hr, h⟩ := Option.bind_eq_some_iff.mp h
    cases h
    obtain ⟨first, second, middle, hfirst, hsecond, rfl⟩ := ih hr
    refine ⟨answer :: first, second, middle, ?_, hsecond, rfl⟩
    rw [Lists.run, hc]
    simp only [Option.bind_eq_bind, Option.bind_some, hfirst]
    rfl

end

/-! ### Transfers -/

/-- A transfer hands the sequence of a handle on to one new handle. The old handle stays live, is
empty and can be used, and no other handle is touched. -/
structure HandsOn (shelf : Shelf) (n : ℕ) (answer : Answer) (shelf' : Shelf) : Prop where
  live : (shelf.sequence? (some n)).isSome
  fresh : shelf.sequence? (some shelf.next) = none
  answer : answer = .handle (some shelf.next)
  target : shelf'.sequence? (some shelf.next) = shelf.sequence? (some n)
  source : shelf'.sequence? (some n) = some .empty
  others : ∀ k, k ≠ n → k ≠ shelf.next → shelf'.sequence? (some k) = shelf.sequence? (some k)
  usable : ∀ v, ∃ shelf'', shelf'.serve (.push (some n) v) = some (.length 1, shelf'') ∧
    shelf''.sequence? (some n) = some (.ofList [v])

theorem sequence?_add_next {shelf : Shelf} (ht : Tidy shelf) (s : Sequence Int64) :
    (shelf.add s).2.sequence? (some shelf.next) = some s := by
  have hfresh : find? shelf.next shelf.live = none := ht.find?_next
  simp only [add, sequence?, Option.bind_some, find?_append, hfresh, Option.none_or, if_true]

theorem sequence?_add_of_ne {shelf : Shelf} {k : ℕ} (hk : k ≠ shelf.next) (s : Sequence Int64) :
    (shelf.add s).2.sequence? (some k) = shelf.sequence? (some k) := by
  simp only [add, sequence?, Option.bind_some, find?_append, if_neg hk.symm, Option.or_none]

theorem sequence?_store_self {shelf : Shelf} {n : ℕ} (hlive : (shelf.sequence? (some n)).isSome)
    (s : Sequence Int64) : (shelf.store (some n) s).sequence? (some n) = some s := by
  obtain ⟨old, hold⟩ := Option.isSome_iff_exists.mp hlive
  simp only [sequence?, Option.bind_some] at hold
  simp only [store, sequence?, Option.bind_some, find?_replace, if_true, hold, Option.map_some]

theorem serve_push_empty {shelf : Shelf} {n : ℕ} (h : shelf.sequence? (some n) = some .empty)
    (v : Int64) : ∃ shelf', shelf.serve (.push (some n) v) = some (.length 1, shelf') ∧
      shelf'.sequence? (some n) = some (.ofList [v]) := by
  refine ⟨shelf.store (some n) (.ofList [v]), ?_, sequence?_store_self (h ▸ rfl) _⟩
  simp only [Shelf.serve, push, h]
  rfl

/-- A transfer hands a sequence on. -/
theorem handsOn_transfer {shelf shelf' : Shelf} {answer : Answer} {n : ℕ} (ht : Tidy shelf)
    (hlive : (shelf.sequence? (some n)).isSome)
    (h : shelf.serve (.transfer (some n)) = some (answer, shelf')) :
    HandsOn shelf n answer shelf' := by
  obtain ⟨s, hs⟩ := Option.isSome_iff_exists.mp hlive
  have hcontents : shelf.contents (some n) = s := by rw [contents, hs, Option.getD_some]
  have hnext : (shelf.store (some n) .empty).next = shelf.next := next_store (some n) .empty
  have hfresh : shelf.sequence? (some shelf.next) = none := ht.find?_next
  have hne : n ≠ shelf.next := by
    rintro rfl
    rw [hfresh] at hlive
    cases hlive
  cases h
  have htarget := sequence?_add_next (ht.store (some n) .empty) (shelf.contents (some n))
  have hother : ∀ k, k ≠ shelf.next →
      ((shelf.store (some n) .empty).add (shelf.contents (some n))).2.sequence? (some k) =
        (shelf.store (some n) .empty).sequence? (some k) :=
    fun k hk => sequence?_add_of_ne (hnext.symm ▸ hk) _
  have hsource := (hother n hne).trans (sequence?_store_self hlive .empty)
  refine ⟨hlive, hfresh, congrArg (Answer.handle ∘ some) hnext, ?_, hsource, fun k hk hk' => ?_,
    serve_push_empty hsource⟩
  · rw [hs, ← hcontents, ← htarget, hnext]
    rfl
  · exact (hother k hk').trans (sequence?_store (fun he => hk (Option.some.inj he).symm) _)

/-- **No slot is lost or doubled.** -/
theorem slots_conserved {calls : List Call} {answers : List Answer} {lists : Lists}
    (hwrites : ∀ call ∈ calls, call.writes = false)
    (h : Lists.run [] calls = some (answers, lists)) :
    ∃ shelf : Shelf, run {} calls = some (answers, shelf) ∧
      (let t := traffic {} calls
       shelf.held + t.popped + t.freed = t.given + t.pushed + t.copied) ∧
      ∀ before after n, calls = before ++ .transfer (some n) :: after →
        ∃ first shelf₁ answer shelf₂, run {} before = some (first, shelf₁) ∧
          shelf₁.serve (.transfer (some n)) = some (answer, shelf₂) ∧
          HandsOn shelf₁ n answer shelf₂ := by
  obtain ⟨shelf, hrun, -, -, hbalanced⟩ := run_balanced .start .start hwrites h
  refine ⟨shelf, hrun, ?_, fun before after n hcalls => ?_⟩
  · have hstart : held {} = 0 := rfl
    rw [Balanced, hstart, zero_add] at hbalanced
    simpa only [Traffic.outgoing, Traffic.incoming, ← add_assoc] using hbalanced
  · subst hcalls
    obtain ⟨first, second, middle, hfirst, hsecond, -⟩ := Lists.run_append before _ h
    obtain ⟨⟨answer, next⟩, hc, -⟩ := Option.bind_eq_some_iff.mp hsecond
    obtain ⟨shelf₁, hrun₁, m₁, ht₁, -⟩ := run_balanced .start .start
      (fun call hcall => hwrites call (List.mem_append_left _ hcall)) hfirst
    obtain ⟨shelf₂, hserve, -⟩ := serve_refines m₁ hc
    obtain ⟨l, hr, -⟩ := Option.map_eq_some_iff.mp hc
    have hlive : (shelf₁.sequence? (some n)).isSome := by
      rw [m₁.sequence?_some hr, Option.isSome_some]
    exact ⟨first, shelf₁, answer, shelf₂, hrun₁, hserve, handsOn_transfer ht₁ hlive hserve⟩

/-- A sequence is copied, handed on, refilled and handed on again, with a push through null and
removals into a cell, into none and from an empty sequence. -/
theorem slots_conserved_handedOn :
    let calls : List Call := [.fill (some [5, 7, 9]) 2, .copy (some 0), .transfer (some 0),
      .push (some 0) 3, .push none 1, .tryPop (some 1) none, .tryPop (some 2) (some 0),
      .pop (some 0), .tryPop (some 0) none, .free (some 1), .transfer (some 2)]
    let answers : List Answer := [.handle (some 0), .handle (some 1), .handle (some 2),
      .length 1, .length 0, .status .ok none, .status .ok (some 7), .value 3,
      .status .emptyContainer none, .nothing, .handle (some 3)]
    (∀ call ∈ calls, call.writes = false) ∧
      Lists.run [] calls = some (answers, [some [], none, some [], some [5]]) ∧
      (∃ shelf : Shelf, run {} calls = some (answers, shelf) ∧
        shelf.held + {7, 7, 3} + {5} = ({5, 7} : Multiset Int64) + {3} + {5, 7}) ∧
      ∃ first shelf answer shelf', run {} calls.dropLast = some (first, shelf) ∧
        shelf.serve (.transfer (some 2)) = some (answer, shelf') ∧
        HandsOn shelf 2 answer shelf' := by
  intro calls answers
  have hwrites : ∀ call ∈ calls, call.writes = false := by decide
  have h : Lists.run [] calls = some (answers, [some [], none, some [], some [5]]) := by decide
  obtain ⟨shelf, hrun, hconserved, htransfers⟩ := slots_conserved hwrites h
  exact ⟨hwrites, h, ⟨shelf, hrun, hconserved⟩, htransfers calls.dropLast [] 2 rfl⟩

end Shelf

end SupportLayer
