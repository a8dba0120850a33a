/-
# One element, whichever way to it

The panicking forms, the checked one, the unchecked one, the view, and the iterators all find the
element of the list at the index (`Sequence.via_eq`), so they find the same one, and none of them
finds one where the list ends; there the forms that say so say it with the index and the length.
This is a fact of the sequence alone, whatever it was made by. A step on named sequences answers by
the form that it stands for, and so does a call through a handle.

Key definitions: `Way`, `Sequence.via`, `Sequence.Inside`, `Sequence.Outside`, `Way.step`,
`Registers.Answer.item?`, `Shelf.Finds`, `Shelf.Misses`.
Key theorems: `Sequence.via_eq`, `Sequence.exists_inside`, `Sequence.outside`,
`Registers.item?_step`, `Shelf.finds_of_inside`, `Shelf.exists_set`, `accesses_agree`.
-/
import Mathlib
import SupportLayer.Proofs.Sequence.Independence
import SupportLayer.Proofs.Shelf.Refinement

namespace SupportLayer

variable {α : Type}

/-- The ways to the element at an index: the copying and the lending form that panic, the checked
form, the unchecked form, the pointer and the slice of a view, and the items of an iterator that
was asked for, that a loop asks for, or that uses the sequence up. -/
inductive Way where
  | get
  | index
  | tryGet
  | getUnchecked
  | pointer
  | slice
  | iter
  | loop
  | consume

namespace Sequence

/-- What a way leads to at an index. -/
def via (s : Sequence α) (i : ℕ) : Way → Option α
  | .get => (s.get i).toOption
  | .index => (s.index i).toOption
  | .tryGet => (s.tryGet i).toOption
  | .getUnchecked => s.getUnchecked i
  | .pointer => s.rawView.read i
  | .slice => s.rawView.slice[i]?
  | .iter => s.iter.item? i
  | .loop => s.iter.item? i
  | .consume => s.consume.1.item? i

theorem toOption_elim {ε : Type} (found : Option α) (e : ε) :
    (found.elim (.error e) .ok : Except ε α).toOption = found := by
  cases found <;> rfl

/-- Every way leads to the element of the list. -/
theorem via_eq (s : Sequence α) (i : ℕ) (way : Way) : s.via i way = s.toList[i]? := by
  cases way with
  | get => rw [via, get_eq, toOption_elim]
  | index => rw [via, index_eq_get, get_eq, toOption_elim]
  | tryGet => rw [via, tryGet_eq, toOption_elim]
  | getUnchecked => exact getUnchecked_eq s i
  | pointer => exact read_rawView s i
  | slice => rw [via, slice_rawView]
  | iter | loop => exact item?_iter s i
  | consume => exact item?_consume s i

/-- All ways lead to one element, and to what is written over it; a write is seen at no other index
and changes no length. -/
structure Inside (s : Sequence α) (i : ℕ) (a : α) : Prop where
  found : ∀ way, s.via i way = some a
  written : ∀ b, ∃ t, s.set i b = some t ∧ t.length = s.length ∧ (∀ way, t.via i way = some b) ∧
    ∀ j, j ≠ i → ∀ way, t.via j way = s.via j way

/-- No way leads anywhere, nothing can be written, and the forms that can say so do. -/
structure Outside (s : Sequence α) (i : ℕ) : Prop where
  get : s.get i = .error (.outOfBounds s.length i)
  index : s.index i = .error (.outOfBounds s.length i)
  tryGet : s.tryGet i = .error (.outOfRange i s.length)
  missed : ∀ way, s.via i way = none
  unwritten : ∀ b, s.set i b = none

variable {s : Sequence α} {i : ℕ}

theorem exists_inside (h : i < s.length) : ∃ a, s.Inside i a := by
  have hlist : i < s.toList.length := by rwa [length_toList]
  refine ⟨s.toList[i], fun way => ?_, fun b => ⟨ofList (s.toList.set i b), ?_, ?_, ?_, ?_⟩⟩
  · rw [via_eq, List.getElem?_eq_getElem hlist]
  · rw [set_eq, if_pos h]
  · rw [← length_toList, toList_ofList, List.length_set, length_toList]
  · intro way
    rw [via_eq, toList_ofList, List.getElem?_set_self hlist]
  · intro j hj way
    rw [via_eq, via_eq, toList_ofList, List.getElem?_set_ne hj.symm]

theorem outside (h : s.length ≤ i) : s.Outside i := by
  have hnone : s.toList[i]? = none := List.getElem?_eq_none (by rwa [length_toList])
  have hget : s.get i = .error (.outOfBounds s.length i) := by rw [get_eq, hnone]; rfl
  refine ⟨hget, by rw [index_eq_get, hget], by rw [tryGet_eq, hnone]; rfl, fun way => ?_,
    fun b => ?_⟩
  · rw [via_eq, hnone]
  · rw [set_eq, if_neg (Nat.not_lt.mpr h)]

end Sequence

/-! ### Named sequences -/

/-- The step that goes a way. Lending an element and copying it are one step, and so are reading
through a pointer and reading unchecked, and both iterators that leave the sequence as it is. -/
def Way.step (r : String) (i : ℕ) : Way → Registers.Step α
  | .get | .index => .get r i
  | .tryGet => .tryGet r i
  | .getUnchecked | .pointer => .getUnchecked r i
  | .slice => .view r
  | .iter | .loop => .iterate r
  | .consume => .consume r

namespace Registers

/-- The element that an answer gives for an index. -/
def Answer.item? (i : ℕ) : Answer α → Option α
  | .element a => some a
  | .checked (.ok a) => some a
  | .elements l => l[i]?
  | .view s _ => s.rawView.slice[i]?
  | _ => none

variable [Shown α] [DecidableEq α] [Stored α]

theorem item?_step (registers : Registers α) (r : String) (i : ℕ) (way : Way) :
    (registers.step (way.step r i)).1.item? i = (registers.lookup r).via i way := by
  rw [Sequence.via_eq, answer_step, ← contents_apply]
  cases way with
  | get | index | tryGet | getUnchecked | pointer =>
    simp only [Way.step, Lists.step, Step.kind, Lists.serve_read]
    cases (contents registers r)[i]? <;> rfl
  | slice | iter | loop | consume => rfl

/-- A write through the pointer of a named sequence is one to the sequence. -/
theorem lookup_step_set (registers : Registers α) {r : String} {i : ℕ} {b : α} {t : Sequence α}
    (h : (registers.lookup r).set i b = some t) :
    (registers.step (.set r i b)).2.lookup r = t := by
  simp only [step, h, lookup_assign, if_pos]

end Registers

/-! ### Handles -/

namespace Shelf

variable {shelf : Shelf} {h : Handle} {i : ℕ}

theorem sequence?_of_lt (hi : i < (shelf.contents h).length) :
    shelf.sequence? h = some (shelf.contents h) := by
  unfold contents at hi ⊢
  cases hs : shelf.sequence? h with
  | none =>
    rw [hs] at hi
    exact absurd hi (Nat.not_lt_zero i)
  | some s => rfl

/-- The storage that a handle leads to is that of its sequence. -/
theorem eq_rawView {view : RawView Int64} (hview : shelf.data h = some view) :
    view = (shelf.contents h).rawView := by
  obtain ⟨s, hs, rfl⟩ := Option.map_eq_some_iff.mp hview
  rw [contents, hs, Option.getD_some]

theorem contents_store {s : Sequence Int64} (hs : shelf.sequence? h = some s)
    (t : Sequence Int64) : (shelf.store h t).contents h = t := by
  cases h with
  | none => cases hs
  | some n =>
    have hfind : find? n shelf.live = some s := hs
    simp [contents, sequence?, store, find?_replace, hfind]

/-- The calls that read the slot at an index through a handle find `a`. -/
structure Finds (shelf : Shelf) (h : Handle) (i : ℕ) (a : Int64) : Prop where
  get : shelf.get h i = some a
  tryGet : ∀ cell, shelf.tryGet h i cell = (.ok, cell.map fun _ => a)
  data : ∃ view, shelf.data h = some view ∧ i < view.length ∧ view.read i = some a

/-- No call finds a slot, and the one that can say so says it. -/
structure Misses (shelf : Shelf) (h : Handle) (i : ℕ) : Prop where
  get : shelf.get h i = none
  tryGet : ∀ cell, shelf.tryGet h i cell = (.outOfRange, cell)
  data : ∀ view, shelf.data h = some view → view.length ≤ i ∧ view.read i = none

/-- Through a handle the element is found that the ways to it lead to. -/
theorem finds_of_inside {a : Int64} (hi : i < (shelf.contents h).length)
    (ha : (shelf.contents h).Inside i a) : shelf.Finds h i a where
  get := ha.found .getUnchecked
  tryGet cell := by
    have hlist : (shelf.contents h).toList[i]? = some a := ha.found .slice
    rw [tryGet, Sequence.tryGet_eq, hlist]
    rfl
  data := by
    refine ⟨(shelf.contents h).rawView, ?_, ?_, ha.found .pointer⟩
    · rw [data, sequence?_of_lt hi, Option.map_some]
    · rwa [Sequence.length_rawView]

theorem misses_of_outside (hi : (shelf.contents h).length ≤ i)
    (ha : (shelf.contents h).Outside i) : shelf.Misses h i where
  get := ha.missed .getUnchecked
  tryGet cell := by
    rw [tryGet, ha.tryGet]
    rfl
  data view hview := by
    rw [eq_rawView hview, Sequence.length_rawView]
    exact ⟨hi, ha.missed .pointer⟩

/-- A write through the pointer behind a handle is one to the sequence, and is found. -/
theorem exists_set (hi : i < (shelf.contents h).length) (b : Int64) :
    ∃ shelf', shelf.set h i b = some shelf' ∧
      (shelf.contents h).set i b = some (shelf'.contents h) ∧ shelf'.Finds h i b := by
  obtain ⟨a, ha⟩ := Sequence.exists_inside hi
  obtain ⟨t, hset, hlength, hfound, -⟩ := ha.written b
  have hstored : (shelf.store h t).contents h = t := contents_store (sequence?_of_lt hi) t
  refine ⟨shelf.store h t, by rw [set, hset, Option.map_some], by rw [hset, hstored], ?_⟩
  have hit : i < ((shelf.store h t).contents h).length := by rwa [hstored, hlength]
  obtain ⟨c, hc⟩ := Sequence.exists_inside hit
  have hcb : c = b := by
    have hslice := hc.found .slice
    rw [hstored, hfound .slice] at hslice
    exact (Option.some.inj hslice).symm
  exact hcb ▸ finds_of_inside hit hc

end Shelf

/-- **All ways to an element lead to the same one.** Of any sequence, whatever it was made by:
inside its bounds each way leads to one element, also once that was written over, and a write shows
at no other index and changes no length; outside them the panicking forms and the checked one report
the index and the length, and no other way leads anywhere. The steps on named sequences and the
calls through handles go these ways: they find what is there, write it, and report what is not. -/
theorem accesses_agree [Shown α] [DecidableEq α] [Stored α] :
    (∀ (s : Sequence α) i, (i < s.length → ∃ a, s.Inside i a) ∧ (s.length ≤ i → s.Outside i)) ∧
    (∀ (registers : Registers α) r i,
      (∀ way, (registers.step (way.step r i)).1.item? i = (registers.lookup r).via i way) ∧
      (∀ b t, (registers.lookup r).set i b = some t →
        (registers.step (.set r i b)).2.lookup r = t) ∧
      ((registers.lookup r).length ≤ i →
        (registers.step (.get r i)).1 = .panic (.outOfBounds (registers.lookup r).length i) ∧
        (registers.step (.tryGet r i)).1 =
          .checked (.error (.outOfRange i (registers.lookup r).length)))) ∧
    ∀ (shelf : Shelf) h i,
      (i < (shelf.contents h).length → ∃ a, (shelf.contents h).Inside i a ∧ shelf.Finds h i a ∧
        ∀ b, ∃ shelf', shelf.set h i b = some shelf' ∧
          (shelf.contents h).set i b = some (shelf'.contents h) ∧ shelf'.Finds h i b) ∧
      ((shelf.contents h).length ≤ i →
        (shelf.contents h).Outside i ∧ shelf.Misses h i ∧ Status.outOfRange.code = 1) := by
  refine ⟨fun s i => ⟨Sequence.exists_inside, Sequence.outside⟩, fun registers r i => ?_,
    fun shelf h i => ⟨fun hi => ?_, fun hi => ?_⟩⟩
  · refine ⟨registers.item?_step r i, fun b t => registers.lookup_step_set, fun hi => ?_⟩
    have hout := Sequence.outside hi
    simp only [Registers.step, hout.get, hout.tryGet, Registers.Answer.ofPanicking, and_self]
  · obtain ⟨a, ha⟩ := Sequence.exists_inside hi
    exact ⟨a, ha, Shelf.finds_of_inside hi ha, Shelf.exists_set hi⟩
  · have hout := Sequence.outside hi
    exact ⟨hout, Shelf.misses_of_outside hi hout, rfl⟩

/-- The last element, and the last index there can be. -/
theorem accesses_agree_edges :
    let s : Sequence Int64 := .ofList [4, 5]
    let last : ℕ := 18446744073709551615
    1 < s.length ∧ s.length ≤ last ∧ s.Inside 1 5 ∧
      s.tryGet last = .error (.outOfRange last 2) := by
  intro s last
  have hin : 1 < s.length := by decide
  have hout : s.length ≤ last := by decide
  obtain ⟨hways, -⟩ := @accesses_agree Int64 _ _ _
  obtain ⟨a, ha⟩ := (hways s 1).1 hin
  have hfive : some a = some 5 := (ha.found .slice).symm
  cases hfive
  exact ⟨hin, hout, ha, ((hways s last).2 hout).tryGet⟩

end SupportLayer
