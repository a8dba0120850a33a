/-
# Handles refine lists

Seen from generated code, the shelf keeps one list for each handle it has handed out
(`Lists`). A call on a live handle takes from that list, or adds to it, at its end, and reads
and writes it at an index; the null handle stands for the empty list for good. A call that its
contract forbids (through a freed handle, or unchecked and out of bounds) has no answer, nor has
one that asks for more room than there can be, which ends the program. A run of calls that has
answers on lists has the same ones on the shelf, and leaves the same contents behind
(`run_refines`): each call keeps shelf and lists matched (`serve_refines`), because adding,
storing and freeing change what is found under one number only.

Key definitions: `Shelf.Call`, `Shelf.mostRoom`, `Shelf.serve`, `Shelf.run`, `Shelf.Lists`,
`Shelf.Lists.serve`, `Shelf.Matches`.
Key theorems: `Shelf.serve_refines`, `Shelf.run_refines`, `Shelf.handles_refine_lists`,
`Shelf.largest_room_panics`.
-/
import Mathlib
import SupportLayer.Shelf

namespace SupportLayer

namespace Sequence

variable {α : Type}

/-- A checked removal that fails leaves the sequence as it was. -/
theorem eq_of_tryPop_error {s rest : Sequence α} {fault : Fault}
    (h : s.tryPop = (.error fault, rest)) : rest = s := by
  unfold tryPop at h
  split at h <;> cases h
  rfl

end Sequence

namespace Shelf

/-! ### Calls -/

/-- A call of generated code. -/
inductive Call where
  | create (room : ℕ)
  | fill (values : Option (List Int64)) (count : ℕ)
  | copy (h : Handle)
  | transfer (h : Handle)
  | free (h : Handle)
  | length (h : Handle)
  | get (h : Handle) (index : ℕ)
  | tryGet (h : Handle) (index : ℕ) (cell : Option Int64)
  | push (h : Handle) (value : Int64)
  | pop (h : Handle)
  | tryPop (h : Handle) (cell : Option Int64)
  | set (h : Handle) (index : ℕ) (value : Int64)
  deriving DecidableEq

/-- What a call gives back: a status comes with the cell that a value is stored in. -/
inductive Answer where
  | nothing
  | handle (h : Handle)
  | length (n : ℕ)
  | value (v : Int64)
  | status (code : Status) (cell : Option Int64)
  deriving DecidableEq

/-- The handle that a call goes through. -/
def Call.through : Call → Handle
  | .create _ => none
  | .fill _ _ => none
  | .copy h => h
  | .transfer h => h
  | .free h => h
  | .length h => h
  | .get h _ => h
  | .tryGet h _ _ => h
  | .push h _ => h
  | .pop h => h
  | .tryPop h _ => h
  | .set h _ _ => h

/-- The cell that a call hands over. -/
def Call.cell : Call → Option Int64
  | .tryGet _ _ cell => cell
  | .tryPop _ cell => cell
  | _ => none

/-- The call without the cell. -/
def Call.withoutCell : Call → Call
  | .tryGet h index _ => .tryGet h index none
  | .tryPop h _ => .tryPop h none
  | call => call

/-- The call without the room it asks for. -/
def Call.withoutRoom : Call → Call
  | .create _ => .create 0
  | call => call

/-- What a call answers, and the shelf behind it. An unchecked call out of bounds has no
answer, and neither has a call that ends the program. -/
def serve (shelf : Shelf) : Call → Option (Answer × Shelf)
  | .create room => (shelf.create room).toOption.map fun made => made.map .handle id
  | .fill values count => some ((shelf.fill values count).map .handle id)
  | .copy h => some ((shelf.copy h).map .handle id)
  | .transfer h => some ((shelf.transfer h).map .handle id)
  | .free h => some (.nothing, shelf.free h)
  | .length h => some (.length (shelf.length h), shelf)
  | .get h index => (shelf.get h index).map fun value => (.value value, shelf)
  | .tryGet h index cell =>
    let (code, cell) := shelf.tryGet h index cell
    some (.status code cell, shelf)
  | .push h value => some ((shelf.push h value).map .length id)
  | .pop h => (shelf.pop h).map fun (value, shelf) => (.value value, shelf)
  | .tryPop h cell =>
    let ((code, cell), shelf) := shelf.tryPop h cell
    some (.status code cell, shelf)
  | .set h index value => (shelf.set h index value).map fun shelf => (.nothing, shelf)

/-- What the calls of a run answer, and the shelf at its end. -/
def run (shelf : Shelf) : List Call → Option (List Answer × Shelf)
  | [] => some ([], shelf)
  | call :: calls => do
    let (answer, shelf) ← shelf.serve call
    let (answers, shelf) ← shelf.run calls
    pure (answer :: answers, shelf)

/-! ### Lists -/

/-- The most slots that room may be asked for. -/
def mostRoom : ℕ := 1152921504606846975

/-- The list of each handle handed out so far, in order; none once the handle is freed. -/
abbrev Lists := List (Option (List Int64))

namespace Lists

/-- The list that a handle stands for, unless it was freed. -/
def read (lists : Lists) : Handle → Option (List Int64)
  | some n => lists[n]?.join
  | none => some []

/-- The lists with that of a handle replaced; through null nothing is stored. -/
def put (lists : Lists) : Handle → List Int64 → Lists
  | some n, l => lists.set n (some l)
  | none, _ => lists

/-- The lists without that of a handle. -/
def drop (lists : Lists) : Handle → Lists
  | some n => lists.set n none
  | none => lists

/-- A new handle for a list. -/
def hand (lists : Lists) (l : List Int64) : Answer × Lists :=
  (.handle (some lists.length), lists ++ [some l])

/-- What a call answers on lists, and the lists behind it. A call that its contract forbids has
no answer, and neither has one for more room than there can be. -/
def serve (lists : Lists) : Call → Option (Answer × Lists)
  | .create room => if room ≤ mostRoom then some (lists.hand []) else none
  | .fill none _ => some (lists.hand [])
  | .fill (some values) count =>
    if count ≤ values.length then some (lists.hand (values.take count)) else none
  | .copy h => (lists.read h).map lists.hand
  | .transfer h => (lists.read h).map (lists.put h []).hand
  | .free h => (lists.read h).map fun _ => (.nothing, lists.drop h)
  | .length h => (lists.read h).map fun l => (.length l.length, lists)
  | .get h index => do
    let l ← lists.read h
    let value ← l[index]?
    pure (.value value, lists)
  | .tryGet h index cell => (lists.read h).map fun l =>
    match l[index]? with
    | some value => (.status .ok (cell.map fun _ => value), lists)
    | none => (.status .outOfRange cell, lists)
  | .push none _ => some (.length 0, lists)
  | .push (some n) value => (lists.read (some n)).map fun l =>
    (.length (l.length + 1), lists.put (some n) (l ++ [value]))
  | .pop h => do
    let l ← lists.read h
    let value ← l.getLast?
    pure (.value value, lists.put h l.dropLast)
  | .tryPop h cell => (lists.read h).map fun l =>
    match l.getLast? with
    | some value => (.status .ok (cell.map fun _ => value), lists.put h l.dropLast)
    | none => (.status .emptyContainer cell, lists)
  | .set h index value => do
    let l ← lists.read h
    if index < l.length then pure (.nothing, lists.put h (l.set index value)) else none

/-- What the calls of a run answer on lists, and the lists at its end. -/
def run (lists : Lists) : List Call → Option (List Answer × Lists)
  | [] => some ([], lists)
  | call :: calls => do
    let (answer, lists) ← lists.serve call
    let (answers, lists) ← lists.run calls
    pure (answer :: answers, lists)

end Lists

/-! ### What stands under a number -/

section

variable {number n : ℕ} {s : Sequence Int64} {live : List (ℕ × Sequence Int64)}

theorem find?_append (live : List (ℕ × Sequence Int64)) (number n : ℕ) (s : Sequence Int64) :
    find? n (live ++ [(number, s)]) = (find? n live).or (if number = n then some s else none) := by
  induction live with
  | nil => by_cases h : number = n <;> simp [find?, h]
  | cons entry rest ih =>
    obtain ⟨k, t⟩ := entry
    by_cases h : k = n <;> simp [find?, h, ih]

theorem find?_replace (live : List (ℕ × Sequence Int64)) (number n : ℕ) (s : Sequence Int64) :
    find? n (replace number s live) =
      if number = n then (find? n live).map fun _ => s else find? n live := by
  induction live with
  | nil => simp [find?, replace]
  | cons entry rest ih =>
    obtain ⟨k, t⟩ := entry
    by_cases hk : k = number
    · subst hk
      by_cases hn : k = n <;> simp [find?, replace, hn]
    · by_cases hn : k = n
      · subst hn
        simp [find?, replace, hk, Ne.symm hk]
      · simp [find?, replace, hk, hn, ih]

theorem find?_filter (live : List (ℕ × Sequence Int64)) (number n : ℕ) :
    find? n (live.filter fun entry => entry.1 ≠ number) =
      if number = n then none else find? n live := by
  induction live with
  | nil => simp [find?]
  | cons entry rest ih =>
    obtain ⟨k, t⟩ := entry
    by_cases hk : k = number
    · subst hk
      by_cases hn : k = n <;> simp_all [find?]
    · by_cases hn : k = n
      · subst hn
        simp [find?, hk, Ne.symm hk]
      · simp_all [find?]

theorem replace_self (h : ∀ t ∈ find? number live, t = s) : replace number s live = live := by
  induction live with
  | nil => rfl
  | cons entry rest ih =>
    obtain ⟨k, t⟩ := entry
    by_cases hk : k = number
    · subst hk
      have : t = s := h t (by simp [find?])
      simp [replace, this]
    · have hrest := ih (by simpa [find?, hk] using h)
      simp [replace, hk, hrest]

theorem store_contents (shelf : Shelf) (h : Handle) : shelf.store h (shelf.contents h) = shelf := by
  cases h with
  | none => rfl
  | some n =>
    have hs : ∀ t ∈ find? n shelf.live, t = shelf.contents (some n) := by
      intro t ht
      simp only [Option.mem_def] at ht
      simp [contents, sequence?, ht]
    simp only [store, replace_self hs]

theorem fits_iff {room : ℕ} : Sequence.Fits Int64 room ↔ room ≤ mostRoom := by
  show room * 8 ≤ 9223372036854775807 ↔ room ≤ 1152921504606846975
  omega

theorem create_of_le (shelf : Shelf) {room : ℕ} (h : room ≤ mostRoom) :
    shelf.create room = .ok (shelf.add .empty) := by
  rw [create, Sequence.withCapacity_of_fits (fits_iff.mpr h)]
  rfl

/-- More room than there can be ends the program. -/
theorem create_of_lt (shelf : Shelf) {room : ℕ} (h : mostRoom < room) :
    shelf.create room = .error .capacityOverflow := by
  rw [create, Sequence.withCapacity_of_not_fits (mt fits_iff.mp (Nat.not_le.mpr h))]
  rfl

theorem serve_create (shelf : Shelf) (room : ℕ) :
    shelf.serve (.create room) =
      if room ≤ mostRoom then some ((shelf.add .empty).map .handle id) else none := by
  by_cases h : room ≤ mostRoom
  · rw [serve, shelf.create_of_le h, if_pos h]
    rfl
  · rw [serve, shelf.create_of_lt (Nat.lt_of_not_le h), if_neg h]
    rfl

end

/-! ### The simulation -/

/-- The shelf keeps the lists: under each number handed out stands the sequence of its list. -/
structure Matches (shelf : Shelf) (lists : Lists) : Prop where
  next : shelf.next = lists.length
  sequences : ∀ n, find? n shelf.live = (lists[n]?.join).map Sequence.ofList

namespace Matches

variable {shelf : Shelf} {lists : Lists} {h : Handle} {l : List Int64}

theorem start : Matches {} [] := ⟨rfl, fun n => by simp [find?]⟩

theorem sequence?_some (m : Matches shelf lists) {n : ℕ} (hr : lists.read (some n) = some l) :
    shelf.sequence? (some n) = some (.ofList l) := by
  have hl : lists[n]?.join = some l := hr
  simp [sequence?, m.sequences, hl]

/-- A handle reads as its list. -/
theorem contents_eq (m : Matches shelf lists) (hr : lists.read h = some l) :
    shelf.contents h = .ofList l := by
  cases h with
  | none =>
    cases hr
    rfl
  | some n => simp [contents, m.sequence?_some hr]

theorem add (m : Matches shelf lists) (l : List Int64) :
    ∃ shelf', shelf.add (.ofList l) = (some lists.length, shelf') ∧
      Matches shelf' (lists ++ [some l]) := by
  refine ⟨_, by rw [Shelf.add, m.next], by simp, fun n => ?_⟩
  rw [find?_append, m.sequences]
  by_cases hn : lists.length = n
  · subst hn
    simp
  · rw [if_neg hn, Option.or_none]
    rcases Nat.lt_or_gt_of_ne hn with h | h
    · rw [List.getElem?_eq_none h.le, List.getElem?_eq_none (by simp; omega)]
    · rw [List.getElem?_append_left h]

theorem store (m : Matches shelf lists) (hr : lists.read h = some l) (l' : List Int64) :
    Matches (shelf.store h (.ofList l')) (lists.put h l') := by
  cases h with
  | none => exact m
  | some n =>
    have hl : lists[n]? = some (some l) := Option.join_eq_some_iff.mp hr
    obtain ⟨hlt, -⟩ := List.getElem?_eq_some_iff.mp hl
    refine ⟨by simpa [Shelf.store, Lists.put] using m.next, fun k => ?_⟩
    simp only [Shelf.store, Lists.put]
    rw [find?_replace, m.sequences, List.getElem?_set]
    by_cases hk : n = k
    · subst hk
      rw [hl]
      simp [hlt]
    · simp [hk]

theorem free (m : Matches shelf lists) (h : Handle) : Matches (shelf.free h) (lists.drop h) := by
  cases h with
  | none => exact m
  | some n =>
    refine ⟨by simpa [Shelf.free, Lists.drop] using m.next, fun k => ?_⟩
    simp only [Shelf.free, Lists.drop]
    rw [find?_filter, m.sequences, List.getElem?_set]
    by_cases hk : n = k
    · subst hk
      by_cases hlt : n < lists.length <;> simp [hlt]
    · simp [hk]

theorem hand (m : Matches shelf lists) (made : Handle × Shelf) {l : List Int64}
    (hmade : made = shelf.add (.ofList l)) :
    ∃ shelf', made.map .handle id = ((lists.hand l).1, shelf') ∧
      Matches shelf' (lists.hand l).2 := by
  obtain ⟨shelf', ha, hm⟩ := m.add l
  exact ⟨shelf', by rw [hmade, ha]; rfl, hm⟩

end Matches

/-- A call on the shelf answers as it does on lists, and shelf and lists stay matched. -/
theorem serve_refines {shelf : Shelf} {lists lists' : Lists} {call : Call} {answer : Answer}
    (m : Matches shelf lists) (h : lists.serve call = some (answer, lists')) :
    ∃ shelf', shelf.serve call = some (answer, shelf') ∧ Matches shelf' lists' := by
  cases call with
  | create room =>
    simp only [Lists.serve] at h
    split at h
    · next hroom =>
      cases h
      obtain ⟨shelf', hs, hm⟩ := m.hand (shelf.add .empty) rfl
      exact ⟨shelf', by rw [serve_create, if_pos hroom, hs]; rfl, hm⟩
    · cases h
  | fill values count =>
    cases values with
    | none =>
      cases h
      obtain ⟨shelf', hs, hm⟩ := m.hand (shelf.fill none count) rfl
      exact ⟨shelf', congrArg some hs, hm⟩
    | some values =>
      simp only [Lists.serve] at h
      split at h
      · cases h
        obtain ⟨shelf', hs, hm⟩ := m.hand (shelf.fill (some values) count) rfl
        exact ⟨shelf', congrArg some hs, hm⟩
      · cases h
  | copy h' =>
    obtain ⟨l, hr, hl⟩ := Option.map_eq_some_iff.mp h
    cases hl
    obtain ⟨shelf', hs, hm⟩ := m.hand (shelf.copy h') (by rw [Shelf.copy, m.contents_eq hr])
    exact ⟨shelf', congrArg some hs, hm⟩
  | transfer h' =>
    obtain ⟨l, hr, hl⟩ := Option.map_eq_some_iff.mp h
    cases hl
    obtain ⟨shelf', hs, hm⟩ := (m.store hr []).hand (shelf.transfer h')
      (by rw [Shelf.transfer, m.contents_eq hr]; rfl)
    exact ⟨shelf', congrArg some hs, hm⟩
  | free h' =>
    obtain ⟨l, hr, hl⟩ := Option.map_eq_some_iff.mp h
    cases hl
    exact ⟨_, rfl, m.free h'⟩
  | length h' =>
    obtain ⟨l, hr, hl⟩ := Option.map_eq_some_iff.mp h
    cases hl
    exact ⟨shelf, by simp only [serve, Shelf.length, m.contents_eq hr]; rfl, m⟩
  | get h' index =>
    obtain ⟨l, hr, h⟩ := Option.bind_eq_some_iff.mp h
    obtain ⟨value, hv, h⟩ := Option.bind_eq_some_iff.mp h
    cases h
    have hget : shelf.get h' index = some value := by
      rw [Shelf.get, m.contents_eq hr, Sequence.getUnchecked_eq, Sequence.toList_ofList, hv]
    exact ⟨shelf, by rw [serve, hget, Option.map_some], m⟩
  | tryGet h' index cell =>
    obtain ⟨l, hr, hl⟩ := Option.map_eq_some_iff.mp h
    have ht : shelf.tryGet h' index cell =
        outcome cell (l[index]?.elim (.error (.outOfRange index l.length)) .ok) := by
      rw [Shelf.tryGet, m.contents_eq hr, Sequence.tryGet_eq]
      rfl
    cases hg : l[index]? with
    | some value =>
      rw [hg] at ht hl
      cases hl
      exact ⟨shelf, by simp only [serve, ht, Option.elim_some, outcome], m⟩
    | none =>
      rw [hg] at ht hl
      cases hl
      exact ⟨shelf, by simp only [serve, ht, Option.elim_none, outcome, Fault.status], m⟩
  | push h' value =>
    cases h' with
    | none =>
      cases h
      exact ⟨shelf, rfl, m⟩
    | some n =>
      obtain ⟨l, hr, hl⟩ := Option.map_eq_some_iff.mp h
      cases hl
      have hpush : (Sequence.ofList l).push value = (l.length + 1, .ofList (l ++ [value])) :=
        Prod.ext rfl (Sequence.toList_inj.mp (Sequence.toList_push _ _))
      refine ⟨_, ?_, m.store hr _⟩
      simp only [serve, Shelf.push, m.sequence?_some hr, hpush]
      rfl
  | pop h' =>
    obtain ⟨l, hr, h⟩ := Option.bind_eq_some_iff.mp h
    obtain ⟨value, hv, h⟩ := Option.bind_eq_some_iff.mp h
    cases h
    refine ⟨_, ?_, m.store hr _⟩
    simp only [serve, Shelf.pop, m.contents_eq hr, Sequence.popUnchecked_eq,
      Sequence.toList_ofList, hv, Option.map_some]
  | tryPop h' cell =>
    obtain ⟨l, hr, hl⟩ := Option.map_eq_some_iff.mp h
    have hpop : shelf.tryPop h' cell =
        (outcome cell (l.getLast?.elim (.error .emptyContainer) .ok),
          shelf.store h' (.ofList l.dropLast)) := by
      rw [Shelf.tryPop, m.contents_eq hr, Sequence.tryPop_eq, Sequence.toList_ofList]
    cases hv : l.getLast? with
    | some value =>
      rw [hv] at hpop hl
      cases hl
      exact ⟨_, by simp only [serve, hpop, Option.elim_some, outcome], m.store hr _⟩
    | none =>
      rw [hv] at hpop hl
      cases hl
      -- nothing was there to be taken, so what is stored is what was there
      have hstay : shelf.store h' (.ofList l.dropLast) = shelf := by
        have hsame := Sequence.ofList_dropLast_of_none (s := .ofList l) hv
        rw [Sequence.toList_ofList] at hsame
        rw [hsame, ← m.contents_eq hr, store_contents]
      exact ⟨shelf, by simp only [serve, hpop, Option.elim_none, outcome, Fault.status, hstay], m⟩
  | set h' index value =>
    obtain ⟨l, hr, h⟩ := Option.bind_eq_some_iff.mp h
    split at h
    · next hindex =>
      cases h
      have hset : shelf.set h' index value = some (shelf.store h' (.ofList (l.set index value))) := by
        rw [Shelf.set, m.contents_eq hr, Sequence.set_eq, Sequence.toList_ofList,
          if_pos (by simpa [Sequence.length, Sequence.ofList] using hindex), Option.map_some]
      exact ⟨_, by rw [serve, hset, Option.map_some], m.store hr _⟩
    · cases h

/-- A run on the shelf answers as it does on lists. -/
theorem run_refines {calls : List Call} {shelf : Shelf} {lists lists' : Lists}
    {answers : List Answer} (m : Matches shelf lists)
    (h : lists.run calls = some (answers, lists')) :
    ∃ shelf', shelf.run calls = some (answers, shelf') ∧ Matches shelf' lists' := by
  induction calls generalizing shelf lists answers with
  | nil =>
    cases h
    exact ⟨shelf, rfl, m⟩
  | cons call calls ih =>
    obtain ⟨⟨answer, next⟩, hc, h⟩ := Option.bind_eq_some_iff.mp h
    obtain ⟨⟨rest, last⟩, hr, h⟩ := Option.bind_eq_some_iff.mp h
    cases h
    obtain ⟨shelf₁, hs₁, m₁⟩ := serve_refines m hc
    obtain ⟨shelf₂, hs₂, m₂⟩ := ih m₁ hr
    refine ⟨shelf₂, ?_, m₂⟩
    rw [run, hs₁]
    simp only [Option.bind_eq_bind, Option.bind_some, hs₂]
    rfl

/-! ### What a call leaves alone -/

section

variable {shelf shelf' : Shelf} {n : ℕ}

theorem sequence?_add (hn : n < shelf.next) (s : Sequence Int64) :
    (shelf.add s).2.sequence? (some n) = shelf.sequence? (some n) := by
  simp only [add, sequence?, Option.bind_some]
  rw [find?_append, if_neg (by omega), Option.or_none]

theorem sequence?_store {h : Handle} (hne : h ≠ some n) (s : Sequence Int64) :
    (shelf.store h s).sequence? (some n) = shelf.sequence? (some n) := by
  cases h with
  | none => rfl
  | some k =>
    have hk : k ≠ n := fun he => hne (congrArg some he)
    simp only [store, sequence?, Option.bind_some, find?_replace, if_neg hk]

theorem sequence?_free {h : Handle} (hne : h ≠ some n) :
    (shelf.free h).sequence? (some n) = shelf.sequence? (some n) := by
  cases h with
  | none => rfl
  | some k =>
    have hk : k ≠ n := fun he => hne (congrArg some he)
    simp only [free, sequence?, Option.bind_some, find?_filter, if_neg hk]

theorem next_store (h : Handle) (s : Sequence Int64) : (shelf.store h s).next = shelf.next := by
  cases h <;> rfl

theorem serve_others {call : Call} {answer : Answer} (h : shelf.serve call = some (answer, shelf'))
    (hn : n < shelf.next) (ht : call.through ≠ some n) :
    shelf'.sequence? (some n) = shelf.sequence? (some n) := by
  cases call with
  | create room =>
    rw [serve_create] at h
    split at h <;> cases h
    exact sequence?_add hn _
  | fill values count =>
    cases values <;> cases h <;> exact sequence?_add hn _
  | copy handle =>
    cases h
    exact sequence?_add hn _
  | transfer handle =>
    cases h
    refine (sequence?_add ?_ _).trans (sequence?_store ht _)
    rwa [next_store]
  | free handle =>
    cases h
    exact sequence?_free ht
  | length handle => cases h; rfl
  | get handle index =>
    obtain ⟨value, -, hv⟩ := Option.map_eq_some_iff.mp h
    cases hv
    rfl
  | tryGet handle index cell => cases h; rfl
  | push handle value =>
    cases h
    change (shelf.push handle value).2.sequence? (some n) = _
    unfold push
    split
    · exact sequence?_store ht _
    · rfl
  | pop handle =>
    obtain ⟨⟨value, rest⟩, hp, hv⟩ := Option.map_eq_some_iff.mp h
    cases hv
    unfold pop at hp
    split at hp <;> cases hp
    exact sequence?_store ht _
  | tryPop handle cell =>
    cases h
    exact sequence?_store ht _
  | set handle index value =>
    obtain ⟨rest, hs, hv⟩ := Option.map_eq_some_iff.mp h
    cases hv
    obtain ⟨s, -, rfl⟩ := Option.map_eq_some_iff.mp hs
    exact sequence?_store ht _

/-- A checked call that fails leaves the shelf and the cell as they were. -/
theorem serve_failed {call : Call} {code : Status} {cell : Option Int64}
    (h : shelf.serve call = some (.status code cell, shelf')) (hcode : code ≠ .ok) :
    shelf' = shelf ∧ cell = call.cell := by
  cases call with
  | tryGet handle index cell' =>
    simp only [serve, tryGet] at h
    cases hg : (shelf.contents handle).tryGet index with
    | ok value =>
      rw [hg] at h
      cases h
      exact absurd rfl hcode
    | error fault =>
      rw [hg] at h
      cases h
      exact ⟨rfl, rfl⟩
  | tryPop handle cell' =>
    simp only [serve, tryPop] at h
    have hstay := shelf.store_contents handle
    cases hp : (shelf.contents handle).tryPop with
    | mk taken rest =>
      rw [hp] at h
      cases taken with
      | ok value =>
        cases h
        exact absurd rfl hcode
      | error fault =>
        cases h
        rw [Sequence.eq_of_tryPop_error hp]
        exact ⟨hstay, rfl⟩
  | create room =>
    rw [serve_create] at h
    split at h <;> cases h
  | get handle index =>
    obtain ⟨value, -, hv⟩ := Option.map_eq_some_iff.mp h
    cases hv
  | pop handle =>
    obtain ⟨⟨value, rest⟩, -, hv⟩ := Option.map_eq_some_iff.mp h
    cases hv
  | set handle index value =>
    obtain ⟨rest, -, hv⟩ := Option.map_eq_some_iff.mp h
    cases hv
  | _ => cases h

end

/-! ### Cells, rooms and null -/

/-- The answer without the cell. -/
def Answer.withoutCell : Answer → Answer
  | .status code _ => .status code none
  | answer => answer

/-- Handing over no cell loses the value stored in it, and nothing else. -/
theorem serve_withoutCell (shelf : Shelf) (call : Call) :
    shelf.serve call.withoutCell =
      (shelf.serve call).map fun (answer, shelf) => (answer.withoutCell, shelf) := by
  cases call with
  | create room =>
    simp only [Call.withoutCell, serve_create]
    split <;> rfl
  | tryGet h index cell =>
    simp only [Call.withoutCell, serve, tryGet]
    cases (shelf.contents h).tryGet index <;> rfl
  | tryPop h cell =>
    simp only [Call.withoutCell, serve, tryPop]
    rcases (shelf.contents h).tryPop with ⟨_ | _, rest⟩ <;> rfl
  | get h index =>
    simp only [Call.withoutCell, serve]
    cases shelf.get h index <;> rfl
  | pop h =>
    simp only [Call.withoutCell, serve]
    cases shelf.pop h <;> rfl
  | set h index value =>
    simp only [Call.withoutCell, serve]
    cases shelf.set h index value <;> rfl
  | _ => rfl

/-- The room that a call asks for can be had. -/
def Call.Fits : Call → Prop
  | .create room => room ≤ mostRoom
  | _ => True

instance (call : Call) : Decidable call.Fits := by
  cases call <;> unfold Call.Fits <;> infer_instance

theorem serve_withoutRoom (shelf : Shelf) {call : Call} (h : call.Fits) :
    shelf.serve call.withoutRoom = shelf.serve call := by
  cases call with
  | create room =>
    have hroom : room ≤ mostRoom := h
    rw [Call.withoutRoom, serve_create, serve_create, if_pos (Nat.zero_le _), if_pos hroom]
  | _ => rfl

/-- The rooms asked for make no difference, as long as they can be had. -/
theorem run_withoutRoom (shelf : Shelf) {calls : List Call} (h : ∀ call ∈ calls, call.Fits) :
    shelf.run (calls.map Call.withoutRoom) = shelf.run calls := by
  induction calls generalizing shelf with
  | nil => rfl
  | cons call calls ih =>
    obtain ⟨hcall, hcalls⟩ := List.forall_mem_cons.mp h
    simp only [List.map_cons, run, shelf.serve_withoutRoom hcall, fun s => ih s hcalls]

/-- A call that has an answer on lists asks for room that can be had. -/
theorem Lists.fits_of_serve {lists lists' : Lists} {call : Call} {answer : Answer}
    (h : lists.serve call = some (answer, lists')) : call.Fits := by
  cases call with
  | create room =>
    simp only [Lists.serve] at h
    split at h
    · assumption
    · cases h
  | _ => trivial

theorem Lists.fits_of_run {lists lists' : Lists} {calls : List Call} {answers : List Answer}
    (h : lists.run calls = some (answers, lists')) : ∀ call ∈ calls, call.Fits := by
  induction calls generalizing lists lists' answers with
  | nil => exact List.forall_mem_nil _
  | cons call calls ih =>
    obtain ⟨⟨answer, next⟩, hc, h⟩ := Option.bind_eq_some_iff.mp h
    obtain ⟨⟨rest, last⟩, hr, -⟩ := Option.bind_eq_some_iff.mp h
    exact List.forall_mem_cons.mpr ⟨fits_of_serve hc, ih hr⟩

/-- How the null handle answers. -/
structure NullIsEmpty (shelf : Shelf) : Prop where
  length : shelf.serve (.length none) = some (.length 0, shelf)
  push : ∀ value, shelf.serve (.push none value) = some (.length 0, shelf)
  tryGet : ∀ index cell, shelf.serve (.tryGet none index cell) = some (.status .outOfRange cell, shelf)
  tryPop : ∀ cell, shelf.serve (.tryPop none cell) = some (.status .emptyContainer cell, shelf)
  copy : shelf.serve (.copy none) = shelf.serve (.create 0)
  transfer : shelf.serve (.transfer none) = shelf.serve (.create 0)
  free : shelf.serve (.free none) = some (.nothing, shelf)

theorem nullIsEmpty (shelf : Shelf) : NullIsEmpty shelf :=
  have hcreate : shelf.serve (.create 0) = some ((shelf.add .empty).map .handle id) := by
    rw [serve_create, if_pos (Nat.zero_le _)]
  ⟨rfl, fun _ => rfl, fun _ _ => rfl, fun _ => rfl, hcreate.symm, hcreate.symm, rfl⟩

/-- What a call leaves alone, besides what it answers. -/
structure Contained (shelf : Shelf) (call : Call) (answer : Answer) (shelf' : Shelf) : Prop where
  /-- The sequences of the other handles stay as they are. -/
  others : ∀ n < shelf.next, call.through ≠ some n →
    shelf'.sequence? (some n) = shelf.sequence? (some n)
  /-- A checked call that fails changes nothing, and stores nothing in the cell. -/
  failed : ∀ code cell, answer = .status code cell → code ≠ .ok →
    shelf' = shelf ∧ cell = call.cell
  /-- Without a cell the call does the same. -/
  withoutCell : shelf.serve call.withoutCell = some (answer.withoutCell, shelf')

theorem contained_of_serve {shelf shelf' : Shelf} {call : Call} {answer : Answer}
    (h : shelf.serve call = some (answer, shelf')) : Contained shelf call answer shelf' where
  others _ hn ht := serve_others h hn ht
  failed _ _ ha hcode := serve_failed (ha ▸ h) hcode
  withoutCell := by rw [serve_withoutCell, h, Option.map_some]

/-- **Handles refine lists.** A run within the contract answers on handles what it answers on
lists, whatever rooms it asks for as long as they can be had, and every live handle then holds its
list. The null handle is an empty list for good, and no call reaches further than its own handle.
To ask for more room than there can be ends the program. -/
theorem handles_refine_lists {calls : List Call} {answers : List Answer} {lists : Lists}
    (h : Lists.run [] calls = some (answers, lists)) :
    ∃ shelf : Shelf, run {} calls = some (answers, shelf) ∧
      (∀ handle l, lists.read handle = some l → (shelf.contents handle).toList = l) ∧
      (∀ calls', calls'.map Call.withoutRoom = calls.map Call.withoutRoom →
        (∀ room, .create room ∈ calls' → room ≤ mostRoom) →
        run {} calls' = some (answers, shelf)) ∧
      NullIsEmpty shelf ∧
      (∀ call answer shelf', shelf.serve call = some (answer, shelf') →
        Contained shelf call answer shelf') ∧
      ∀ room, mostRoom < room →
        shelf.create room = .error .capacityOverflow ∧ shelf.serve (.create room) = none := by
  obtain ⟨shelf, hrun, m⟩ := run_refines .start h
  refine ⟨shelf, hrun, fun handle l hr => ?_, fun calls' hsame hrooms => ?_, shelf.nullIsEmpty,
    fun _ _ _ => contained_of_serve, fun room hroom => ⟨shelf.create_of_lt hroom, ?_⟩⟩
  · rw [m.contents_eq hr, Sequence.toList_ofList]
  · have hfits : ∀ call ∈ calls', call.Fits := by
      intro call hcall
      cases call with
      | create room => exact hrooms room hcall
      | _ => trivial
    rw [← run_withoutRoom {} hfits, hsame, run_withoutRoom {} (Lists.fits_of_run h), hrun]
  · rw [serve_create, if_neg (Nat.not_le.mpr hroom)]

/-- Two lists, one copied and one handed on, with removals into no cell and past the end. -/
theorem handles_refine_lists_aliased :
    let calls : List Call := [.fill (some [5, 7]) 2, .copy (some 0), .transfer (some 0),
      .push (some 0) 9, .tryPop (some 1) none, .tryGet (some 2) 2 (some 3), .set (some 2) 0 8,
      .push none 1, .create 100, .tryPop (some 3) (some 4), .free (some 1), .pop (some 2)]
    let answers : List Answer := [.handle (some 0), .handle (some 1), .handle (some 2),
      .length 1, .status .ok none, .status .outOfRange (some 3), .nothing,
      .length 0, .handle (some 3), .status .emptyContainer (some 4), .nothing, .value 7]
    Lists.run [] calls = some (answers, [some [9], none, some [8], some []]) ∧
      ∃ shelf : Shelf, run {} calls = some (answers, shelf) ∧
        (shelf.contents (some 0)).toList = [9] ∧ (shelf.contents (some 2)).toList = [8] := by
  intro calls answers
  have h : Lists.run [] calls = some (answers, [some [9], none, some [8], some []]) := by decide
  obtain ⟨shelf, hrun, hlists, -⟩ := handles_refine_lists h
  exact ⟨h, shelf, hrun, hlists (some 0) _ rfl, hlists (some 2) _ rfl⟩

/-- A new handle for the largest number of slots that can be written: without the room the call
answers with an empty list, with it the program ends. -/
theorem largest_room_panics :
    let calls : List Call := [.create 18446744073709551615]
    Lists.run [] (calls.map Call.withoutRoom) = some ([.handle (some 0)], [some []]) ∧
      (∃ shelf : Shelf, run {} (calls.map Call.withoutRoom) = some ([.handle (some 0)], shelf) ∧
        (shelf.contents (some 0)).toList = []) ∧
      create {} 18446744073709551615 = .error .capacityOverflow ∧ run {} calls = none := by
  intro calls
  have hlarge : mostRoom < 18446744073709551615 := by decide
  refine ⟨by decide, ⟨_, rfl, rfl⟩, create_of_lt {} hlarge, ?_⟩
  simp only [calls, run, serve_create, if_neg (Nat.not_le.mpr hlarge)]
  rfl

end Shelf

end SupportLayer
