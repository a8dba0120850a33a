/-
# Every deferred action fires once, in its turn

The history of a run is read as a ledger: each registration takes the next ticket, onto the
innermost open frame; a frame that is left takes its tickets along until its exit is answered.
Actions of one name cannot be told apart when they fire, so the run is accounted for by saying
which ticket fires when (`Accounts`).

While the agenda is worked off, some tickets are due: those of frames that were left and did not
fire yet, in the order in which the agenda fires them. The tickets that fired and those due, one
behind the other, are what stays as it is when an action fires (`Books.fire`), whatever calls its
script makes; a frame that is left goes in front of what is due (`Books.leave`), so the tickets
of each frame stay in their order whatever comes between them.

Key definitions: `Scope.Ledger`, `Scope.Ledger.read`, `Scope.Accounts`, `Scope.Books`.
Key theorems: `Scope.Books.leave`, `Scope.Books.fire`, `Scope.Kept.step`, `Scope.Kept.drains`,
`Scope.fires_once_in_turn`.
-/
import Mathlib
import SupportLayer.Proofs.Scope.Agenda
import SupportLayer.Session

namespace SupportLayer.Scope

variable {α β σ ρ : Type}

/-- What a history says about deferred actions: those registered and those fired, each in its
order, and the tickets of the open frames, of the frames whose exits are under way, the
innermost first, and of all frames that were left. A ticket is a place among those registered. -/
structure Ledger (α : Type) where
  registered : List α := []
  fired : List α := []
  frames : List (List ℕ) := []
  leaving : List (List ℕ) := []
  left : List (List ℕ) := []

namespace Ledger

/-- A frame is opened. -/
def enter (l : Ledger α) : Ledger α := { l with frames := [] :: l.frames }

/-- A ticket is taken onto the innermost frame, or onto one that is opened for it. -/
def push (t : ℕ) : List (List ℕ) → List (List ℕ)
  | [] => [[t]]
  | frame :: frames => (frame ++ [t]) :: frames

/-- An action is registered. -/
def register (l : Ledger α) (a : α) : Ledger α :=
  { l with registered := l.registered ++ [a], frames := push l.registered.length l.frames }

/-- The innermost frame is left, if one is open. -/
def leave (l : Ledger α) : Ledger α :=
  match l.frames with
  | [] => { l with leaving := [] :: l.leaving }
  | frame :: frames =>
    { l with frames, leaving := frame :: l.leaving, left := l.left ++ [frame] }

/-- An action fires. -/
def fire (l : Ledger α) (a : α) : Ledger α := { l with fired := l.fired ++ [a] }

/-- The innermost exit is answered. -/
def answer (l : Ledger α) : Ledger α := { l with leaving := l.leaving.tail }

/-- An event is written down. -/
def record (l : Ledger α) : Event α β ρ → Ledger α
  | .logged (.scopeEntered _) => l.enter
  | .logged (.scopeLeft _) => l.leave
  | .logged .scopeLeftUnopened => l.leave
  | .fired a => l.fire a
  | .answered (.defer a) _ => l.register a
  | .answered .exit _ => l.answer
  | _ => l

/-- The ledger of a history. -/
def read (events : List (Event α β ρ)) : Ledger α := events.foldl record {}

@[simp] theorem read_nil : read ([] : List (Event α β ρ)) = {} := rfl

theorem read_concat (past : List (Event α β ρ)) (e : Event α β ρ) :
    read (past ++ [e]) = (read past).record e := by
  rw [read, List.foldl_append]
  rfl

/-- Only the records about frames are written down. -/
theorem record_logged {r : LogRecord} (h : r.ofFrames = false) (l : Ledger α) :
    l.record (.logged r : Event α β ρ) = l := by
  cases r with
  | scopeEntered depth => cases h
  | scopeLeft actions => cases h
  | scopeLeftUnopened => cases h
  | _ => rfl

/-- The ticket is that of an action of this name. -/
def Names (l : Ledger α) (t : ℕ) (a : α) : Prop := l.registered[t]? = some a

end Ledger

/-- When an exit is answered, the tickets of the frame that it left have fired. -/
def Returned (events : List (Event α β ρ)) (firings : List ℕ) : Prop :=
  ∀ before answer, before ++ [.answered .exit answer] <+: events →
    ∃ frame others, (Ledger.read before).leaving = frame :: others ∧
      ∀ t ∈ frame, t ∈ firings.take (Ledger.read before).fired.length

/-- The run is accounted for: the tickets `firings` fired, in this order. -/
structure Accounts (events : List (Event α β ρ)) (frames : Frames α) (firings : List ℕ) : Prop where
  /-- No exit is under way. -/
  settled : (Ledger.read events).leaving = []
  /-- The tickets that fired are those of the actions that did, one for one. -/
  fired : List.Forall₂ (Ledger.read events).Names firings (Ledger.read events).fired
  /-- The tickets of the open frames are those of the actions in them. -/
  pending :
    List.Forall₂ (List.Forall₂ (Ledger.read events).Names) (Ledger.read events).frames frames
  /-- Each ticket fired or is in an open frame, and once. -/
  once : (firings ++ (Ledger.read events).frames.flatten).Perm
    (List.range (Ledger.read events).registered.length)
  /-- A frame holds its tickets in the order of their registration. -/
  ascending : ∀ frame ∈ (Ledger.read events).frames ++ (Ledger.read events).left,
    frame.Pairwise (· < ·)
  /-- The tickets of a frame that was left fired in reverse order. -/
  reversed : ∀ frame ∈ (Ledger.read events).left,
    firings.filter (· ∈ frame) = frame.reverse
  /-- An exit is answered when the frame that it left has fired. -/
  returned : Returned events firings

/-! ### The books of an agenda -/

/-- The agenda fires the tickets that are due, in their order, and has fired those of a frame
when it answers for its exit. -/
inductive Covers (names : ℕ → α → Prop) :
    List (Task α β ρ) → List ℕ → List (List ℕ) → Prop where
  | nil : Covers names [] [] []
  | serve {tasks due leaving} (c) : Covers names tasks due leaving →
      Covers names (.serve c :: tasks) due leaving
  | fire {t a tasks due leaving} : names t a → Covers names tasks due leaving →
      Covers names (.fire a :: tasks) (t :: due) leaving
  | report {frame tasks due leaving} (answer) : (∀ t ∈ frame, t ∉ due) →
      Covers names tasks due leaving →
      Covers names (.report .exit answer :: tasks) due (frame :: leaving)

/-- The books that are kept while an agenda is worked off: `firings` are the tickets that
fired, `due` those of frames that were left and did not fire yet. -/
structure Books (l : Ledger α) (tasks : List (Task α β ρ)) (frames : Frames α)
    (firings due : List ℕ) : Prop where
  fired : List.Forall₂ l.Names firings l.fired
  pending : List.Forall₂ (List.Forall₂ l.Names) l.frames frames
  once : (firings ++ due ++ l.frames.flatten).Perm (List.range l.registered.length)
  ascending : ∀ frame ∈ l.frames ++ l.left, frame.Pairwise (· < ·)
  reversed : ∀ frame ∈ l.left, (firings ++ due).filter (· ∈ frame) = frame.reverse
  taken : ∀ frame ∈ l.leaving, ∀ t ∈ frame, t ∈ firings ++ due
  covers : Covers l.Names tasks due l.leaving

namespace Covers

variable {names : ℕ → α → Prop} {tasks : List (Task α β ρ)} {due : List ℕ}
  {leaving : List (List ℕ)}

theorem mono {names' : ℕ → α → Prop} (hn : ∀ t a, names t a → names' t a)
    (h : Covers names tasks due leaving) : Covers names' tasks due leaving := by
  induction h with
  | nil => exact .nil
  | serve c _ ih => exact .serve c ih
  | fire ht _ ih => exact .fire (hn _ _ ht) ih
  | report answer hf _ ih => exact .report answer hf ih

theorem serves (h : Covers names tasks due leaving) (calls : List (Call α β)) :
    Covers names (calls.map .serve ++ tasks) due leaving := by
  induction calls with
  | nil => exact h
  | cons c calls ih => exact .serve c ih

theorem fires (h : Covers names tasks due leaving) {tickets : List ℕ} {actions : List α}
    (ht : List.Forall₂ names tickets actions) :
    Covers names (actions.map .fire ++ tasks) (tickets ++ due) leaving := by
  induction ht with
  | nil => exact h
  | cons ht _ ih => exact .fire ht ih

theorem serve_inv {c : Call α β} (h : Covers names (.serve c :: tasks) due leaving) :
    Covers names tasks due leaving := by
  cases h with
  | serve _ h => exact h

theorem fire_inv {a : α} (h : Covers names (.fire a :: tasks) due leaving) :
    ∃ t rest, due = t :: rest ∧ names t a ∧ Covers names tasks rest leaving := by
  cases h with
  | fire ht h => exact ⟨_, _, rfl, ht, h⟩

theorem report_inv {c : Call α β} {answer : Answer ρ}
    (h : Covers names (.report c answer :: tasks) due leaving) :
    ∃ frame others, c = .exit ∧ leaving = frame :: others ∧ (∀ t ∈ frame, t ∉ due) ∧
      Covers names tasks due others := by
  cases h with
  | report _ hf h => exact ⟨_, _, rfl, rfl, hf, h⟩

end Covers

namespace Ledger

variable {l : Ledger α}

theorem Names.register {t : ℕ} {a : α} (b : α) (h : l.Names t a) : (l.register b).Names t a := by
  have ht : t < l.registered.length := (List.getElem?_eq_some_iff.mp h).1
  exact (List.getElem?_append_left ht).trans h

theorem names_register (a : α) : (l.register a).Names l.registered.length a := by
  simp [Names, Ledger.register]

theorem flatten_push (t : ℕ) (frames : List (List ℕ)) :
    (push t frames).flatten.Perm (t :: frames.flatten) := by
  cases frames with
  | nil => rfl
  | cons frame frames =>
    rw [push, List.flatten_cons, List.flatten_cons, List.append_assoc, List.singleton_append]
    exact List.perm_middle

theorem mem_push {t : ℕ} {frame : List ℕ} {frames : List (List ℕ)} (h : frame ∈ push t frames) :
    frame ∈ frames ∨ frame = [t] ∨ ∃ old ∈ frames, frame = old ++ [t] := by
  cases frames with
  | nil => exact .inr (.inl (List.mem_singleton.mp h))
  | cons old frames =>
    rcases List.mem_cons.mp h with rfl | h
    · exact .inr (.inr ⟨old, List.mem_cons_self, rfl⟩)
    · exact .inl (List.mem_cons_of_mem _ h)

end Ledger

namespace Books

variable {l : Ledger α} {tasks : List (Task α β ρ)} {frames : Frames α} {firings due : List ℕ}

theorem nodup (h : Books l tasks frames firings due) :
    (firings ++ due ++ l.frames.flatten).Nodup :=
  h.once.nodup_iff.mpr List.nodup_range

theorem lt_of_mem (h : Books l tasks frames firings due) {t : ℕ}
    (ht : t ∈ firings ++ due ++ l.frames.flatten) : t < l.registered.length :=
  List.mem_range.mp (h.once.mem_iff.mp ht)

theorem notMem_of_open (h : Books l tasks frames firings due) {t : ℕ}
    (ht : t ∈ l.frames.flatten) : t ∉ firings ∧ t ∉ due := by
  have hd := (List.nodup_append.mp h.nodup).2.2
  constructor
  · exact fun hf => hd t (List.mem_append_left _ hf) t ht rfl
  · exact fun hf => hd t (List.mem_append_right _ hf) t ht rfl

theorem mem_of_left (h : Books l tasks frames firings due) {frame : List ℕ} (hf : frame ∈ l.left)
    {t : ℕ} (ht : t ∈ frame) : t ∈ firings ++ due := by
  rw [← List.mem_reverse, ← h.reversed frame hf] at ht
  exact List.mem_of_mem_filter ht

/-! Each event keeps the books. -/

theorem enter (h : Books l tasks frames firings due) :
    Books l.enter tasks ([] :: frames) firings due where
  fired := h.fired
  pending := .cons .nil h.pending
  once := h.once
  ascending := by
    rintro frame (_ | ⟨_, hf⟩)
    · exact .nil
    · exact h.ascending frame hf
  reversed := h.reversed
  taken := h.taken
  covers := h.covers

theorem register (h : Books l tasks frames firings due) (a : α) :
    Books (l.register a) tasks (frames.defer a).1 firings due where
  fired := h.fired.imp fun _ _ => .register a
  pending := by
    have hold := h.pending.imp fun _ _ ht => ht.imp fun _ _ => Ledger.Names.register a
    have hnew : List.Forall₂ (l.register a).Names [l.registered.length] [a] :=
      .cons (Ledger.names_register a) .nil
    rw [Ledger.register]
    generalize l.frames = tickets at hold
    cases hold with
    | nil => exact .cons hnew .nil
    | cons hf hfs => exact .cons (List.rel_append hf hnew) hfs
  once := by
    have hnew : (l.register a).registered.length = l.registered.length + 1 := by
      simp [Ledger.register]
    rw [hnew, List.range_succ]
    calc List.Perm (firings ++ due ++ (l.register a).frames.flatten)
          (firings ++ due ++ l.registered.length :: l.frames.flatten) :=
          (Ledger.flatten_push ..).append_left _
      List.Perm _ (l.registered.length :: (firings ++ due ++ l.frames.flatten)) := List.perm_middle
      List.Perm _ (List.range l.registered.length ++ [l.registered.length]) :=
          (h.once.cons _).trans (List.perm_append_singleton ..).symm
  ascending := by
    intro frame hf
    rcases List.mem_append.mp hf with hf | hf
    · rcases Ledger.mem_push hf with hf | rfl | ⟨old, ho, rfl⟩
      · exact h.ascending frame (List.mem_append_left _ hf)
      · exact List.pairwise_singleton _ _
      · refine List.pairwise_append.mpr
          ⟨h.ascending old (List.mem_append_left _ ho), List.pairwise_singleton _ _, ?_⟩
        intro t ht n hn
        rw [List.mem_singleton.mp hn]
        exact h.lt_of_mem (List.mem_append_right _ (List.mem_flatten_of_mem ho ht))
    · exact h.ascending frame (List.mem_append_right _ hf)
  reversed := h.reversed
  taken := h.taken
  covers := h.covers.mono fun _ _ => .register a

/-- The tickets of a frame that is left are due at once, the last one first. -/
theorem leave {frame : List α} (h : Books l tasks (frame :: frames) firings due)
    (answer : Answer ρ) : ∃ due', Books l.leave
      (frame.reverse.map .fire ++ .report .exit answer :: tasks) frames firings due' := by
  obtain ⟨tickets, others, hf, hfs, hl⟩ := List.forall₂_cons_right_iff.mp h.pending
  have hopen : ∀ t ∈ tickets, t ∉ firings ∧ t ∉ due := by
    intro t ht
    refine h.notMem_of_open ?_
    rw [hl]
    exact List.mem_append_left _ ht
  have hleave : l.leave = { l with
      frames := others, leaving := tickets :: l.leaving, left := l.left ++ [tickets] } := by
    rw [Ledger.leave, hl]
  rw [hleave]
  refine ⟨tickets.reverse ++ due, ?_⟩
  refine
    { fired := h.fired, pending := hfs, once := ?_, ascending := ?_, reversed := ?_, taken := ?_
      covers := ?_ }
  · refine List.Perm.trans (List.perm_iff_count.mpr fun t => ?_) h.once
    simp only [hl, List.flatten_cons, List.count_append, List.count_reverse]
    omega
  · intro frame hm
    refine h.ascending frame ?_
    rw [hl]
    simp only [List.mem_append, List.mem_cons, List.not_mem_nil, or_false] at hm ⊢
    tauto
  · intro old ho
    rw [← List.append_assoc, List.filter_append, List.filter_append, List.filter_reverse]
    rcases List.mem_append.mp ho with ho | ho
    · -- the tickets go between those of an older frame, which has none of them
      have hnone : tickets.filter (· ∈ old) = [] := by
        rw [List.filter_eq_nil_iff]
        intro t ht hm
        have hmem := List.mem_append.mp (h.mem_of_left ho (of_decide_eq_true hm))
        exact hmem.elim (hopen t ht).1 (hopen t ht).2
      rw [hnone, List.reverse_nil, List.append_nil, ← List.filter_append]
      exact h.reversed old ho
    · obtain rfl := List.mem_singleton.mp ho
      have hnone : ∀ ts : List ℕ, (∀ t ∈ old, t ∉ ts) → ts.filter (· ∈ old) = [] := by
        intro ts hts
        rw [List.filter_eq_nil_iff]
        exact fun t ht hm => hts t (of_decide_eq_true hm) ht
      have hself : old.filter (· ∈ old) = old := by simp
      rw [hnone _ fun t ht => (hopen t ht).1, hnone _ fun t ht => (hopen t ht).2, hself,
        List.nil_append, List.append_nil]
  · rintro frame hm t ht
    simp only [List.mem_append, List.mem_reverse]
    rcases List.mem_cons.mp hm with rfl | hm
    · exact .inr (.inl ht)
    · have hold := List.mem_append.mp (h.taken frame hm t ht)
      exact hold.imp_right .inr
  · exact (Covers.report answer (fun t ht => (hopen t ht).2) h.covers).fires (List.rel_reverse hf)

theorem leave_unopened (h : Books l tasks ([] : Frames α) firings due) (answer : Answer ρ) :
    Books l.leave (.report .exit answer :: tasks) [] firings due := by
  have hl : l.frames = [] := List.forall₂_nil_right_iff.mp h.pending
  have hleave : l.leave = { l with leaving := [] :: l.leaving } := by rw [Ledger.leave, hl]
  rw [hleave]
  exact { h with
    taken := by
      rintro frame (_ | ⟨_, hf⟩) t ht
      · exact absurd ht List.not_mem_nil
      · exact h.taken frame hf t ht
    covers := .report answer (fun _ ht => absurd ht List.not_mem_nil) h.covers }

/-- The first ticket that is due fires. -/
theorem fire {a : α} (h : Books l (.fire a :: tasks) frames firings due) (calls : List (Call α β)) :
    ∃ t due', Books (l.fire a) (calls.map .serve ++ tasks) frames (firings ++ [t]) due' := by
  obtain ⟨t, rest, rfl, ht, hc⟩ := h.covers.fire_inv
  have hsame : firings ++ [t] ++ rest = firings ++ t :: rest := by
    rw [List.append_assoc, List.singleton_append]
  refine ⟨t, rest, ?_⟩
  exact {
    fired := List.rel_append h.fired (.cons ht .nil)
    pending := h.pending
    once := by rw [hsame]; exact h.once
    ascending := h.ascending
    reversed := by rw [hsame]; exact h.reversed
    taken := by rw [hsame]; exact h.taken
    covers := hc.serves calls }

theorem report {c : Call α β} {answer : Answer ρ}
    (h : Books l (.report c answer :: tasks) frames firings due) :
    c = .exit ∧ (∃ frame others, l.leaving = frame :: others ∧ ∀ t ∈ frame, t ∈ firings) ∧
      Books l.answer tasks frames firings due := by
  obtain ⟨frame, others, rfl, hl, hf, hc⟩ := h.covers.report_inv
  refine ⟨rfl, ⟨frame, others, hl, ?_⟩, ?_⟩
  · intro t ht
    have hm := h.taken frame (hl ▸ List.mem_cons_self) t ht
    exact (List.mem_append.mp hm).resolve_right (hf t ht)
  · have hanswer : l.answer = { l with leaving := others } := by
      rw [Ledger.answer, hl, List.tail_cons]
    rw [hanswer]
    exact { h with
      taken := fun frame hm => h.taken frame (hl ▸ List.mem_cons_of_mem _ hm)
      covers := hc }

end Books

/-! ### Answers to exits -/

namespace Returned

variable {past : List (Event α β ρ)} {firings : List ℕ}

theorem nil (firings : List ℕ) : Returned ([] : List (Event α β ρ)) firings := by
  intro before answer h
  exact absurd (List.prefix_nil.mp h) (by simp)

theorem concat (h : Returned past firings) (more : List ℕ) {e : Event α β ρ}
    (he : ∀ answer, e ≠ .answered .exit answer) : Returned (past ++ [e]) (firings ++ more) := by
  intro before answer hp
  rcases List.prefix_concat_iff.mp hp with heq | hp
  · exact absurd (List.append_inj' heq rfl).2 (by simpa using (he answer).symm)
  · obtain ⟨frame, others, hl, hf⟩ := h before answer hp
    refine ⟨frame, others, hl, fun t ht => ?_⟩
    rw [List.take_append]
    exact List.mem_append_left _ (hf t ht)

theorem exit (h : Returned past firings) (hlen : firings.length = (Ledger.read past).fired.length)
    (hf : ∃ frame others, (Ledger.read past).leaving = frame :: others ∧ ∀ t ∈ frame, t ∈ firings)
    (answer : Answer ρ) : Returned (past ++ [.answered .exit answer]) firings := by
  intro before answer' hp
  rcases List.prefix_concat_iff.mp hp with heq | hp
  · obtain rfl := (List.append_inj' heq rfl).1
    rw [← hlen, List.take_length]
    exact hf
  · exact h before answer' hp

end Returned

/-! ### The books of a run -/

/-- The books are kept at a point of a run: behind it `tasks` are to be done. -/
def Kept (past : List (Event α β ρ)) (tasks : List (Task α β ρ)) (frames : Frames α) : Prop :=
  ∃ firings due, Books (Ledger.read past) tasks frames firings due ∧ Returned past firings

namespace Kept

variable {past : List (Event α β ρ)} {tasks : List (Task α β ρ)} {frames : Frames α}

theorem start (calls : List (Call α β)) : Kept ([] : List (Event α β ρ)) (calls.map .serve) [] := by
  refine ⟨[], [], ⟨.nil, .nil, .nil, ?_, ?_, ?_, ?_⟩, .nil []⟩
  · simp
  · simp
  · simp
  · simpa using Covers.nil.serves calls

theorem record {tasks' : List (Task α β ρ)} {frames' : Frames α} {e : Event α β ρ}
    (h : Kept past tasks frames) (he : ∀ answer, e ≠ .answered .exit answer)
    (hb : ∀ firings due, Books (Ledger.read past) tasks frames firings due →
      ∃ due', Books ((Ledger.read past).record e) tasks' frames' firings due') :
    Kept (past ++ [e]) tasks' frames' := by
  obtain ⟨firings, due, hbooks, hr⟩ := h
  obtain ⟨due', hbooks'⟩ := hb firings due hbooks
  refine ⟨firings, due', ?_, ?_⟩
  · rwa [Ledger.read_concat]
  · simpa using hr.concat [] he

theorem skip {e : Event α β ρ} (h : Kept past tasks frames)
    (he : ∀ answer, e ≠ .answered .exit answer)
    (hsame : ∀ l : Ledger α, l.record e = l) : Kept (past ++ [e]) tasks frames :=
  h.record he fun _ due hb => ⟨due, by rwa [hsame]⟩

theorem serve {c : Call α β} (h : Kept past (.serve c :: tasks) frames) :
    Kept past tasks frames := by
  obtain ⟨firings, due, hb, hr⟩ := h
  exact ⟨firings, due, { hb with covers := hb.covers.serve_inv }, hr⟩

/-- What an operation logs is none of the ledger's business. -/
theorem quiet {log : List LogRecord} (h : Kept past tasks frames)
    (hq : ∀ record ∈ log, record.ofFrames = false) :
    Kept (past ++ log.map .logged) tasks frames := by
  induction log generalizing past with
  | nil => simpa using h
  | cons r log ih =>
    have hone : Kept (past ++ [.logged r]) tasks frames :=
      h.skip (by simp) (Ledger.record_logged (hq r List.mem_cons_self))
    simpa using ih hone fun r' hr' => hq r' (List.mem_cons_of_mem _ hr')

theorem leave {frame : List α} (h : Kept past tasks (frame :: frames)) (n : ℕ) (answer : Answer ρ) :
    Kept (past ++ [.logged (.scopeLeft n)])
      (frame.reverse.map .fire ++ .report .exit answer :: tasks) frames :=
  h.record (by simp) fun _ _ hb => hb.leave answer

theorem leave_unopened (h : Kept past tasks ([] : Frames α)) (answer : Answer ρ) :
    Kept (past ++ [.logged .scopeLeftUnopened]) (.report .exit answer :: tasks) [] :=
  h.record (by simp) fun _ due hb => ⟨due, hb.leave_unopened answer⟩

theorem report {c : Call α β} {answer : Answer ρ}
    (h : Kept past (.report c answer :: tasks) frames) : Kept (past ++ [.answered c answer]) tasks frames := by
  obtain ⟨firings, due, hb, hr⟩ := h
  obtain ⟨rfl, hf, hb'⟩ := hb.report
  refine ⟨firings, due, ?_, hr.exit hb.fired.length_eq hf answer⟩
  rw [Ledger.read_concat]
  exact hb'

theorem fire {a : α} (h : Kept past (.fire a :: tasks) frames) (calls : List (Call α β)) :
    Kept (past ++ [.fired a]) (calls.map .serve ++ tasks) frames := by
  obtain ⟨firings, due, hb, hr⟩ := h
  obtain ⟨t, due', hb'⟩ := hb.fire calls
  refine ⟨firings ++ [t], due', ?_, hr.concat [t] (by simp)⟩
  rw [Ledger.read_concat]
  exact hb'

/-- A step keeps the books. -/
theorem step {host : Host α β σ ρ} {task : Task α β ρ} {s : State α σ}
    (h : Kept past (task :: tasks) s.frames) :
    Kept (past ++ (host.step s task).events) ((host.step s task).tasks ++ tasks)
      (host.step s task).state.frames := by
  obtain ⟨frames, store⟩ := s
  cases task with
  | report c answer => exact h.report
  | fire a => exact h.fire (host.body a)
  | serve c =>
    have hrest := h.serve
    cases c with
    | enter =>
      rw [Host.step_enter, List.append_cons]
      have hin := hrest.record (e := .logged (.scopeEntered (frames.length + 1))) (by simp)
        fun _ due hb => ⟨due, hb.enter⟩
      exact hin.skip (by simp) fun _ => rfl
    | depth => exact hrest.skip (by simp) fun _ => rfl
    | other operation =>
      rw [Host.step_other, ← List.append_assoc]
      exact (hrest.quiet (host.quiet operation store)).skip (by simp) fun _ => rfl
    | defer a =>
      cases frames with
      | nil =>
        rw [Host.step_defer_nil, List.append_cons]
        have himplied := hrest.skip (e := .logged .scopeImplied) (by simp) fun _ => rfl
        exact himplied.record (by simp) fun _ due hb => ⟨due, hb.register a⟩
      | cons frame frames => exact hrest.record (by simp) fun _ due hb => ⟨due, hb.register a⟩
    | exit =>
      cases frames with
      | nil =>
        rw [Host.step_exit_nil, List.append_cons]
        exact (hrest.leave_unopened .nothing).report
      | cons frame frames =>
        by_cases hempty : frame = []
        · subst hempty
          rw [Host.step_exit_empty, List.append_cons]
          exact (hrest.leave 0 .nothing).report
        · rw [Host.step_exit_cons _ _ _ _ hempty]
          simpa using hrest.leave frame.length .nothing

/-- An agenda that comes to an end keeps the books. -/
theorem drains {host : Host α β σ ρ} {s s' : State α σ} {events : List (Event α β ρ)}
    (hd : host.Drains tasks s events s') (h : Kept past tasks s.frames) :
    Kept (past ++ events) [] s'.frames := by
  induction hd generalizing past with
  | nil s => simpa using h
  | cons _ ih =>
    rw [← List.append_assoc]
    exact ih h.step

theorem accounts (h : Kept past [] frames) : ∃ firings, Accounts past frames firings := by
  obtain ⟨firings, due, hb, hr⟩ := h
  obtain ⟨hdue, hleaving⟩ : due = [] ∧ (Ledger.read past).leaving = [] := by
    have hc := hb.covers
    generalize (Ledger.read past).leaving = leaving at hc
    cases hc
    exact ⟨rfl, rfl⟩
  subst hdue
  exact ⟨firings, {
    settled := hleaving
    fired := hb.fired
    pending := hb.pending
    once := by simpa using hb.once
    ascending := hb.ascending
    reversed := by simpa using hb.reversed
    returned := hr }⟩

end Kept

/-! ### The account of a run -/

theorem Ledger.map_lookup {l : Ledger α} {tickets : List ℕ} {actions : List α}
    (hn : List.Forall₂ l.Names tickets actions) :
    tickets.map (fun t => l.registered[t]?) = actions.map some := by
  induction hn with
  | nil => rfl
  | cons ht _ ih => rw [List.map_cons, List.map_cons, ht, ih]

/-- If the tickets of actions are all there are, in some order, the actions are those
registered. -/
theorem Ledger.perm_registered {l : Ledger α} {tickets : List ℕ} {actions : List α}
    (hn : List.Forall₂ l.Names tickets actions)
    (hp : tickets.Perm (List.range l.registered.length)) : actions.Perm l.registered := by
  have hall : (List.range l.registered.length).map (fun t => l.registered[t]?) =
      l.registered.map some := by
    apply List.ext_getElem
    · simp
    · intro i h1 h2
      simp at h2
      simp [h2]
  rw [← List.map_perm_map_iff (Option.some_injective α), ← Ledger.map_lookup hn, ← hall]
  exact hp.map _

/-- The actions that were registered fired or are pending, each as often as registered. -/
theorem Accounts.balance {events : List (Event α β ρ)} {frames : Frames α} {firings : List ℕ}
    (h : Accounts events frames firings) :
    ((Ledger.read events).registered : Multiset α) =
      (Ledger.read events).fired + frames.flatten := by
  have hn := List.rel_append h.fired (List.rel_flatten h.pending)
  rw [Multiset.coe_add]
  exact Multiset.coe_eq_coe.mpr (Ledger.perm_registered hn h.once).symm

/-- Whenever calls were served, from no open frame on, the run is accounted for. -/
theorem accounts_of_run {host : Host α β σ ρ} {calls : List (Call α β)} {store : σ}
    {served : List (Served α β ρ)} {s : State α σ}
    (h : host.run ⟨[], store⟩ calls = some (served, s)) :
    ∃ firings, Accounts (history served) s.frames firings :=
  ((Kept.start calls).drains (host.drains_of_run h)).accounts

/-- **Every deferred action fires once, in its turn.** A program that defers finite scripts, from
no open frame on, is served, and the actions that were registered, by the program or by scripts,
are those that fired and those pending in open frames, each ticket once. The tickets of a frame
fire in reverse order, and have fired when its exit is answered, whatever scripts did to the
frames meanwhile. -/
theorem fires_once_in_turn (host : Host α β σ ρ) (store : σ) (calls : List (Call α β))
    (finite : ∀ a, .defer a ∈ calls → host.FiniteScript a) :
    ∃ served s firings, host.run ⟨[], store⟩ calls = some (served, s) ∧
      ((Ledger.read (history served)).registered : Multiset α) =
        (Ledger.read (history served)).fired + s.frames.flatten ∧
      Accounts (history served) s.frames firings := by
  obtain ⟨served, s, hr⟩ := host.run_of_finite (s := ⟨[], store⟩) finite (by simp)
  obtain ⟨firings, ha⟩ := accounts_of_run hr
  exact ⟨served, s, firings, hr, ha.balance, ha⟩

/-- A script that closes two frames, the second one not open, fires in the middle of its own
frame, so the frame around it fires between the two others. -/
theorem fires_once_in_turn_nested :
    let host := Session.host [("close", [.exit, .exit])]
    let calls : List Session.Call := [.enter, .defer (.freeing "a"), .enter, .defer (.freeing "b"),
      .defer (.script "close"), .defer (.freeing "c"), .exit, .defer (.freeing "d")]
    (∀ a, .defer a ∈ calls → host.FiniteScript a) ∧
      ∃ served s firings, host.run ⟨[], {}⟩ calls = some (served, s) ∧
        (Ledger.read (history served)).fired =
          [.freeing "c", .script "close", .freeing "a", .freeing "b"] ∧
        s.frames = [[.freeing "d"]] ∧
        ((Ledger.read (history served)).registered : Multiset Session.Action) =
          (Ledger.read (history served)).fired + s.frames.flatten ∧
        Accounts (history served) s.frames firings := by
  intro host calls
  have hbody : ∀ a b, .defer b ∉ host.body a := by
    intro a b
    cases a with
    | freeing h => exact List.not_mem_nil
    | script name =>
      by_cases hn : "close" = name
      · simp [host, Session.host, Session.body, hn]
      · simp [host, Session.host, Session.body, hn]
  have finite : ∀ a, .defer a ∈ calls → host.FiniteScript a :=
    fun a _ => Acc.intro a fun b hb => absurd hb (hbody a b)
  have hrun : (host.run ⟨[], {}⟩ calls).map
      (fun r => ((Ledger.read (history r.1)).fired, r.2.frames)) =
        some ([.freeing "c", .script "close", .freeing "a", .freeing "b"], [[.freeing "d"]]) := by
    simp [host, calls, Host.run, Host.call, Host.start, Host.drain_cons, Host.step, Session.host,
      Session.body, Frames.enter, Frames.defer, Frames.exit, history, Ledger.read, Ledger.record,
      Ledger.enter, Ledger.register, Ledger.leave, Ledger.fire, Ledger.answer, Ledger.push]
  obtain ⟨served, s, firings, hr, hb, ha⟩ := fires_once_in_turn host {} calls finite
  rw [hr, Option.map_some, Option.some_inj, Prod.mk.injEq] at hrun
  exact ⟨finite, served, s, firings, hr, hrun.1, hrun.2, hb, ha⟩

end SupportLayer.Scope
