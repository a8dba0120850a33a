/-
# A balanced script adds to the frame it finds

A script is balanced if it closes what it opens and nothing else, and if the scripts of its
actions are balanced too. While it is worked off, the frames are those that it opened itself,
above the frames that it found, and of these only the innermost one has changed: some actions
stand behind those that were there (`Standing`). Each step keeps this. An exit of the agenda
closes a frame that was opened on the way, and what that frame fires is balanced again; an action
that is deferred with no such frame open goes to the innermost frame found, or opens one if none
was found.

Key definitions: `Scope.Frames.extend`, `Scope.registrations`, `Scope.firings`,
`Scope.Host.Balanced`, `Scope.Host.Closes`, `Scope.Host.Standing`.
Key theorems: `Scope.Host.Standing.step`, `Scope.Host.Standing.drains`,
`Scope.balanced_extends`.
-/
import Mathlib
import SupportLayer.Proofs.Scope.Agenda
import SupportLayer.Session

namespace SupportLayer.Scope

variable {α β σ ρ : Type}

namespace Frames

/-- The frames with actions behind those of the innermost one. If none is open, the actions
stand in one of their own, which is there iff there are any. -/
def extend (frames : Frames α) (added : List α) : Frames α :=
  match frames, added with
  | [], [] => []
  | [], a :: added => [a :: added]
  | frame :: frames, added => (frame ++ added) :: frames

@[simp] theorem extend_nil (frames : Frames α) : frames.extend [] = frames := by
  cases frames <;> simp [extend]

theorem defer_extend (frames : Frames α) (added : List α) (a : α) :
    ((frames.extend added).defer a).1 = frames.extend (added ++ [a]) := by
  cases frames with
  | nil => cases added <;> simp [extend, defer]
  | cons frame frames => simp [extend, defer]

end Frames

/-! ### What a history says about actions -/

/-- The action that an event registers. -/
def Event.registered? : Event α β ρ → Option α
  | answered (.defer a) _ => some a
  | _ => none

/-- The action that an event fires. -/
def Event.fired? : Event α β ρ → Option α
  | fired a => some a
  | _ => none

/-- The actions that were registered, in the order of their registration. -/
def registrations (events : List (Event α β ρ)) : List α := events.filterMap Event.registered?

/-- The actions that fired, in the order of their firing. -/
def firings (events : List (Event α β ρ)) : List α := events.filterMap Event.fired?

/-- The action that a task fires. -/
def Task.fired? : Task α β ρ → Option α
  | fire a => some a
  | _ => none

/-- The actions that an agenda fires, in the order of their firing. -/
def due (tasks : List (Task α β ρ)) : List α := tasks.filterMap Task.fired?

theorem registrations_append (past events : List (Event α β ρ)) :
    registrations (past ++ events) = registrations past ++ registrations events :=
  List.filterMap_append

theorem firings_append (past events : List (Event α β ρ)) :
    firings (past ++ events) = firings past ++ firings events :=
  List.filterMap_append

theorem due_append (first tasks : List (Task α β ρ)) : due (first ++ tasks) = due first ++ due tasks :=
  List.filterMap_append

@[simp] theorem registrations_logged (log : List LogRecord) :
    registrations (log.map .logged : List (Event α β ρ)) = [] := by
  simp [registrations, Event.registered?]

@[simp] theorem firings_logged (log : List LogRecord) :
    firings (log.map .logged : List (Event α β ρ)) = [] := by
  simp [firings, Event.fired?]

@[simp] theorem due_serve (calls : List (Call α β)) :
    due (calls.map .serve : List (Task α β ρ)) = [] := by
  simp [due, Task.fired?]

@[simp] theorem due_fire (actions : List α) :
    due (actions.map .fire : List (Task α β ρ)) = actions := by
  induction actions with
  | nil => rfl
  | cons a actions ih => exact congrArg (a :: ·) ih

namespace Host

variable (host : Host α β σ ρ)

/-! ### Balanced scripts -/

/-- Balanced calls: each exit closes a frame that was opened by them, each frame that they open
is closed, and the scripts of the actions that they defer are balanced. -/
inductive Balanced : List (Call α β) → Prop where
  | nil : Balanced []
  | depth {calls} : Balanced calls → Balanced (.depth :: calls)
  | other {calls} (operation) : Balanced calls → Balanced (.other operation :: calls)
  | defer {a calls} : Balanced (host.body a) → Balanced calls → Balanced (.defer a :: calls)
  | nested {inner calls} : Balanced inner → Balanced calls →
      Balanced (.enter :: (inner ++ .exit :: calls))

/-- An agenda closes `opened` frames besides those that it opens, one after the other, and the
scripts of the actions that it fires or defers are balanced. -/
inductive Closes : ℕ → List (Task α β ρ) → Prop where
  | nil : Closes 0 []
  | enter {opened tasks} : Closes (opened + 1) tasks → Closes opened (.serve .enter :: tasks)
  | exit {opened tasks} : Closes opened tasks → Closes (opened + 1) (.serve .exit :: tasks)
  | depth {opened tasks} : Closes opened tasks → Closes opened (.serve .depth :: tasks)
  | other {opened tasks} (operation) : Closes opened tasks →
      Closes opened (.serve (.other operation) :: tasks)
  | defer {opened a tasks} : host.Balanced (host.body a) → Closes opened tasks →
      Closes opened (.serve (.defer a) :: tasks)
  | fire {opened a tasks} : host.Balanced (host.body a) → Closes opened tasks →
      Closes opened (.fire a :: tasks)
  | report {opened tasks} (answer) : Closes opened tasks →
      Closes opened (.report .exit answer :: tasks)

variable {host}

theorem Balanced.finite {calls : List (Call α β)} (h : host.Balanced calls) :
    ∀ a, .defer a ∈ calls → host.FiniteScript a := by
  induction h with
  | nil => simp
  | depth _ ih => simpa using ih
  | other operation _ ih => simpa using ih
  | @defer b calls _ _ ihBody ihCalls =>
    intro a ha
    rcases List.mem_cons.mp ha with hab | ha
    · obtain rfl := Call.defer.inj hab
      exact Acc.intro a ihBody
    · exact ihCalls a ha
  | nested _ _ ihInner ihCalls =>
    intro a ha
    simp only [List.mem_cons, List.mem_append, reduceCtorEq, false_or] at ha
    exact ha.elim (ihInner a) (ihCalls a)

theorem Balanced.finiteScript {a : α} (h : host.Balanced (host.body a)) : host.FiniteScript a :=
  Acc.intro a h.finite

theorem Balanced.closes {calls : List (Call α β)} (h : host.Balanced calls) {opened : ℕ}
    {tasks : List (Task α β ρ)} (ht : host.Closes opened tasks) :
    host.Closes opened (calls.map .serve ++ tasks) := by
  induction h generalizing opened tasks with
  | nil => exact ht
  | depth _ ih => exact .depth (ih ht)
  | other operation _ ih => exact .other operation (ih ht)
  | defer hb _ _ ih => exact .defer hb (ih ht)
  | nested _ _ ihInner ihCalls =>
    rw [List.map_cons, List.map_append, List.map_cons, List.cons_append, List.append_assoc]
    exact .enter (ihInner (.exit (ihCalls ht)))

theorem Closes.fires {opened : ℕ} {tasks : List (Task α β ρ)} (ht : host.Closes opened tasks)
    {actions : List α} (h : ∀ a ∈ actions, host.Balanced (host.body a)) :
    host.Closes opened (actions.map .fire ++ tasks) := by
  induction actions with
  | nil => exact ht
  | cons a actions ih =>
    rw [List.forall_mem_cons] at h
    exact .fire h.1 (ih h.2)

theorem Closes.balanced {opened : ℕ} {a : α} {tasks : List (Task α β ρ)}
    (h : host.Closes opened (.fire a :: tasks)) : host.Balanced (host.body a) := by
  cases h with
  | fire ha _ => exact ha

theorem Closes.eq_zero {opened : ℕ} (h : host.Closes opened []) : opened = 0 := by
  cases h
  rfl

/-! ### The frames on the way -/

/-- Where an agenda stands: the frames `opened` on the way lie above the frames that were found,
which have gained the actions `added`. The actions `first` were to fire from the start; those
that fired, are due or are pending are these and those that were registered. -/
structure Standing (host : Host α β σ ρ) (first : List α) (past : List (Event α β ρ))
    (tasks : List (Task α β ρ)) (opened : Frames α) (added : List α) : Prop where
  closes : host.Closes opened.length tasks
  balanced : ∀ frame ∈ opened, ∀ a ∈ frame, host.Balanced (host.body a)
  ordered : added.Sublist (registrations past)
  accounted : (first + registrations past : Multiset α) =
    firings past + (due tasks + (opened.flatten + added))

namespace Standing

variable {first : List α} {past : List (Event α β ρ)} {tasks : List (Task α β ρ)}
  {opened found : Frames α} {added : List α}

/-- Nothing was registered and nothing fired. -/
theorem unchanged (h : host.Standing first past tasks opened added)
    {events : List (Event α β ρ)} {tasks' : List (Task α β ρ)} (hr : registrations events = [])
    (hf : firings events = []) (hd : due tasks' = due tasks)
    (hc : host.Closes opened.length tasks') :
    host.Standing first (past ++ events) tasks' opened added where
  closes := hc
  balanced := h.balanced
  ordered := by rw [registrations_append, hr, List.append_nil]; exact h.ordered
  accounted := by
    rw [registrations_append, firings_append, hr, hf, hd, List.append_nil, List.append_nil]
    exact h.accounted

/-- The frame of an exit is closed: its actions are due. -/
theorem leave {frame : List α} {events : List (Event α β ρ)} {tasks' : List (Task α β ρ)}
    (h : host.Standing first past tasks (frame :: opened) added) (hr : registrations events = [])
    (hf : firings events = []) (hd : due tasks' = due tasks)
    (hc : host.Closes opened.length tasks') :
    host.Standing first (past ++ events) (frame.reverse.map .fire ++ tasks') opened added where
  closes := hc.fires fun a ha => h.balanced frame List.mem_cons_self a (List.mem_reverse.mp ha)
  balanced := fun f hf => h.balanced f (List.mem_cons_of_mem _ hf)
  ordered := by rw [registrations_append, hr, List.append_nil]; exact h.ordered
  accounted := by
    rw [registrations_append, firings_append, hr, hf, List.append_nil, List.append_nil,
      h.accounted, due_append, due_fire, hd, ← Multiset.coe_add, Multiset.coe_reverse,
      List.flatten_cons, ← Multiset.coe_add]
    abel

/-- A frame is opened. -/
theorem enter {events : List (Event α β ρ)} (h : host.Standing first past (.serve .enter :: tasks) opened added)
    (hc : host.Closes (opened.length + 1) tasks) (hr : registrations events = [])
    (hf : firings events = []) :
    host.Standing first (past ++ events) tasks ([] :: opened) added :=
  have hsame := h.unchanged hr hf rfl h.closes
  { closes := hc
    balanced := List.forall_mem_cons.mpr ⟨by simp, h.balanced⟩
    ordered := hsame.ordered
    accounted := hsame.accounted }

/-- An action fires: its script is to be served. -/
theorem fire {a : α} (h : host.Standing first past (.fire a :: tasks) opened added)
    (ha : host.Balanced (host.body a)) (hc : host.Closes opened.length tasks) :
    host.Standing first (past ++ [.fired a]) ((host.body a).map .serve ++ tasks) opened added where
  closes := ha.closes hc
  balanced := h.balanced
  ordered := by
    rw [registrations_append]
    exact h.ordered.trans (List.sublist_append_left _ _)
  accounted := by
    have hr : registrations [(.fired a : Event α β ρ)] = [] := rfl
    have hf : firings [(.fired a : Event α β ρ)] = [a] := rfl
    have hdue : due (.fire a :: tasks) = [a] ++ due tasks := rfl
    rw [registrations_append, firings_append, hr, hf, List.append_nil, h.accounted, due_append,
      due_serve, hdue, List.nil_append, ← Multiset.coe_add, ← Multiset.coe_add]
    abel

/-- An action is registered in a frame that was opened on the way. -/
theorem register {a : α} {frame : List α} {events : List (Event α β ρ)}
    (h : host.Standing first past tasks (frame :: opened) added)
    (ha : host.Balanced (host.body a)) (hr : registrations events = [a])
    (hf : firings events = []) :
    host.Standing first (past ++ events) tasks ((frame ++ [a]) :: opened) added where
  closes := h.closes
  balanced := by
    intro f hm b hb
    rcases List.mem_cons.mp hm with rfl | hm
    · rcases List.mem_append.mp hb with hb | hb
      · exact h.balanced frame List.mem_cons_self b hb
      · rwa [List.mem_singleton.mp hb]
    · exact h.balanced f (List.mem_cons_of_mem _ hm) b hb
  ordered := by
    rw [registrations_append]
    exact h.ordered.trans (List.sublist_append_left _ _)
  accounted := by
    have hold := h.accounted
    rw [List.flatten_cons, ← Multiset.coe_add] at hold
    rw [registrations_append, firings_append, hr, hf, List.append_nil, List.flatten_cons,
      ← Multiset.coe_add, ← add_assoc, hold, ← Multiset.coe_add, ← Multiset.coe_add]
    abel

/-- An action is registered with no frame open but those that were found. -/
theorem add {a : α} {events : List (Event α β ρ)} (h : host.Standing first past tasks [] added)
    (hr : registrations events = [a]) (hf : firings events = []) :
    host.Standing first (past ++ events) tasks [] (added ++ [a]) where
  closes := h.closes
  balanced := h.balanced
  ordered := by
    rw [registrations_append, hr]
    exact h.ordered.append (List.Sublist.refl [a])
  accounted := by
    rw [registrations_append, firings_append, hr, hf, List.append_nil, ← Multiset.coe_add,
      ← add_assoc, h.accounted, ← Multiset.coe_add]
    abel

/-- A step keeps the frames that were found but for what it adds behind. -/
theorem step {task : Task α β ρ} {s : State α σ}
    (h : host.Standing first past (task :: tasks) opened added)
    (hs : s.frames = opened ++ found.extend added) : ∃ opened' added',
      host.Standing first (past ++ (host.step s task).events) ((host.step s task).tasks ++ tasks)
        opened' added' ∧
      (host.step s task).state.frames = opened' ++ found.extend added' := by
  obtain ⟨frames, store⟩ := s
  obtain rfl : frames = opened ++ found.extend added := hs
  have hc := h.closes
  generalize hn : opened.length = n at hc
  cases hc with
  | report answer hc => exact ⟨opened, added, h.unchanged rfl rfl rfl (hn ▸ hc), rfl⟩
  | fire ha hc => exact ⟨opened, added, h.fire ha (hn ▸ hc), rfl⟩
  | depth hc => exact ⟨opened, added, h.unchanged rfl rfl rfl (hn ▸ hc), rfl⟩
  | other operation hc =>
    refine ⟨opened, added, h.unchanged ?_ ?_ rfl (hn ▸ hc), rfl⟩
    · rw [step_other, registrations_append, registrations_logged]
      rfl
    · rw [step_other, firings_append, firings_logged]
      rfl
  | enter hc => exact ⟨[] :: opened, added, h.enter (hn ▸ hc) rfl rfl, rfl⟩
  | @defer _ a _ ha hc =>
    have hrest : host.Standing first past tasks opened added :=
      { h with closes := hn ▸ hc }
    cases opened with
    | cons frame opened => exact ⟨_, added, hrest.register ha rfl rfl, rfl⟩
    | nil =>
      refine ⟨[], added ++ [a], ?_, found.defer_extend added a⟩
      rw [List.nil_append]
      cases found.extend added with
      | nil => exact hrest.add rfl rfl
      | cons frame frames => exact hrest.add rfl rfl
  | @exit n _ hc =>
    obtain ⟨frame, opened, rfl⟩ := List.exists_cons_of_length_eq_add_one hn
    have hrest : host.Closes opened.length tasks := (Nat.succ.inj hn) ▸ hc
    by_cases hempty : frame = []
    · subst hempty
      exact ⟨opened, added, h.leave rfl rfl rfl hrest, rfl⟩
    · rw [List.cons_append, step_exit_cons _ _ _ _ hempty, List.append_assoc]
      exact ⟨opened, added, h.leave rfl rfl rfl (.report .nothing hrest), rfl⟩

/-- Nothing of the agenda's own stands above the frames that were found once it is worked off. -/
theorem drains {s s' : State α σ} {events : List (Event α β ρ)}
    (hd : host.Drains tasks s events s') (h : host.Standing first past tasks opened added)
    (hs : s.frames = opened ++ found.extend added) :
    ∃ added', host.Standing first (past ++ events) [] [] added' ∧
      s'.frames = found.extend added' := by
  induction hd generalizing past opened added with
  | nil s =>
    obtain rfl : opened = [] := List.length_eq_zero_iff.mp h.closes.eq_zero
    exact ⟨added, by rwa [List.append_nil], hs⟩
  | cons _ ih =>
    obtain ⟨opened', added', hstep, hs'⟩ := h.step hs
    rw [← List.append_assoc]
    exact ih hstep hs'

end Standing

/-- An agenda that closes what it opens comes to an end, and adds to the frames that it finds. -/
theorem drains_of_closes {tasks : List (Task α β ρ)} (hc : host.Closes 0 tasks)
    (found : Frames α) (store : σ) : ∃ events s' added,
      host.Drains tasks ⟨found, store⟩ events s' ∧ s'.frames = found.extend added ∧
      added.Sublist (registrations events) ∧
      (due tasks + registrations events : Multiset α) = firings events + added := by
  have hstart : host.Standing (due tasks) [] tasks [] [] :=
    { closes := hc
      balanced := by simp
      ordered := List.nil_sublist _
      accounted := by simp [registrations, firings] }
  have hframes : found = [] ++ found.extend [] := by simp
  let kept : List (Task α β ρ) → State α σ → Prop := fun tasks' s => ∃ past opened added,
    host.Standing (due tasks) past tasks' opened added ∧ s.frames = opened ++ found.extend added
  have hstep : ∀ {task tasks s}, kept (task :: tasks) s →
      kept ((host.step s task).tasks ++ tasks) (host.step s task).state :=
    fun ⟨_, _, _, h, hs⟩ => ⟨_, h.step hs⟩
  have hfinite : ∀ {a tasks s}, kept (.fire a :: tasks) s → host.FiniteScript a :=
    fun ⟨_, _, _, h, _⟩ => h.closes.balanced.finiteScript
  have hkept : kept tasks ⟨found, store⟩ := ⟨[], [], [], hstart, hframes⟩
  obtain ⟨events, s', hd⟩ := host.drains_of_invariant kept hstep hfinite hkept
  obtain ⟨added, hend, hs'⟩ := hstart.drains hd hframes
  refine ⟨events, s', added, hd, hs', hend.ordered, ?_⟩
  simpa [due] using hend.accounted

end Host

/-- **A balanced script adds to the innermost frame and keeps the others.** It is served from any
open frames, and what it and its actions registered and did not fire stands behind the old
contents of the innermost one, in the order of registration. An exit that closes a frame of
balanced actions does the same to the frame around it; if there is none, one is open in the end
iff something is left pending. -/
theorem balanced_extends (host : Host α β σ ρ) (store : σ) :
    (∀ (calls : List (Call α β)) (top : List α) (below : Frames α), host.Balanced calls →
      ∃ served s added, host.run ⟨top :: below, store⟩ calls = some (served, s) ∧
        s.frames = (top ++ added) :: below ∧
        added.Sublist (registrations (history served)) ∧
        (registrations (history served) : Multiset α) = firings (history served) + added) ∧
    ∀ (frame : List α) (around : Frames α), (∀ a ∈ frame, host.Balanced (host.body a)) →
      ∃ served s added, host.call ⟨frame :: around, store⟩ .exit = some (served, s) ∧
        (∀ top below, around = top :: below → s.frames = (top ++ added) :: below) ∧
        (around = [] → s.frames = if added.isEmpty then [] else [added]) ∧
        added.Sublist (registrations served.events) ∧
        (frame + registrations served.events : Multiset α) = firings served.events + added := by
  constructor
  · intro calls top below hbalanced
    have hc : host.Closes 0 (calls.map .serve) := by simpa using hbalanced.closes .nil
    obtain ⟨events, s, added, hd, hs, ho, ha⟩ := host.drains_of_closes hc (top :: below) store
    obtain ⟨served, hr, rfl⟩ := host.run_of_drains hd
    exact ⟨served, s, added, hr, hs, ho, by simpa using ha⟩
  · intro frame around hbalanced
    have hc : host.Closes 0 (frame.reverse.map .fire) := by
      have := Host.Closes.nil.fires fun a ha => hbalanced a (List.mem_reverse.mp ha)
      simpa using this
    obtain ⟨events, s, added, hd, hs, ho, ha⟩ := host.drains_of_closes hc around store
    have hstart : host.start ⟨frame :: around, store⟩ .exit = ⟨.nothing,
        [.scopeLeft frame.reverse.length], frame.reverse.map .fire, ⟨around, store⟩⟩ := rfl
    have hcall : host.call ⟨frame :: around, store⟩ .exit =
        some (⟨.exit, .nothing, .logged (.scopeLeft frame.reverse.length) :: events⟩, s) := by
      rw [Host.call, hstart]
      simp only [hd.drain_eq]
      rfl
    refine ⟨_, s, added, hcall, ?_, ?_, ho, ?_⟩
    · rintro top below rfl
      exact hs
    · rintro rfl
      cases added <;> exact hs
    · rw [due_fire, Multiset.coe_reverse] at ha
      exact ha

/-- A script that defers one action, deferred in a frame of the program and fired at its exit,
adds that action between two others; fired from the last frame, it leaves one frame open. -/
theorem balanced_extends_leaf :
    let host := Session.host [("leaf", [.defer (.freeing "x")])]
    let calls : List Session.Call := [.defer (.freeing "a"), .enter, .defer (.script "leaf"),
      .defer (.freeing "b"), .exit, .defer (.freeing "c")]
    let top : List Session.Action := [.freeing "t"]
    let below : Frames Session.Action := [[.script "u"]]
    host.Balanced calls ∧ (∀ a ∈ [Session.Action.script "leaf"], host.Balanced (host.body a)) ∧
      (∃ served s added, host.run ⟨top :: below, {}⟩ calls = some (served, s) ∧
        added = [.freeing "a", .freeing "x", .freeing "c"] ∧
        s.frames = (top ++ added) :: below ∧
        added.Sublist (registrations (history served)) ∧
        (registrations (history served) : Multiset Session.Action) =
          firings (history served) + added) ∧
      ∃ served s added, host.call ⟨[[.script "leaf"]], {}⟩ .exit = some (served, s) ∧
        added = [.freeing "x"] ∧ s.frames = [added] := by
  intro host calls top below
  have hfreeing : ∀ h, host.Balanced (host.body (.freeing h)) := fun _ => .nil
  have hleaf : host.Balanced (host.body (.script "leaf")) := .defer (hfreeing "x") .nil
  have hinner : host.Balanced [.defer (.script "leaf"), .defer (.freeing "b")] :=
    .defer hleaf (.defer (hfreeing "b") .nil)
  have hrest : host.Balanced [.defer (.freeing "c")] := .defer (hfreeing "c") .nil
  have hcalls : host.Balanced calls := .defer (hfreeing "a") (.nested hinner hrest)
  have hframe : ∀ a ∈ [Session.Action.script "leaf"], host.Balanced (host.body a) := by
    simpa using hleaf
  obtain ⟨hscripts, hexits⟩ := balanced_extends host {}
  obtain ⟨served, s, added, hr, hs, ho, ha⟩ := hscripts calls top below hcalls
  obtain ⟨served', s', added', hc, -, hs', -, -⟩ := hexits _ [] hframe
  have hframes : (host.run ⟨top :: below, {}⟩ calls).map (fun r => r.2.frames) =
      some ((top ++ [.freeing "a", .freeing "x", .freeing "c"]) :: below) := by
    simp [host, calls, top, below, Host.run, Host.call, Host.start, Host.drain_cons, Host.step,
      Session.host, Session.body, Frames.enter, Frames.defer, Frames.exit]
  have hframes' : (host.call ⟨[[.script "leaf"]], {}⟩ .exit).map (fun r => r.2.frames) =
      some [[.freeing "x"]] := by
    simp [host, Host.call, Host.start, Host.drain_cons, Host.step, Session.host, Session.body,
      Frames.defer, Frames.exit]
  rw [hr, Option.map_some, Option.some_inj, hs, List.cons.injEq] at hframes
  rw [hc, Option.map_some, Option.some_inj, hs' rfl] at hframes'
  have hadded' : added' = [.freeing "x"] := by
    cases added' with
    | nil => simp at hframes'
    | cons a more => simpa using hframes'
  refine ⟨hcalls, hframe, ⟨served, s, added, hr, List.append_cancel_left hframes.1, hs, ho, ha⟩,
    served', s', added', hc, hadded', ?_⟩
  rw [hs' rfl, hadded']
  rfl

end SupportLayer.Scope
