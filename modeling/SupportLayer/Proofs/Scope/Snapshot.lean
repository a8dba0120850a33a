/-
# An exit fires what it finds

An exit takes its frame off before the first action fires. What the scripts register goes to
frames that are open then: the innermost one that was found, or those that the scripts opened
above it (`Frames.Lands`). If no script makes an exit, none of these frames is fired. So the exit
fires the frame that it took off and nothing else, and it ends, although scripts may register
themselves or each other without end: what is measured is the frame, not the stack.

Key definitions: `Scope.Frames.Lands`, `Scope.Call.deferred?`, `Scope.Host.Does`.
Key theorems: `Scope.Frames.Lands.trans`, `Scope.Host.does_calls`, `Scope.Host.does_fires`,
`Scope.exit_fires_snapshot`.
-/
import Mathlib
import SupportLayer.Proofs.Scope.Balance

namespace SupportLayer.Scope

variable {α β σ ρ : Type}

/-! ### Where registered actions land -/

namespace Frames

/-- The actions `registered` landed on the frames that were found, in their order: behind those
of the innermost frame, and then in frames that were opened above. -/
def Lands (found : Frames α) (registered : List α) (now : Frames α) : Prop :=
  ∃ opened added, registered = added ++ opened.reverse.flatten ∧
    now = opened ++ found.extend added

theorem extend_extend (frames : Frames α) (added more : List α) :
    (frames.extend added).extend more = frames.extend (added ++ more) := by
  cases frames with
  | nil => cases added <;> simp [extend]
  | cons frame frames => simp [extend]

theorem Lands.refl (found : Frames α) : found.Lands [] found :=
  ⟨[], [], rfl, (extend_nil found).symm⟩

theorem Lands.enter (found : Frames α) : found.Lands [] found.enter :=
  ⟨[[]], [], rfl, by rw [extend_nil]; rfl⟩

theorem Lands.defer (found : Frames α) (a : α) : found.Lands [a] (found.defer a).1 := by
  have h := found.defer_extend [] a
  rw [extend_nil] at h
  exact ⟨[], [a], rfl, h⟩

theorem Lands.trans {found between now : Frames α} {first later : List α}
    (h : found.Lands first between) (h' : between.Lands later now) :
    found.Lands (first ++ later) now := by
  obtain ⟨opened, added, rfl, rfl⟩ := h
  obtain ⟨opened', added', rfl, rfl⟩ := h'
  cases opened with
  | nil =>
    refine ⟨opened', added ++ added', ?_, ?_⟩
    · simp
    · rw [List.nil_append, extend_extend]
  | cons frame opened =>
    refine ⟨opened' ++ (frame ++ added') :: opened, added, ?_, ?_⟩
    · simp
    · rw [List.cons_append, extend, List.append_assoc, List.cons_append]

/-- Nothing that landed has left the frames. -/
theorem Lands.perm {found now : Frames α} {registered : List α} (h : found.Lands registered now) :
    now.flatten.Perm (found.flatten ++ registered) := by
  obtain ⟨opened, added, rfl, rfl⟩ := h
  have hextend : (found.extend added).flatten.Perm (found.flatten ++ added) := by
    cases found with
    | nil => cases added <;> simp [extend]
    | cons frame found =>
      rw [extend, List.flatten_cons, List.flatten_cons, List.append_assoc, List.append_assoc]
      exact List.perm_append_comm.append_left frame
  have hopened : opened.flatten.Perm opened.reverse.flatten := (List.reverse_perm opened).symm.flatten
  rw [List.flatten_append, ← List.append_assoc]
  exact List.perm_append_comm.trans (hextend.append hopened)

end Frames

/-! ### Scripts without exits -/

/-- The action that a call defers. -/
def Call.deferred? : Call α β → Option α
  | defer a => some a
  | _ => none

namespace Host

variable {host : Host α β σ ρ}

/-- An agenda comes to an end: the actions `fired` fire, the actions `registered` are registered,
both in this order, and these land on the frames that were found. -/
structure Does (host : Host α β σ ρ) (tasks : List (Task α β ρ)) (s : State α σ)
    (fired registered : List α) (events : List (Event α β ρ)) (s' : State α σ) : Prop where
  drains : host.Drains tasks s events s'
  fires : firings events = fired
  registers : registrations events = registered
  lands : s.frames.Lands registered s'.frames

theorem Does.nil (s : State α σ) : host.Does [] s [] [] [] s :=
  ⟨.nil s, rfl, rfl, .refl s.frames⟩

theorem Does.append {tasks rest : List (Task α β ρ)} {s s' s'' : State α σ}
    {fired fired' registered registered' : List α} {events later : List (Event α β ρ)}
    (h : host.Does tasks s fired registered events s')
    (h' : host.Does rest s' fired' registered' later s'') :
    host.Does (tasks ++ rest) s (fired ++ fired') (registered ++ registered') (events ++ later)
      s'' where
  drains := h.drains.append h'.drains
  fires := by rw [firings_append, h.fires, h'.fires]
  registers := by rw [registrations_append, h.registers, h'.registers]
  lands := h.lands.trans h'.lands

variable (host) in
theorem does_call {c : Call α β} (hc : c ≠ .exit) (s : State α σ) : ∃ events s',
    host.Does [.serve c] s [] c.deferred?.toList events s' := by
  obtain ⟨frames, store⟩ := s
  have hdone : ∀ {events s'}, host.step ⟨frames, store⟩ (.serve c) = ⟨events, [], s'⟩ →
      host.Drains [.serve c] ⟨frames, store⟩ events s' := by
    intro events s' hs
    have h : host.Drains [.serve c] ⟨frames, store⟩ (_ ++ []) _ := .cons (by rw [hs]; exact .nil s')
    simpa [hs] using h
  cases c with
  | exit => exact absurd rfl hc
  | enter => exact ⟨_, _, hdone (step_enter ..), rfl, rfl, .enter frames⟩
  | depth => exact ⟨_, _, hdone (step_depth ..), rfl, rfl, .refl frames⟩
  | other operation =>
    refine ⟨_, _, hdone (step_other ..), ?_, ?_, .refl frames⟩
    · rw [firings_append, firings_logged]
      rfl
    · rw [registrations_append, registrations_logged]
      rfl
  | defer a =>
    cases frames with
    | nil => exact ⟨_, _, hdone (step_defer_nil ..), rfl, rfl, .defer [] a⟩
    | cons frame frames =>
      exact ⟨_, _, hdone (step_defer_cons ..), rfl, rfl, .defer (frame :: frames) a⟩

variable (host) in
theorem does_calls {calls : List (Call α β)} (hcalls : .exit ∉ calls) (s : State α σ) :
    ∃ events s', host.Does (calls.map .serve) s [] (calls.filterMap Call.deferred?) events s' := by
  induction calls generalizing s with
  | nil => exact ⟨[], s, .nil s⟩
  | cons c calls ih =>
    have hc : c ≠ .exit := fun h => hcalls (h ▸ List.mem_cons_self)
    have hrest : .exit ∉ calls := fun h => hcalls (List.mem_cons_of_mem c h)
    obtain ⟨events, s₁, hone⟩ := host.does_call hc s
    obtain ⟨later, s₂, hlater⟩ := ih hrest s₁
    have hdeferred : (c :: calls).filterMap Call.deferred? =
        c.deferred?.toList ++ calls.filterMap Call.deferred? := by
      cases h : c.deferred? <;> simp [h]
    rw [hdeferred]
    exact ⟨_, s₂, hone.append hlater⟩

/-- Actions whose scripts make no exit fire once each. What the scripts register does not
fire. -/
theorem does_fires {actions : List α} (hbody : ∀ a ∈ actions, .exit ∉ host.body a)
    (s : State α σ) : ∃ events s', host.Does (actions.map .fire) s actions
      ((actions.flatMap host.body).filterMap Call.deferred?) events s' := by
  induction actions generalizing s with
  | nil => exact ⟨[], s, .nil s⟩
  | cons a actions ih =>
    rw [List.forall_mem_cons] at hbody
    obtain ⟨events, s₁, hscript⟩ := host.does_calls hbody.1 ⟨s.frames, host.fire a s.store⟩
    have hfire : host.Does [.fire a] s [a] ((host.body a).filterMap Call.deferred?)
        ([.fired a] ++ events) s₁ :=
      { drains := .cons (by rw [step_fire, List.append_nil]; exact hscript.drains)
        fires := by rw [firings_append, hscript.fires]; rfl
        registers := by rw [registrations_append, hscript.registers]; rfl
        lands := hscript.lands }
    obtain ⟨later, s₂, hlater⟩ := ih hbody.2 s₁
    rw [List.flatMap_cons, List.filterMap_append]
    exact ⟨_, s₂, hfire.append hlater⟩

end Host

/-! ### The exit -/

/-- **An exit fires what it finds, and ends.** If no script of the frame's actions makes an exit,
the exit is answered. It has fired the actions that were in the frame, the last one first, and
nothing else: what the scripts registered is pending, behind the innermost frame around or in
frames that the scripts opened. With no frame open, nothing fires and nothing changes. -/
theorem exit_fires_snapshot (host : Host α β σ ρ) (store : σ) :
    (∀ (frame : List α) (around : Frames α), (∀ a ∈ frame, .exit ∉ host.body a) →
      ∃ events s opened added,
        host.call ⟨frame :: around, store⟩ .exit = some (⟨.exit, .nothing, events⟩, s) ∧
        firings events = frame.reverse ∧
        registrations events = (frame.reverse.flatMap host.body).filterMap Call.deferred? ∧
        registrations events = added ++ opened.reverse.flatten ∧
        s.frames = opened ++ around.extend added ∧
        s.frames.flatten.Perm (around.flatten ++ registrations events)) ∧
    host.call ⟨[], store⟩ .exit =
      some (⟨.exit, .nothing, [.logged .scopeLeftUnopened]⟩, ⟨[], store⟩) := by
  constructor
  · intro frame around hbody
    have hreverse : ∀ a ∈ frame.reverse, .exit ∉ host.body a :=
      fun a ha => hbody a (List.mem_reverse.mp ha)
    obtain ⟨later, s, hdoes⟩ := Host.does_fires hreverse ⟨around, store⟩
    obtain ⟨opened, added, hadded, hframes⟩ := hdoes.lands
    have hstart : host.start ⟨frame :: around, store⟩ .exit = ⟨.nothing,
        [.scopeLeft frame.reverse.length], frame.reverse.map .fire, ⟨around, store⟩⟩ := rfl
    let events := .logged (.scopeLeft frame.reverse.length) :: later
    have hcall : host.call ⟨frame :: around, store⟩ .exit =
        some (⟨.exit, .nothing, events⟩, s) := by
      rw [Host.call, hstart]
      simp only [hdoes.drains.drain_eq]
      rfl
    have hfired : firings events = frame.reverse := hdoes.fires
    have hregistered : registrations events =
        (frame.reverse.flatMap host.body).filterMap Call.deferred? := hdoes.registers
    have hpending : s.frames.flatten.Perm (around.flatten ++ registrations events) := by
      rw [hregistered]
      exact hdoes.lands.perm
    exact ⟨events, s, opened, added, hcall, hfired, hregistered, hregistered.trans hadded, hframes,
      hpending⟩
  · have hstart : host.start ⟨[], store⟩ .exit =
        ⟨.nothing, [.scopeLeftUnopened], [], ⟨[], store⟩⟩ := rfl
    rw [Host.call, hstart, Host.drain_nil]
    rfl

/-- Two scripts register themselves and each other in turn, and one opens a frame in between; each
fires once. -/
theorem exit_fires_snapshot_cyclic :
    let again : Session.Action := .script "again"
    let other : Session.Action := .script "other"
    let host := Session.host
      [("again", [.defer again, .enter, .defer other]), ("other", [.defer again])]
    (∀ a ∈ [other, again], .exit ∉ host.body a) ∧ ∃ events s,
      host.call ⟨[[other, again], [.freeing "x"]], {}⟩ .exit =
        some (⟨.exit, .nothing, events⟩, s) ∧
      firings events = [again, other] ∧
      registrations events = [again, other, again] ∧
      s.frames = [[other, again], [.freeing "x", again]] := by
  intro again other host
  have hbody : ∀ a ∈ [other, again], .exit ∉ host.body a := by
    simp [host, again, other, Session.host, Session.body]
  obtain ⟨hexits, -⟩ := exit_fires_snapshot host {}
  obtain ⟨events, s, -, -, hcall, hfired, hregistered, -, -, -⟩ :=
    hexits [other, again] [[.freeing "x"]] hbody
  have hframes : (host.call ⟨[[other, again], [.freeing "x"]], {}⟩ .exit).map
      (fun r => r.2.frames) = some [[other, again], [.freeing "x", again]] := by
    simp [host, again, other, Host.call, Host.start, Host.drain_cons, Host.step, Session.host,
      Session.body, Frames.enter, Frames.defer, Frames.exit]
  rw [hcall, Option.map_some, Option.some_inj] at hframes
  refine ⟨hbody, events, s, hcall, hfired, hregistered.trans ?_, hframes⟩
  simp [host, again, other, Session.host, Session.body, List.filterMap_cons, Call.deferred?]

end SupportLayer.Scope
