/-
# Frames do what guards do

A block is run in two ways: with guards that are dropped in reverse order where the block is
left (`guarded`), and as calls that open a frame where a block is entered, defer on it, and
close it where the block is left, one frame for each block (`calls`). Both have the same trace
(`trace`): what a statement does at once comes before the rest of its block, what it defers
comes behind. The frames below the block's own stay as they are, so the induction on blocks
serves nested blocks and the scripts of actions alike (`Block.reaches`).

Key definitions: `Scope.Block.Stmt`, `Scope.Block.leaves`, `Scope.Block.trace`,
`Scope.Block.guarded`, `Scope.Block.calls`, `Scope.Block.host`.
Key theorems: `Scope.Block.runList_guarded`, `Scope.Block.reaches`,
`Scope.Block.frames_realise_guards`.
-/
import Mathlib
import SupportLayer.Guard
import SupportLayer.Proofs.Scope.Agenda

namespace SupportLayer.Scope.Block

/-- A statement of a block; a block is a list of them. An action is a block of its own, and
`leave n` leaves `n` blocks and one more around it. -/
inductive Stmt where
  | step (line : String)
  | block (body : List Stmt)
  | defer (action : List Stmt)
  | leave (between : ℕ)

/-- The cases of an induction on blocks. -/
@[elab_as_elim]
theorem body_induction {motive : List Stmt → Prop} (nil : motive [])
    (step : ∀ line rest, motive rest → motive (.step line :: rest))
    (block : ∀ body rest, motive body → motive rest → motive (.block body :: rest))
    (defer : ∀ action rest, motive action → motive rest → motive (.defer action :: rest))
    (leave : ∀ between rest, motive (.leave between :: rest)) : ∀ body, motive body
  | [] => nil
  | .step line :: rest => step line rest (body_induction nil step block defer leave rest)
  | .block body :: rest =>
    block body rest (body_induction nil step block defer leave body)
      (body_induction nil step block defer leave rest)
  | .defer action :: rest =>
    defer action rest (body_induction nil step block defer leave action)
      (body_induction nil step block defer leave rest)
  | .leave between :: rest => leave between rest

mutual

/-- How many blocks between, if the statement leaves the block it is in. -/
def Stmt.leaves : Stmt → Option ℕ
  | .block body =>
    match leaves body with
    | some (between + 1) => some between
    | _ => none
  | .leave between => some between
  | _ => none

/-- How many blocks between, if the block is left early. -/
def leaves : List Stmt → Option ℕ
  | [] => none
  | stmt :: rest =>
    match stmt.leaves with
    | some between => some between
    | none => leaves rest

end

mutual

/-- The lines of a statement at once. -/
def Stmt.now : Stmt → List String
  | .step line => [line]
  | .block body => trace body
  | _ => []

/-- The lines of what a statement defers. -/
def Stmt.later : Stmt → List String
  | .defer action => trace action
  | _ => []

/-- The lines of a block. -/
def trace : List Stmt → List String
  | [] => []
  | stmt :: rest => stmt.now ++ (if stmt.leaves.isSome then [] else trace rest) ++ stmt.later

end

mutual

/-- A statement with guards. -/
def Stmt.guarded : Stmt → Guard.Stmt
  | .step line => .log line
  | .block body => .block .plain (guarded body)
  | .defer action => .defer (guarded action)
  | .leave between => .leave (.outer between)

/-- A block with guards. -/
def guarded : List Stmt → List Guard.Stmt
  | [] => []
  | stmt :: rest => stmt.guarded :: guarded rest

end

/-- A call of code without guards: actions are blocks, and the other operations write lines. -/
abbrev Call := Scope.Call (List Stmt) String

mutual

/-- The calls of a statement. -/
def Stmt.calls : Stmt → List Call
  | .step line => [.other line]
  | .block body => .enter :: calls body ++ [.exit]
  | .defer action => [.defer action]
  | .leave _ => []

/-- The calls of a block on the frame that is open for it. -/
def calls : List Stmt → List Call
  | [] => []
  | stmt :: rest => stmt.calls ++ if stmt.leaves.isSome then [] else calls rest

end

/-- The calls of a block with a frame of its own. -/
def framed (body : List Stmt) : List Call := .enter :: calls body ++ [.exit]

/-- An action runs its block in a frame of its own, and the store is the lines written. -/
def host : Host (List Stmt) String (List String) Unit :=
  { body := framed
    fire := fun _ log => log
    perform := fun line log => ((), [], log ++ [line])
    quiet := by simp }

/-! ### With guards -/

/-- The state with the lines of a trace. -/
def written (s : Guard.State) (lines : List String) : Guard.State :=
  { s with log := s.log ++ lines }

theorem written_written (s : Guard.State) (first lines : List String) :
    written (written s first) lines = written s (first ++ lines) := by
  simp [written]

/-- The exit of a block, as its guards see it. -/
def outcome : Option ℕ → Guard.Outcome
  | none => .normal
  | some between => .exit (.outer between)

theorem afterAction_outcome (left action : Option ℕ) :
    (outcome left).afterAction (outcome action) = outcome left := by
  cases left <;> cases action <;> rfl

theorem absorb_outcome (body : List Stmt) (s : Guard.State) :
    Guard.Boundary.plain.absorb (outcome (leaves body)) s =
      (outcome (Stmt.block body).leaves, s) := by
  rw [Stmt.leaves]
  cases leaves body with
  | none => rfl
  | some n => cases n <;> rfl

/-- A statement that binds no guard is run by itself, and the rest of the block if it did not
leave it. -/
theorem runList_stmt {stmt : Stmt} (hd : ∀ action, stmt ≠ .defer action) {rest : List Stmt}
    {iteration : ℕ} {guards : List Guard.Pending} {s : Guard.State}
    (hstmt : Guard.State.runStmt stmt.guarded iteration s =
      some (outcome stmt.leaves, written s stmt.now))
    (ih : Guard.State.runList (guarded rest) iteration guards (written s stmt.now) =
      Guard.State.unwind guards (outcome (leaves rest)) (written (written s stmt.now) (trace rest))) :
    Guard.State.runList (guarded (stmt :: rest)) iteration guards s =
      Guard.State.unwind guards (outcome (leaves (stmt :: rest))) (written s (trace (stmt :: rest))) := by
  have hlater : stmt.later = [] := by
    cases stmt with
    | defer action => exact absurd rfl (hd action)
    | _ => rfl
  have hguarded : ∀ action, stmt.guarded ≠ .defer action := by
    intro action
    cases stmt with
    | defer action => exact absurd rfl (hd action)
    | _ => simp [Stmt.guarded]
  rw [guarded, Guard.State.runList, hstmt]
  · rw [leaves, trace, hlater, List.append_nil]
    cases hl : stmt.leaves with
    | none =>
      refine ih.trans ?_
      rw [written_written]
      rfl
    | some n => simp [outcome]
  · exact hguarded

/-- A block is run by writing its trace. The guards that were bound before it fire behind. -/
theorem runList_guarded (body : List Stmt) (iteration : ℕ) (guards : List Guard.Pending)
    (s : Guard.State) :
    Guard.State.runList (guarded body) iteration guards s =
      Guard.State.unwind guards (outcome (leaves body)) (written s (trace body)) := by
  induction body using body_induction generalizing iteration guards s with
  | nil =>
    rw [guarded, Guard.State.runList]
    simp [leaves, trace, outcome, written]
  | step line rest ih =>
    refine runList_stmt (by simp) ?_ (ih ..)
    rw [Stmt.guarded, Guard.State.runStmt]
    rfl
  | block body rest ihBody ihRest =>
    refine runList_stmt (by simp) ?_ (ihRest ..)
    rw [Stmt.guarded, Guard.State.runStmt, ihBody, Guard.State.unwind]
    exact congrArg some (absorb_outcome ..)
  | defer action rest ihAction ihRest =>
    rw [guarded, Stmt.guarded, Guard.State.runList, ihRest, Guard.State.unwind, ihAction, Guard.State.unwind]
    simp only [Option.bind_eq_bind, Option.bind_some, afterAction_outcome, written_written]
    cases hl : leaves rest <;> simp [outcome, leaves, Stmt.leaves, trace, Stmt.now, Stmt.later, hl]
  | leave between rest =>
    rw [guarded, Stmt.guarded, Guard.State.runList, Guard.State.runStmt]
    · simp [leaves, Stmt.leaves, trace, Stmt.now, Stmt.later, outcome, written]
    · simp

theorem execute_guarded (program : List Stmt) :
    Guard.execute (guarded program) = some ⟨outcome (leaves program), trace program, []⟩ := by
  rw [Guard.execute, runList_guarded, Guard.State.unwind]
  cases leaves program <;> simp [outcome, written]

/-! ### With frames -/

/-- A task of code without guards. -/
abbrev Task := Scope.Task (List Stmt) String Unit

/-- The frames and the lines written. -/
abbrev State := Scope.State (List Stmt) (List String)

/-- An agenda comes to an end in a state. -/
def Reaches (tasks : List Task) (s s' : State) : Prop := ∃ events, host.Drains tasks s events s'

section

variable {tasks rest : List Task} {s s' s'' : State} {frames : Frames (List Stmt)}
  {log : List String}

theorem Reaches.nil (s : State) : Reaches [] s s := ⟨[], .nil s⟩

theorem Reaches.append (h : Reaches tasks s s') (h' : Reaches rest s' s'') :
    Reaches (tasks ++ rest) s s'' := by
  obtain ⟨events, h⟩ := h
  obtain ⟨later, h'⟩ := h'
  exact ⟨_, h.append h'⟩

theorem Reaches.cons {task : Task}
    (h : Reaches ((host.step s task).tasks ++ tasks) (host.step s task).state s') :
    Reaches (task :: tasks) s s' := by
  obtain ⟨events, h⟩ := h
  exact ⟨_, .cons h⟩

/-- A frame is closed by firing its actions, the last one first. -/
theorem reaches_exit {frame : List (List Stmt)}
    (h : Reaches (frame.reverse.map .fire) ⟨frames, log⟩ s) :
    Reaches [.serve .exit] ⟨frame :: frames, log⟩ s := by
  apply Reaches.cons
  by_cases hempty : frame = []
  · subst hempty
    exact h
  · rw [Host.step_exit_cons _ _ _ _ hempty, List.append_nil]
    exact h.append (.cons (.nil s))

theorem reaches_framed {body : List Stmt}
    (h : Reaches ((calls body).map .serve ++ [.serve .exit]) ⟨[] :: frames, log⟩ s) :
    Reaches ((framed body).map .serve) ⟨frames, log⟩ s := by
  rw [framed, List.map_append, List.map_cons, List.cons_append]
  exact .cons h

end

/-- A block writes its trace and leaves the frames below alone. The frame that is open for
the block gains the block's actions; behind the trace the actions fire that were there before. -/
theorem reaches (body : List Stmt) (frame : List (List Stmt)) (frames : Frames (List Stmt))
    (log : List String) (s : State)
    (h : Reaches (frame.reverse.map .fire) ⟨frames, log ++ trace body⟩ s) :
    Reaches ((calls body).map .serve ++ [.serve .exit]) ⟨frame :: frames, log⟩ s := by
  induction body using body_induction generalizing frame frames log s with
  | nil =>
    refine reaches_exit ?_
    simpa [trace] using h
  | step line rest ih =>
    refine .cons (ih frame frames (log ++ [line]) s ?_)
    simpa [trace, Stmt.now, Stmt.later, Stmt.leaves] using h
  | block body rest ihBody ihRest =>
    -- the nested block runs on a frame of its own, above the one of this block
    have hin : Reaches ((calls body).map .serve ++ [.serve .exit]) ⟨[] :: frame :: frames, log⟩
        ⟨frame :: frames, log ++ trace body⟩ := ihBody [] (frame :: frames) log _ (.nil _)
    have hcalls : (calls (.block body :: rest)).map .serve ++ [.serve .exit] =
        (framed body).map .serve ++
          ((if (Stmt.block body).leaves.isSome then [] else calls rest).map .serve ++
            [(.serve .exit : Task)]) := by
      simp [calls, Stmt.calls, framed]
    rw [hcalls]
    refine (reaches_framed hin).append ?_
    cases hl : (Stmt.block body).leaves with
    | some n =>
      refine reaches_exit ?_
      simpa [trace, Stmt.now, Stmt.later, hl] using h
    | none =>
      refine ihRest frame frames _ s ?_
      simpa [trace, Stmt.now, Stmt.later, hl] using h
  | defer action rest ihAction ihRest =>
    refine .cons (ihRest (frame ++ [action]) frames log s ?_)
    -- the action fires first of its frame, behind the rest of the block
    have hin : Reaches ((calls action).map .serve ++ [.serve .exit])
        ⟨[] :: frames, log ++ trace rest⟩ ⟨frames, log ++ trace rest ++ trace action⟩ :=
      ihAction [] frames _ _ (.nil _)
    have hrest : Reaches (frame.reverse.map .fire)
        ⟨frames, log ++ trace rest ++ trace action⟩ s := by
      simpa [trace, Stmt.now, Stmt.later, Stmt.leaves] using h
    rw [List.reverse_append, List.reverse_singleton, List.singleton_append, List.map_cons]
    refine .cons ?_
    rw [Host.step_fire]
    exact (reaches_framed hin).append hrest
  | leave between rest =>
    refine reaches_exit ?_
    simpa [trace, Stmt.now, Stmt.later, Stmt.leaves] using h

/-- **Frames realise guards.** Run with guards, a program writes what its calls write, made
around one frame of its own from any frames on; those are left as they were. -/
theorem frames_realise_guards (program : List Stmt) (frames : Frames (List Stmt))
    (log : List String) :
    ∃ report served, Guard.execute (guarded program) = some report ∧
      host.run ⟨frames, log⟩ (framed program) =
        some (served, ⟨frames, log ++ report.log⟩) := by
  obtain ⟨events, hd⟩ := reaches_framed (reaches program [] frames log _ (.nil _))
  obtain ⟨served, hr, -⟩ := host.run_of_drains hd
  exact ⟨_, served, execute_guarded program, hr⟩

end SupportLayer.Scope.Block
