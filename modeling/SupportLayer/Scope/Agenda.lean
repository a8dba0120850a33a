/-
# Calls, and the actions they fire

A program makes calls: it opens and closes frames, defers actions, asks for the depth, or
does something else with a store of its own. An action that fires makes calls too, so the
closing of one frame can open, fill and close others. What is still to be done is kept as
an agenda, a list of tasks; each step takes the first task off and may put tasks in front of
the rest. Actions deferred while a frame fires go to the frames that are open then. An agenda
that grows faster than it is worked off has no end, and then the call has no answer.

Key definitions: `Scope.Call`, `Scope.Host`, `Scope.Task`, `Scope.State`, `Scope.Host.start`,
`Scope.Host.step`, `Scope.Host.drain`, `Scope.Host.call`, `Scope.Host.run`.
Key theorem: `Scope.Host.drain_cons`.
-/
import SupportLayer.LogRecord
import SupportLayer.Scope.Frames

namespace SupportLayer.Scope

/-- A call, with actions of type `α` and other operations of type `β`. -/
inductive Call (α β : Type) where
  | enter
  | exit
  | depth
  | defer (action : α)
  | other (operation : β)
  deriving DecidableEq, Repr

/-- What a call answers. -/
inductive Answer (ρ : Type) where
  | nothing
  | depth (n : Nat)
  | other (reply : ρ)
  deriving DecidableEq, Repr

/-- What happens while a call is served: a record is logged, an action fires, a call has its
answer. -/
inductive Event (α β ρ : Type) where
  | logged (record : LogRecord)
  | fired (action : α)
  | answered (call : Call α β) (answer : Answer ρ)

/-- What actions and other operations mean: the calls that an action makes, what its firing
does to the store at once, and what an operation answers, logs and does to the store. The
records about frames are not for an operation to log. -/
structure Host (α β σ ρ : Type) where
  body : α → List (Call α β)
  fire : α → σ → σ
  perform : β → σ → ρ × List LogRecord × σ
  quiet : ∀ operation store, ∀ record ∈ (perform operation store).2.1, record.ofFrames = false

/-- The open frames and the store. -/
structure State (α σ : Type) where
  frames : Frames α
  store : σ

/-- A task: serve a call, fire an action, or report an answer that had to wait. -/
inductive Task (α β ρ : Type) where
  | serve (call : Call α β)
  | fire (action : α)
  | report (call : Call α β) (answer : Answer ρ)

/-- A call that was started: its answer, what it logged at once, what is left to do for it,
and the state. -/
structure Start (α β σ ρ : Type) where
  answer : Answer ρ
  log : List LogRecord
  tasks : List (Task α β ρ)
  state : State α σ

/-- A task that was done: what happened, the tasks that take its place, and the state. -/
structure Step (α β σ ρ : Type) where
  events : List (Event α β ρ)
  tasks : List (Task α β ρ)
  state : State α σ

/-- A call of the program: its answer, and what happened until then. -/
structure Served (α β ρ : Type) where
  call : Call α β
  answer : Answer ρ
  events : List (Event α β ρ)

namespace Host

variable {α β σ ρ : Type}

/-- Starts to serve a call. -/
def start (host : Host α β σ ρ) (s : State α σ) : Call α β → Start α β σ ρ
  | .enter =>
    let frames := s.frames.enter
    ⟨.depth frames.depth, [.scopeEntered frames.depth], [], { s with frames }⟩
  | .exit =>
    match s.frames.exit with
    | some (actions, frames) =>
      ⟨.nothing, [.scopeLeft actions.length], actions.map .fire, { s with frames }⟩
    | none => ⟨.nothing, [.scopeLeftUnopened], [], s⟩
  | .depth => ⟨.depth s.frames.depth, [], [], s⟩
  | .defer action =>
    let (frames, implied) := s.frames.defer action
    ⟨.nothing, if implied then [.scopeImplied] else [], [], { s with frames }⟩
  | .other operation =>
    let (reply, log, store) := host.perform operation s.store
    ⟨.other reply, log, [], { s with store }⟩

/-- Does one task. A call that leaves nothing to do is answered at once. -/
def step (host : Host α β σ ρ) (s : State α σ) : Task α β ρ → Step α β σ ρ
  | .serve call =>
    let begun := host.start s call
    match begun.tasks with
    | [] => ⟨begun.log.map .logged ++ [.answered call begun.answer], [], begun.state⟩
    | tasks => ⟨begun.log.map .logged, tasks ++ [.report call begun.answer], begun.state⟩
  | .fire action =>
    ⟨[.fired action], (host.body action).map .serve, { s with store := host.fire action s.store }⟩
  | .report call answer => ⟨[.answered call answer], [], s⟩

section Step

variable (host : Host α β σ ρ) (frame : List α) (frames : Frames α) (store : σ)

theorem step_enter : host.step ⟨frames, store⟩ (.serve .enter) =
    ⟨[.logged (.scopeEntered (frames.length + 1)), .answered .enter (.depth (frames.length + 1))],
      [], ⟨[] :: frames, store⟩⟩ := rfl

theorem step_depth : host.step ⟨frames, store⟩ (.serve .depth) =
    ⟨[.answered .depth (.depth frames.length)], [], ⟨frames, store⟩⟩ := rfl

theorem step_defer_nil (a : α) : host.step ⟨[], store⟩ (.serve (.defer a)) =
    ⟨[.logged .scopeImplied, .answered (.defer a) .nothing], [], ⟨[[a]], store⟩⟩ := rfl

theorem step_defer_cons (a : α) : host.step ⟨frame :: frames, store⟩ (.serve (.defer a)) =
    ⟨[.answered (.defer a) .nothing], [], ⟨(frame ++ [a]) :: frames, store⟩⟩ := rfl

theorem step_exit_nil : host.step ⟨[], store⟩ (.serve .exit) =
    ⟨[.logged .scopeLeftUnopened, .answered .exit .nothing], [], ⟨[], store⟩⟩ := rfl

theorem step_exit_empty : host.step ⟨[] :: frames, store⟩ (.serve .exit) =
    ⟨[.logged (.scopeLeft 0), .answered .exit .nothing], [], ⟨frames, store⟩⟩ := rfl

theorem step_exit_cons (h : frame ≠ []) : host.step ⟨frame :: frames, store⟩ (.serve .exit) =
    ⟨[.logged (.scopeLeft frame.length)],
      frame.reverse.map .fire ++ [.report .exit .nothing], ⟨frames, store⟩⟩ := by
  obtain ⟨a, first, hr⟩ := List.exists_cons_of_ne_nil (mt List.reverse_eq_nil_iff.mp h)
  simp only [step, start, Frames.exit, hr, List.map_cons]
  have hlen : frame.length = (a :: first).length := by rw [← hr, List.length_reverse]
  rw [hlen]
  rfl

theorem step_other (operation : β) : host.step ⟨frames, store⟩ (.serve (.other operation)) =
    ⟨(host.perform operation store).2.1.map .logged ++
      [.answered (.other operation) (.other (host.perform operation store).1)],
      [], ⟨frames, (host.perform operation store).2.2⟩⟩ := rfl

theorem step_fire (s : State α σ) (a : α) : host.step s (.fire a) =
    ⟨[.fired a], (host.body a).map .serve, ⟨s.frames, host.fire a s.store⟩⟩ := rfl

theorem step_report (s : State α σ) (c : Call α β) (answer : Answer ρ) :
    host.step s (.report c answer) = ⟨[.answered c answer], [], s⟩ := rfl

end Step

/-- Works an agenda off: what happens, and the state at its end. -/
def drain (host : Host α β σ ρ) (tasks : List (Task α β ρ)) (s : State α σ) :
    Option (List (Event α β ρ) × State α σ) :=
  match tasks with
  | [] => some ([], s)
  | task :: tasks => do
    let done := host.step s task
    let (later, s) ← host |>.drain (done.tasks ++ tasks) done.state
    return (done.events ++ later, s)
partial_fixpoint

@[simp] theorem drain_nil (host : Host α β σ ρ) (s : State α σ) :
    host.drain [] s = some ([], s) := by
  rw [drain]

theorem drain_cons (host : Host α β σ ρ) (task : Task α β ρ) (tasks : List (Task α β ρ))
    (s : State α σ) :
    host.drain (task :: tasks) s =
      (host.drain ((host.step s task).tasks ++ tasks) (host.step s task).state).map
        fun r => ((host.step s task).events ++ r.1, r.2) := by
  rw [drain]
  cases host.drain ((host.step s task).tasks ++ tasks) (host.step s task).state <;> rfl

/-- Serves a call of the program itself, with everything that it fires. -/
def call (host : Host α β σ ρ) (s : State α σ) (c : Call α β) :
    Option (Served α β ρ × State α σ) := do
  let begun := host.start s c
  let (events, s) ← host.drain begun.tasks begun.state
  return (⟨c, begun.answer, begun.log.map .logged ++ events⟩, s)

/-- Serves the calls of a program, one after the other. -/
def run (host : Host α β σ ρ) (s : State α σ) :
    List (Call α β) → Option (List (Served α β ρ) × State α σ)
  | [] => some ([], s)
  | c :: calls => do
    let (first, s) ← host.call s c
    let (served, s) ← host.run s calls
    return (first :: served, s)

end Host

end SupportLayer.Scope
