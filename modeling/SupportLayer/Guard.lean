/-
# Guards

Blocks with guards: a guard is bound in a block and runs its action once when the block is
left, whatever way that is; the guards of a block run in reverse order. Control leaves
blocks by running off their end, by a `break` to the end of a plain block around it, by
`break` and `continue` of a loop, by `return`, by a failure or by a panic. A plain block
absorbs the break that names it, a loop its own two, a call all but failures and panics, an
attempt absorbs failures and a rescue panics. A guard's action keeps its own exits to itself,
all but a panic, and the other guards run even then. But a panic that comes out of an action
while its block is left by a panic ends the program: nothing is run behind it. A guard may also
be held under a name, outside every block, and released later.

Key definitions: `Guard.Exit`, `Guard.Outcome`, `Guard.Outcome.afterAction`, `Guard.Boundary`,
`Guard.Stmt`, `Guard.State.runList`, `Guard.State.unwind`, `Guard.execute`.
-/

namespace SupportLayer.Guard

/-- The ways out of a block besides running off its end. `outer n` goes to the end of a plain
block, the one with `n` others between it and the exit. -/
inductive Exit where
  | outer (between : Nat)
  | breakLoop
  | continueLoop
  | returnCall
  | failure (value : String)
  | panic (value : String)
  deriving DecidableEq, Repr

/-- How a block was left: by running off its end, by an exit, or not at all, since the program
ended in it. -/
inductive Outcome where
  | normal
  | exit (e : Exit)
  | aborted
  deriving DecidableEq, Repr

/-- What a nested block absorbs: the exits to its own end, what a call absorbs, failures, or
panics. -/
inductive Boundary where
  | plain | call | attempt | rescue
  deriving DecidableEq, Repr

/-- A statement. A block is a list of them. -/
inductive Stmt where
  | log (line : String)
  | defer (action : List Stmt)
  | block (boundary : Boundary) (body : List Stmt)
  | when (iteration : Nat) (body : List Stmt)
  | loop (times : Nat) (body : List Stmt)
  | leave (exit : Exit)
  | hold (name : String) (action : List Stmt)
  | release (name : String)

/-- A guard that has not fired: its action, and the iteration in which it was bound. -/
structure Pending where
  action : List Stmt
  iteration : Nat

/-- The lines logged, and the guards held by name in the order in which they were made. -/
structure State where
  log : List String := []
  held : List (String × Pending) := []

namespace State

/-- The state with one more line. -/
def line (s : State) (text : String) : State := { s with log := s.log ++ [text] }

/-- The first guard held under a name, and the others. -/
def take? (name : String) : List (String × Pending) → Option (Pending × List (String × Pending))
  | [] => none
  | (n, g) :: rest =>
    if n = name then some (g, rest) else (take? name rest).map fun r => (r.1, (n, g) :: r.2)

end State

/-- What a boundary lets through, and the state with what it logs. -/
def Boundary.absorb (b : Boundary) (outcome : Outcome) (s : State) : Outcome × State :=
  match b, outcome with
  | .plain, .exit (.outer 0) => (.normal, s)
  | .plain, .exit (.outer (n + 1)) => (.exit (.outer n), s)
  | .plain, o => (o, s)
  | .call, .exit (.failure v) => (.exit (.failure v), s)
  | .call, .exit (.panic v) => (.exit (.panic v), s)
  | .call, .aborted => (.aborted, s)
  | .call, _ => (.normal, s)
  | .attempt, .exit (.failure v) => (.normal, s.line ("caught " ++ v))
  | .attempt, o => (o, s)
  | .rescue, .exit (.panic v) => (.normal, s.line ("panic " ++ v))
  | .rescue, o => (o, s)

/-- The outcome of a block behind the action of one of its guards. The panic of the action takes
the place of any other outcome, but no program outlives two panics at once. -/
def Outcome.afterAction (outcome action : Outcome) : Outcome :=
  match outcome, action with
  | _, .aborted => .aborted
  | .exit (.panic _), .exit (.panic _) => .aborted
  | _, .exit (.panic v) => .exit (.panic v)
  | o, _ => o

namespace State

mutual

/-- Runs the rest of a block. The guards bound so far are given last first. -/
def runList (block : List Stmt) (iteration : Nat) (guards : List Pending) (s : State) :
    Option (Outcome × State) :=
  match block with
  | [] => s |>.unwind guards .normal
  | .defer action :: rest => s |>.runList rest iteration (⟨action, iteration⟩ :: guards)
  | stmt :: rest => do
    match ← s |>.runStmt stmt iteration with
    | (.normal, s) => s |>.runList rest iteration guards
    | (.exit e, s) => s |>.unwind guards (.exit e)
    | (.aborted, s) => some (.aborted, s)
partial_fixpoint

/-- Fires the guards of a block that is left, unless the program ends. -/
def unwind (guards : List Pending) (outcome : Outcome) (s : State) : Option (Outcome × State) :=
  match guards with
  | [] => some (outcome, s)
  | g :: guards => do
    let (action, s) ← s |>.runList g.action g.iteration []
    match outcome.afterAction action with
    | .aborted => some (.aborted, s)
    | outcome => s |>.unwind guards outcome
partial_fixpoint

/-- Runs one statement. A guard is bound by the block around it, not here. -/
def runStmt (stmt : Stmt) (iteration : Nat) (s : State) : Option (Outcome × State) :=
  match stmt with
  | .log line => some (.normal, s.line line)
  | .defer _ => some (.normal, s)
  | .block boundary body => do
    let (outcome, s) ← s |>.runList body iteration []
    return boundary.absorb outcome s
  | .when wanted body =>
    if wanted = iteration then s |>.runList body iteration [] else some (.normal, s)
  | .loop times body => s |>.runLoop times 0 body
  | .leave exit => some (.exit exit, s)
  | .hold name action =>
    some (.normal, { s with held := s.held ++ [(name, ⟨action, iteration⟩)] })
  | .release name =>
    match take? name s.held with
    | none => some (.normal, s)
    | some (g, held) => do
      let rest := { s with held }
      let (action, s) ← rest |>.runList g.action g.iteration []
      return (Outcome.afterAction .normal action, s)
partial_fixpoint

/-- Runs a block so many times more, with the number of the next iteration. -/
def runLoop (times iteration : Nat) (body : List Stmt) (s : State) : Option (Outcome × State) :=
  match times with
  | 0 => some (.normal, s)
  | times + 1 => do
    match ← s |>.runList body iteration [] with
    | (.normal, s) => s |>.runLoop times (iteration + 1) body
    | (.exit .continueLoop, s) => s |>.runLoop times (iteration + 1) body
    | (.exit .breakLoop, s) => some (.normal, s)
    | (outcome, s) => some (outcome, s)
partial_fixpoint

end

/-- Drops the guards that are still held, in the order in which they were made, also those
made meanwhile, unless the program ends. -/
def dropHeld (s : State) : Option (Outcome × State) :=
  match s.held with
  | [] => some (.normal, s)
  | (_, g) :: held => do
    let rest := { s with held }
    match ← rest.runList g.action g.iteration [] with
    | (.aborted, s) => some (.aborted, s)
    | (_, s) => s |>.dropHeld
partial_fixpoint

@[simp] theorem dropHeld_nil (log : List String) :
    dropHeld ⟨log, []⟩ = some (.normal, ⟨log, []⟩) := by
  rw [dropHeld.eq_def]

end State

/-- What a run reports: how the outermost block was left, unless the program ended, the lines
logged by then, and those logged while the held guards were dropped. -/
structure Report where
  outcome : Outcome
  log : List String
  heldLog : List String

/-- Runs a block and drops the guards held at its end. -/
def execute (body : List Stmt) : Option Report := do
  match ← State.runList body 0 [] {} with
  | (.aborted, s) => return ⟨.aborted, s.log, []⟩
  | (outcome, s) =>
    let (ending, last) ← s.dropHeld
    return ⟨if ending = .aborted then .aborted else outcome, s.log, last.log.drop s.log.length⟩

end SupportLayer.Guard
