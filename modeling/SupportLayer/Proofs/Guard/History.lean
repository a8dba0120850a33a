/-
# The history of a run with guards

A run is told event by event: which blocks are entered and left, where a guard is bound or given
away under a name, and when its action starts. Blocks and guards are numbered by the events
before them, so no number is given twice. A part of a run, be it a block, what is left of one, a
statement or the turns of a loop, happens as `Runs` says, rule by rule as the part is run, and
what is run is what the rules say (`Runs.run_eq`). Where the program ends in a block, nothing
happens any more and the block is not left.

Every part comes to an end (`exists_runs`). A guard weighs more than a block of its action, a
loop its turns, and a guard that is held keeps its weight until it is released; so each part
weighs more than what is left to run behind any of its own parts.

Key definitions: `Guard.Event`, `Guard.Part`, `Guard.Runs`, `Guard.Chronicle`.
Key theorems: `Guard.Runs.run_eq`, `Guard.exists_runs`, `Guard.Chronicle.execute_eq`,
`Guard.exists_chronicle`.
-/
import Mathlib
import SupportLayer.Guard

namespace SupportLayer.Guard

/-- What a block is entered for: as a statement, as a turn of a loop, behind the turn that ran as
the block `previous`, or as the action of a guard. -/
inductive Cause where
  | statement
  | turn (previous : Option ℕ)
  | action (guard : ℕ)
  deriving DecidableEq, Repr

/-- What a guard belonged to when it fired: the block that it was bound in, the statement that
released it and stands in a block, or the guards that are held by name. -/
inductive Owner where
  | block (number : ℕ)
  | release (block : ℕ)
  | held
  deriving DecidableEq, Repr

/-- Something that happens in a run. Blocks and guards are told by their numbers. -/
inductive Event where
  | line (text : String)
  | entered (block : ℕ) (cause : Cause)
  /-- A guard is bound in a block. -/
  | bound (guard block : ℕ)
  /-- The statements of a block are done with, its guards are not. -/
  | leaving (block : ℕ) (outcome : Outcome)
  | left (block : ℕ) (outcome : Outcome)
  /-- A guard is made and given away under a name. -/
  | held (guard : ℕ)
  /-- The guards that are held by name are given up. -/
  | closing
  /-- The action of a guard starts. -/
  | fired (guard : ℕ) (owner : Owner)
  deriving DecidableEq, Repr

/-- The line that an event logs. -/
def Event.line? : Event → Option String
  | line text => some text
  | _ => none

/-- The lines that are logged. -/
def lines (events : List Event) : List String := events.filterMap Event.line?

/-- A block is left, unless the program ends in it. -/
def Outcome.departure (outcome : Outcome) (block : ℕ) : List Event :=
  if outcome = .aborted then [] else [.left block outcome]

/-- A guard that has not fired, with its number. -/
structure Armed where
  number : ℕ
  guard : Pending

/-- The guards held by name, in the order in which they were made. -/
abbrev Held := List (String × Armed)

/-- The guards without their numbers. -/
def Held.guards (held : Held) : List (String × Pending) := held.map fun e => (e.1, e.2.guard)

/-- A part of a run: a block; what is left of a block with a number, and its guards, the last one
first; the guards of a block that is left; a statement in a block with a number; the turns of a
loop that are left; the guards held at the end. -/
inductive Part where
  | block (cause : Cause) (body : List Stmt) (iteration : ℕ)
  | rest (number : ℕ) (body : List Stmt) (iteration : ℕ) (guards : List Armed)
  | unwind (number : ℕ) (guards : List Armed) (outcome : Outcome)
  | stmt (number : ℕ) (stmt : Stmt) (iteration : ℕ)
  | turns (times iteration : ℕ) (body : List Stmt) (previous : Option ℕ)
  | held

/-- How a part of a run happens behind `n` other events: what happens, how it ends, and which
guards are held before and behind it. -/
inductive Runs : Part → ℕ → Held → List Event → Outcome → Held → Prop where
  /-- A block is entered and run, and left unless the program ends. -/
  | block {cause body iteration n held events outcome held'} :
    Runs (.rest n body iteration []) (n + 1) held events outcome held' →
      Runs (.block cause body iteration) n held
        (.entered n cause :: (events ++ outcome.departure n)) outcome held'
  /-- Control runs off the end of a block. -/
  | done {number iteration guards n held events outcome held'} :
    Runs (.unwind number guards .normal) (n + 1) held events outcome held' →
      Runs (.rest number [] iteration guards) n held (.leaving number .normal :: events) outcome
        held'
  /-- A guard is bound. -/
  | bind {number action body iteration guards n held events outcome held'} :
    Runs (.rest number body iteration (⟨n, ⟨action, iteration⟩⟩ :: guards)) (n + 1) held events
        outcome held' →
      Runs (.rest number (.defer action :: body) iteration guards) n held
        (.bound n number :: events) outcome held'
  /-- A statement is run, and control goes on behind it. -/
  | next {number stmt body iteration guards n held events held' later outcome held''} :
    (∀ action, stmt ≠ .defer action) →
    Runs (.stmt number stmt iteration) n held events .normal held' →
    Runs (.rest number body iteration guards) (n + events.length) held' later outcome held'' →
      Runs (.rest number (stmt :: body) iteration guards) n held (events ++ later) outcome held''
  /-- A statement is run, and control leaves the block. -/
  | exit {number stmt body iteration guards n held events exit held' later outcome held''} :
    (∀ action, stmt ≠ .defer action) →
    Runs (.stmt number stmt iteration) n held events (.exit exit) held' →
    Runs (.unwind number guards (.exit exit)) (n + events.length + 1) held' later outcome held'' →
      Runs (.rest number (stmt :: body) iteration guards) n held
        (events ++ .leaving number (.exit exit) :: later) outcome held''
  /-- The program ends in a statement, and no guard of the block fires. -/
  | halted {number stmt body iteration guards n held events held'} :
    (∀ action, stmt ≠ .defer action) →
    Runs (.stmt number stmt iteration) n held events .aborted held' →
      Runs (.rest number (stmt :: body) iteration guards) n held events .aborted held'
  /-- No guard of the block is left. -/
  | unwound {number outcome n held} : Runs (.unwind number [] outcome) n held [] outcome held
  /-- The last guard of the block fires, and then the others. -/
  | fire {number guard guards outcome n held events action held' later outcome' held''} :
    outcome.afterAction action ≠ .aborted →
    Runs (.block (.action guard.number) guard.guard.action guard.guard.iteration) (n + 1) held
        events action held' →
    Runs (.unwind number guards (outcome.afterAction action)) (n + 1 + events.length) held' later
        outcome' held'' →
      Runs (.unwind number (guard :: guards) outcome) n held
        (.fired guard.number (.block number) :: (events ++ later)) outcome' held''
  /-- The last guard of the block fires, and the program ends. -/
  | lastFire {number guard guards outcome n held events action held'} :
    outcome.afterAction action = .aborted →
    Runs (.block (.action guard.number) guard.guard.action guard.guard.iteration) (n + 1) held
        events action held' →
      Runs (.unwind number (guard :: guards) outcome) n held
        (.fired guard.number (.block number) :: events) .aborted held'
  /-- A guard is bound by the block around it. -/
  | unbound {number action iteration n held} :
    Runs (.stmt number (.defer action) iteration) n held [] .normal held
  | log {number text iteration n held} :
    Runs (.stmt number (.log text) iteration) n held [.line text] .normal held
  /-- A nested block is run, and its boundary absorbs what it does. -/
  | nested {number boundary body iteration n held events outcome held'} :
    Runs (.block .statement body iteration) n held events outcome held' →
      Runs (.stmt number (.block boundary body) iteration) n held
        (events ++ (boundary.absorb outcome {}).2.log.map .line) (boundary.absorb outcome {}).1 held'
  | wanted {number body iteration n held events outcome held'} :
    Runs (.block .statement body iteration) n held events outcome held' →
      Runs (.stmt number (.when iteration body) iteration) n held events outcome held'
  | unwanted {number wanted body iteration n held} : wanted ≠ iteration →
      Runs (.stmt number (.when wanted body) iteration) n held [] .normal held
  | loop {number times body iteration n held events outcome held'} :
    Runs (.turns times 0 body none) n held events outcome held' →
      Runs (.stmt number (.loop times body) iteration) n held events outcome held'
  | leave {number exit iteration n held} :
    Runs (.stmt number (.leave exit) iteration) n held [] (.exit exit) held
  /-- A guard is made and given away. -/
  | hold {number name action iteration n held} :
    Runs (.stmt number (.hold name action) iteration) n held [.held n] .normal
      (held ++ [(name, ⟨n, ⟨action, iteration⟩⟩)])
  | missing {number name iteration n held} : (∀ e ∈ held, e.1 ≠ name) →
      Runs (.stmt number (.release name) iteration) n held [] .normal held
  /-- The first guard that is held under the name fires. -/
  | release {number name guard iteration n before after events action held'} :
    (∀ e ∈ before, e.1 ≠ name) →
    Runs (.block (.action guard.number) guard.guard.action guard.guard.iteration) (n + 1)
        (before ++ after) events action held' →
      Runs (.stmt number (.release name) iteration) n (before ++ (name, guard) :: after)
        (.fired guard.number (.release number) :: events) (Outcome.afterAction .normal action) held'
  /-- No turn is left. -/
  | finished {iteration body previous n held} :
    Runs (.turns 0 iteration body previous) n held [] .normal held
  /-- A turn is run, and the loop goes on. -/
  | turn {times iteration body previous n held events outcome held' later outcome' held''} :
    outcome = .normal ∨ outcome = .exit .continueLoop →
    Runs (.block (.turn previous) body iteration) n held events outcome held' →
    Runs (.turns times (iteration + 1) body (some n)) (n + events.length) held' later outcome'
        held'' →
      Runs (.turns (times + 1) iteration body previous) n held (events ++ later) outcome' held''
  /-- A turn is run, and the loop does not go on. -/
  | stop {times iteration body previous n held events outcome held'} :
    outcome ≠ .normal → outcome ≠ .exit .continueLoop →
    Runs (.block (.turn previous) body iteration) n held events outcome held' →
      Runs (.turns (times + 1) iteration body previous) n held events
        (if outcome = .exit .breakLoop then .normal else outcome) held'
  /-- No guard is held any more. -/
  | dropped {n} : Runs .held n [] [] .normal []
  /-- The first guard that is held at the end fires, and then the others. -/
  | drop {name guard n held events action held' later outcome held''} : action ≠ .aborted →
    Runs (.block (.action guard.number) guard.guard.action guard.guard.iteration) (n + 1) held
        events action held' →
    Runs .held (n + 1 + events.length) held' later outcome held'' →
      Runs .held n ((name, guard) :: held) (.fired guard.number .held :: (events ++ later)) outcome
        held''
  /-- The first guard that is held at the end fires, and the program ends. -/
  | lastDrop {name guard n held events held'} :
    Runs (.block (.action guard.number) guard.guard.action guard.guard.iteration) (n + 1) held
        events .aborted held' →
      Runs .held n ((name, guard) :: held) (.fired guard.number .held :: events) .aborted held'

/-! ### What is run is what the rules say -/

/-- A part as it is run. -/
def Part.run (s : State) : Part → Option (Outcome × State)
  | .block _ body iteration => s.runList body iteration []
  | .rest _ body iteration guards => s.runList body iteration (guards.map Armed.guard)
  | .unwind _ guards outcome => s.unwind (guards.map Armed.guard) outcome
  | .stmt _ one iteration => s.runStmt one iteration
  | .turns times iteration body _ => s.runLoop times iteration body
  | .held => s.dropHeld

@[simp] theorem lines_nil : lines [] = [] := rfl

@[simp] theorem lines_cons (e : Event) (events : List Event) :
    lines (e :: events) = e.line?.toList ++ lines events := by
  cases e <;> rfl

@[simp] theorem lines_append (events later : List Event) :
    lines (events ++ later) = lines events ++ lines later := List.filterMap_append

@[simp] theorem lines_map_line (texts : List String) : lines (texts.map .line) = texts := by
  simp [lines, Event.line?, Function.comp_def]

namespace State

variable {stmt : Stmt} {body rest : List Stmt} {iteration times : ℕ} {g : Pending}
  {guards : List Pending} {outcome : Outcome} {s s' : State}

theorem runList_next (hs : ∀ action, stmt ≠ .defer action)
    (h : runStmt stmt iteration s = some (.normal, s')) :
    runList (stmt :: rest) iteration guards s = runList rest iteration guards s' := by
  rw [runList, h]
  · rfl
  · exact hs

theorem runList_exit {exit : Exit} (hs : ∀ action, stmt ≠ .defer action)
    (h : runStmt stmt iteration s = some (.exit exit, s')) :
    runList (stmt :: rest) iteration guards s = unwind guards (.exit exit) s' := by
  rw [runList, h]
  · rfl
  · exact hs

theorem runList_aborted (hs : ∀ action, stmt ≠ .defer action)
    (h : runStmt stmt iteration s = some (.aborted, s')) :
    runList (stmt :: rest) iteration guards s = some (.aborted, s') := by
  rw [runList, h]
  · rfl
  · exact hs

theorem unwind_cons {action : Outcome} (hgo : outcome.afterAction action ≠ .aborted)
    (h : runList g.action g.iteration [] s = some (action, s')) :
    unwind (g :: guards) outcome s = unwind guards (outcome.afterAction action) s' := by
  rw [unwind, h]
  cases hafter : outcome.afterAction action with
  | aborted => exact absurd hafter hgo
  | _ => simp [hafter]

theorem unwind_aborted {action : Outcome} (hend : outcome.afterAction action = .aborted)
    (h : runList g.action g.iteration [] s = some (action, s')) :
    unwind (g :: guards) outcome s = some (.aborted, s') := by
  rw [unwind, h]
  simp [hend]

theorem runLoop_turn (ho : outcome = .normal ∨ outcome = .exit .continueLoop)
    (h : runList body iteration [] s = some (outcome, s')) :
    runLoop (times + 1) iteration body s = runLoop times (iteration + 1) body s' := by
  rw [runLoop, h]
  rcases ho with rfl | rfl <;> rfl

theorem runLoop_stop (hn : outcome ≠ .normal) (hc : outcome ≠ .exit .continueLoop)
    (h : runList body iteration [] s = some (outcome, s')) :
    runLoop (times + 1) iteration body s =
      some (if outcome = .exit .breakLoop then .normal else outcome, s') := by
  rw [runLoop, h]
  cases outcome with
  | normal => exact absurd rfl hn
  | aborted => rfl
  | exit e =>
    cases e with
    | continueLoop => exact absurd rfl hc
    | _ => rfl

section Drop

variable {name : String} {held : List (String × Pending)} {action : Outcome}

theorem dropHeld_cons (hs : s.held = (name, g) :: held) (hgo : action ≠ .aborted)
    (h : runList g.action g.iteration [] { s with held } = some (action, s')) :
    s.dropHeld = s'.dropHeld := by
  rw [dropHeld.eq_def, hs]
  cases action with
  | aborted => exact absurd rfl hgo
  | _ => simp [h]

theorem dropHeld_aborted (hs : s.held = (name, g) :: held)
    (h : runList g.action g.iteration [] { s with held } = some (.aborted, s')) :
    s.dropHeld = some (.aborted, s') := by
  rw [dropHeld.eq_def, hs]
  simp [h]

end Drop

end State

theorem absorb_eq (b : Boundary) (outcome : Outcome) (s : State) :
    b.absorb outcome s =
      ((b.absorb outcome {}).1, { s with log := s.log ++ (b.absorb outcome {}).2.log }) := by
  unfold Boundary.absorb
  split <;> simp [State.line]

@[simp] theorem lines_departure (outcome : Outcome) (block : ℕ) :
    lines (outcome.departure block) = [] := by
  unfold Outcome.departure
  split <;> rfl

theorem take?_eq_none {name : String} {held : Held} (h : ∀ e ∈ held, e.1 ≠ name) :
    State.take? name held.guards = none := by
  induction held with
  | nil => rfl
  | cons e held ih =>
    rw [List.forall_mem_cons] at h
    have := ih h.2
    simp [Held.guards, State.take?, h.1] at this ⊢
    exact this

theorem take?_eq_some {name : String} {before after : Held} {g : Armed}
    (h : ∀ e ∈ before, e.1 ≠ name) :
    State.take? name (Held.guards (before ++ (name, g) :: after)) =
      some (g.guard, Held.guards (before ++ after)) := by
  induction before with
  | nil => simp [Held.guards, State.take?]
  | cons e before ih =>
    rw [List.forall_mem_cons] at h
    have := ih h.2
    simp [Held.guards, State.take?, h.1] at this ⊢
    exact this

/-- What is run is what the rules say. -/
theorem Runs.run_eq {part : Part} {n : ℕ} {held held' : Held} {events : List Event}
    {outcome : Outcome} (h : Runs part n held events outcome held') (log : List String) :
    part.run ⟨log, held.guards⟩ = some (outcome, ⟨log ++ lines events, held'.guards⟩) := by
  induction h generalizing log with
  | block _ ih => simpa [Part.run, Event.line?] using ih log
  | done _ ih =>
    rw [Part.run, State.runList]
    exact ih log
  | bind _ ih =>
    rw [Part.run, State.runList]
    exact ih log
  | next hs _ _ ih ih' =>
    rw [Part.run, State.runList_next hs (ih log), lines_append, ← List.append_assoc]
    exact ih' _
  | exit hs _ _ ih ih' =>
    rw [Part.run, State.runList_exit hs (ih log), lines_append, ← List.append_assoc]
    exact ih' _
  | unwound =>
    rw [Part.run, List.map_nil, State.unwind]
    simp
  | halted hs _ ih => exact State.runList_aborted hs (ih log)
  | @fire _ _ _ _ _ _ events _ _ _ _ _ hgo _ _ ih ih' =>
    rw [Part.run, List.map_cons, State.unwind_cons hgo (ih log)]
    simpa [Event.line?, Part.run] using ih' (log ++ lines events)
  | lastFire hend _ ih =>
    rw [Part.run, List.map_cons, State.unwind_aborted hend (ih log)]
    simp [Event.line?]
  | unbound =>
    rw [Part.run, State.runStmt]
    simp
  | log =>
    rw [Part.run, State.runStmt]
    rfl
  | nested _ ih =>
    have hbody := ih log
    rw [Part.run] at hbody
    rw [Part.run, State.runStmt, hbody]
    simp only [Option.bind_eq_bind, Option.bind_some, Option.pure_def]
    rw [absorb_eq]
    simp
  | wanted _ ih =>
    rw [Part.run, State.runStmt, if_pos rfl]
    exact ih log
  | unwanted hne =>
    rw [Part.run, State.runStmt, if_neg hne]
    simp
  | loop _ ih =>
    rw [Part.run, State.runStmt]
    exact ih log
  | leave =>
    rw [Part.run, State.runStmt]
    simp
  | hold =>
    rw [Part.run, State.runStmt]
    simp [Held.guards, Event.line?]
  | missing hn =>
    rw [Part.run, State.runStmt, take?_eq_none hn]
    simp
  | release hn _ ih =>
    have haction := ih log
    rw [Part.run] at haction
    rw [Part.run, State.runStmt, take?_eq_some hn]
    simp [haction, Event.line?]
  | finished =>
    rw [Part.run, State.runLoop]
    simp
  | turn ho _ _ ih ih' =>
    rw [Part.run, State.runLoop_turn ho (ih log), lines_append, ← List.append_assoc]
    exact ih' _
  | stop hn hc _ ih => exact State.runLoop_stop hn hc (ih log)
  | dropped =>
    rw [Part.run]
    simp [Held.guards]
  | @drop name guard _ held events _ held' _ _ _ hgo _ _ ih ih' =>
    have hlater := ih' (log ++ lines events)
    have hdrop : State.dropHeld ⟨log, Held.guards ((name, guard) :: held)⟩ =
        State.dropHeld ⟨log ++ lines events, held'.guards⟩ := State.dropHeld_cons rfl hgo (ih log)
    rw [Part.run] at hlater ⊢
    rw [hdrop, hlater]
    simp [Event.line?]
  | @lastDrop name guard _ held events _ _ ih =>
    have hdrop := State.dropHeld_aborted (s := ⟨log, Held.guards ((name, guard) :: held)⟩) rfl
      (ih log)
    rw [Part.run, hdrop]
    simp [Event.line?]

/-! ### Every part comes to an end -/

mutual

/-- What there is to run in a statement at most, its guards' actions included. -/
def Stmt.weight : Stmt → ℕ
  | .log _ | .leave _ | .release _ => 1
  | .defer body | .block _ body | .when _ body | .hold _ body => 4 + weights body
  | .loop times body => 2 + times * (3 + weights body)

def weights : List Stmt → ℕ
  | [] => 0
  | stmt :: body => stmt.weight + weights body

end

/-- The weight of the block that a guard fires. -/
def Armed.load (g : Armed) : ℕ := 3 + weights g.guard.action

def Held.load (held : Held) : ℕ := (held.map fun e => e.2.load).sum

def Part.load : Part → ℕ
  | .block _ body _ => 3 + weights body
  | .rest _ body _ guards => 2 + weights body + (guards.map Armed.load).sum
  | .unwind _ guards _ => 1 + (guards.map Armed.load).sum
  | .stmt _ one _ => one.weight
  | .turns times _ body _ => 1 + times * (3 + weights body)
  | .held => 1

@[simp] theorem Held.load_nil : Held.load [] = 0 := rfl

@[simp] theorem Held.load_cons (e : String × Armed) (held : Held) :
    Held.load (e :: held) = e.2.load + held.load := by
  simp [Held.load]

@[simp] theorem Held.load_append (before after : Held) :
    Held.load (before ++ after) = before.load + after.load := by
  simp [Held.load]

/-- A part comes to an end, and what is held then weighs less than what was there to run. -/
def Finishes (part : Part) (n : ℕ) (held : Held) : Prop :=
  ∃ events outcome held', Runs part n held events outcome held' ∧
    held'.load < part.load + held.load

/-- All that weighs less comes to an end. -/
def FinishesBelow (load : ℕ) : Prop :=
  ∀ part n (held : Held), part.load + held.load < load → Finishes part n held

section Finishes

variable {n iteration number times : ℕ} {held : Held} {body : List Stmt} {guards : List Armed}

theorem finishes_block {cause : Cause}
    (below : FinishesBelow ((Part.block cause body iteration).load + held.load)) :
    Finishes (.block cause body iteration) n held := by
  obtain ⟨events, outcome, held', hruns, hload⟩ :=
    below (.rest n body iteration []) (n + 1) held (by simp [Part.load])
  refine ⟨_, outcome, held', .block hruns, ?_⟩
  simp only [Part.load, List.map_nil, List.sum_nil] at hload ⊢
  omega

theorem finishes_unwind {outcome : Outcome}
    (below : FinishesBelow ((Part.unwind number guards outcome).load + held.load)) :
    Finishes (.unwind number guards outcome) n held := by
  cases guards with
  | nil => exact ⟨[], outcome, held, .unwound, by simp [Part.load]⟩
  | cons g guards =>
    simp only [Part.load, List.map_cons, List.sum_cons, Armed.load] at below
    obtain ⟨events, action, held', haction, hload⟩ :=
      below (.block (.action g.number) g.guard.action g.guard.iteration) (n + 1) held
        (by simp only [Part.load]; omega)
    simp only [Part.load] at hload
    by_cases hend : outcome.afterAction action = .aborted
    · refine ⟨_, .aborted, held', .lastFire hend haction, ?_⟩
      simp only [Part.load, List.map_cons, List.sum_cons, Armed.load]
      omega
    · obtain ⟨later, outcome', held'', hlater, hload'⟩ :=
        below (.unwind number guards (outcome.afterAction action)) (n + 1 + events.length) held'
          (by simp only [Part.load]; omega)
      refine ⟨_, outcome', held'', .fire hend haction hlater, ?_⟩
      simp only [Part.load, List.map_cons, List.sum_cons, Armed.load] at hload' ⊢
      omega

theorem finishes_rest
    (below : FinishesBelow ((Part.rest number body iteration guards).load + held.load)) :
    Finishes (.rest number body iteration guards) n held := by
  cases body with
  | nil =>
    obtain ⟨events, outcome, held', hruns, hload⟩ :=
      below (.unwind number guards .normal) (n + 1) held (by simp only [Part.load, weights]; omega)
    refine ⟨_, outcome, held', .done hruns, ?_⟩
    simp only [Part.load, weights] at hload ⊢
    omega
  | cons one body =>
    simp only [Part.load, weights] at below
    by_cases hdefer : ∃ action, one = .defer action
    · obtain ⟨action, rfl⟩ := hdefer
      simp only [Stmt.weight] at below
      obtain ⟨events, outcome, held', hruns, hload⟩ :=
        below (.rest number body iteration (⟨n, ⟨action, iteration⟩⟩ :: guards)) (n + 1) held
          (by simp only [Part.load, List.map_cons, List.sum_cons, Armed.load]; omega)
      refine ⟨_, outcome, held', .bind hruns, ?_⟩
      simp only [Part.load, weights, Stmt.weight, List.map_cons, List.sum_cons,
        Armed.load] at hload ⊢
      omega
    · have hs : ∀ action, one ≠ .defer action := fun action h => hdefer ⟨action, h⟩
      obtain ⟨events, outcome, held', hone, hload⟩ :=
        below (.stmt number one iteration) n held (by simp only [Part.load]; omega)
      simp only [Part.load] at hload
      cases outcome with
      | normal =>
        obtain ⟨later, outcome', held'', hlater, hload'⟩ :=
          below (.rest number body iteration guards) (n + events.length) held'
            (by simp only [Part.load]; omega)
        refine ⟨_, outcome', held'', .next hs hone hlater, ?_⟩
        simp only [Part.load, weights] at hload' ⊢
        omega
      | exit exit =>
        obtain ⟨later, outcome', held'', hlater, hload'⟩ :=
          below (.unwind number guards (.exit exit)) (n + events.length + 1) held'
            (by simp only [Part.load]; omega)
        refine ⟨_, outcome', held'', .exit hs hone hlater, ?_⟩
        simp only [Part.load, weights] at hload' ⊢
        omega
      | aborted =>
        refine ⟨events, .aborted, held', .halted hs hone, ?_⟩
        simp only [Part.load, weights]
        omega

theorem finishes_turns {previous : Option ℕ}
    (below : FinishesBelow ((Part.turns times iteration body previous).load + held.load)) :
    Finishes (.turns times iteration body previous) n held := by
  cases times with
  | zero => exact ⟨[], .normal, held, .finished, by simp [Part.load]⟩
  | succ times =>
    simp only [Part.load, Nat.succ_mul] at below
    obtain ⟨events, outcome, held', hturn, hload⟩ :=
      below (.block (.turn previous) body iteration) n held (by simp only [Part.load]; omega)
    simp only [Part.load] at hload
    by_cases ho : outcome = .normal ∨ outcome = .exit .continueLoop
    · obtain ⟨later, outcome', held'', hlater, hload'⟩ :=
        below (.turns times (iteration + 1) body (some n)) (n + events.length) held'
          (by simp only [Part.load]; omega)
      refine ⟨_, outcome', held'', .turn ho hturn hlater, ?_⟩
      simp only [Part.load, Nat.succ_mul] at hload' ⊢
      omega
    · rw [not_or] at ho
      refine ⟨events, _, held', .stop ho.1 ho.2 hturn, ?_⟩
      simp only [Part.load, Nat.succ_mul]
      omega

/-- A name under which no guard is held, or the first guard held under it. -/
theorem held_cases (name : String) (held : Held) :
    (∀ e ∈ held, e.1 ≠ name) ∨
      ∃ before guard after, held = before ++ (name, guard) :: after ∧ ∀ e ∈ before, e.1 ≠ name := by
  induction held with
  | nil => exact .inl (by simp)
  | cons e held ih =>
    by_cases he : e.1 = name
    · exact .inr ⟨[], e.2, held, by simp [← he], by simp⟩
    · rcases ih with hmissing | ⟨before, guard, after, rfl, hbefore⟩
      · exact .inl (List.forall_mem_cons.mpr ⟨he, hmissing⟩)
      · exact .inr ⟨e :: before, guard, after, rfl, List.forall_mem_cons.mpr ⟨he, hbefore⟩⟩

theorem finishes_stmt {one : Stmt}
    (below : FinishesBelow ((Part.stmt number one iteration).load + held.load)) :
    Finishes (.stmt number one iteration) n held := by
  cases one with
  | log text => exact ⟨_, .normal, held, .log, by simp [Part.load, Stmt.weight]⟩
  | defer action => exact ⟨[], .normal, held, .unbound, by simp [Part.load, Stmt.weight]⟩
  | block boundary body =>
    obtain ⟨events, outcome, held', hruns, hload⟩ :=
      below (.block .statement body iteration) n held (by simp [Part.load, Stmt.weight])
    refine ⟨_, _, held', .nested hruns, ?_⟩
    simp only [Part.load, Stmt.weight] at hload ⊢
    omega
  | when wanted body =>
    by_cases hw : wanted = iteration
    · subst hw
      obtain ⟨events, outcome, held', hruns, hload⟩ :=
        below (.block .statement body wanted) n held (by simp [Part.load, Stmt.weight])
      refine ⟨events, outcome, held', .wanted hruns, ?_⟩
      simp only [Part.load, Stmt.weight] at hload ⊢
      omega
    · exact ⟨[], .normal, held, .unwanted hw, by simp [Part.load, Stmt.weight]⟩
  | loop times body =>
    obtain ⟨events, outcome, held', hruns, hload⟩ :=
      below (.turns times 0 body none) n held (by simp [Part.load, Stmt.weight])
    refine ⟨events, outcome, held', .loop hruns, ?_⟩
    simp only [Part.load, Stmt.weight] at hload ⊢
    omega
  | leave exit => exact ⟨[], _, held, .leave, by simp [Part.load, Stmt.weight]⟩
  | hold name action =>
    refine ⟨_, .normal, _, .hold, ?_⟩
    simp [Part.load, Stmt.weight, Armed.load]
    omega
  | release name =>
    rcases held_cases name held with hmissing | ⟨before, guard, after, rfl, hbefore⟩
    · exact ⟨[], .normal, held, .missing hmissing, by simp [Part.load, Stmt.weight]⟩
    · simp only [Part.load, Stmt.weight, Held.load_append, Held.load_cons, Armed.load] at below
      obtain ⟨events, action, held', haction, hload⟩ :=
        below (.block (.action guard.number) guard.guard.action guard.guard.iteration) (n + 1)
          (before ++ after) (by simp only [Part.load, Held.load_append]; omega)
      refine ⟨_, _, held', .release hbefore haction, ?_⟩
      simp only [Part.load, Stmt.weight, Held.load_append, Held.load_cons, Armed.load] at hload ⊢
      omega

theorem Runs.held_end {events : List Event} {outcome : Outcome} {held' : Held}
    (h : Runs .held n held events outcome held') :
    outcome = .normal ∧ held' = [] ∨ outcome = .aborted := by
  generalize hpart : Part.held = part at h
  induction h with
  | dropped => exact .inl ⟨rfl, rfl⟩
  | drop _ _ _ _ ih => exact ih rfl
  | lastDrop => exact .inr rfl
  | _ => cases hpart

theorem finishes_held (below : FinishesBelow (Part.held.load + held.load)) :
    Finishes .held n held := by
  cases held with
  | nil => exact ⟨[], .normal, [], .dropped, by simp [Part.load]⟩
  | cons e held =>
    simp only [Part.load, Held.load_cons, Armed.load] at below
    obtain ⟨events, action, held', haction, hload⟩ :=
      below (.block (.action e.2.number) e.2.guard.action e.2.guard.iteration) (n + 1) held
        (by simp only [Part.load]; omega)
    simp only [Part.load] at hload
    by_cases hend : action = .aborted
    · subst hend
      refine ⟨_, .aborted, held', .lastDrop haction, ?_⟩
      simp only [Part.load, Held.load_cons, Armed.load]
      omega
    · obtain ⟨later, outcome, held'', hlater, hload'⟩ :=
        below .held (n + 1 + events.length) held' (by simp only [Part.load]; omega)
      refine ⟨_, outcome, held'', .drop hend haction hlater, ?_⟩
      simp only [Part.load, Held.load_cons, Armed.load] at hload' ⊢
      omega

end Finishes

/-- Every part comes to an end, whatever guards are held when it starts. -/
theorem exists_runs (part : Part) (n : ℕ) (held : Held) : Finishes part n held := by
  induction hload : part.load + held.load using Nat.strong_induction_on
    generalizing part n held with
  | _ load ih =>
    subst hload
    have below : FinishesBelow (part.load + held.load) :=
      fun part' n' held' h => ih _ h part' n' held' rfl
    cases part with
    | block => exact finishes_block below
    | rest => exact finishes_rest below
    | unwind => exact finishes_unwind below
    | stmt => exact finishes_stmt below
    | turns => exact finishes_turns below
    | held => exact finishes_held below

/-! ### The history of a program -/

/-- The history of a program and its report: its block is run with no guard held, and the guards
held at its end fire, unless the program has ended. -/
inductive Chronicle (body : List Stmt) : List Event → Report → Prop where
  | complete {events drops outcome held ending held'} : outcome ≠ .aborted →
    Runs (.block .statement body 0) 0 [] events outcome held →
    Runs .held (events.length + 1) held drops ending held' →
      Chronicle body (events ++ .closing :: drops)
        ⟨if ending = .aborted then .aborted else outcome, lines events, lines drops⟩
  | aborted {events held} : Runs (.block .statement body 0) 0 [] events .aborted held →
      Chronicle body events ⟨.aborted, lines events, []⟩

theorem Chronicle.execute_eq {body : List Stmt} {history : List Event} {report : Report}
    (h : Chronicle body history report) : execute body = some report := by
  cases h with
  | @complete events drops outcome held ending held' hgo hbody hdrops =>
    have hrun : State.runList body 0 [] {} = some (outcome, ⟨lines events, held.guards⟩) := by
      simpa [Part.run, Held.guards] using hbody.run_eq []
    have hdrop : State.dropHeld ⟨lines events, held.guards⟩ =
        some (ending, ⟨lines events ++ lines drops, held'.guards⟩) := by
      simpa [Part.run, Held.guards] using hdrops.run_eq (lines events)
    rw [execute, hrun]
    cases outcome with
    | aborted => exact absurd rfl hgo
    | _ => simp [hdrop]
  | @aborted _ held hbody =>
    have hrun : State.runList body 0 [] {} = some (.aborted, ⟨lines history, held.guards⟩) := by
      simpa [Part.run, Held.guards] using hbody.run_eq []
    rw [execute, hrun]
    rfl

theorem exists_chronicle (body : List Stmt) : ∃ history report, Chronicle body history report := by
  obtain ⟨events, outcome, held, hbody, -⟩ := exists_runs (.block .statement body 0) 0 []
  by_cases hend : outcome = .aborted
  · subst hend
    exact ⟨_, _, .aborted hbody⟩
  · obtain ⟨drops, ending, held', hdrops, -⟩ := exists_runs .held (events.length + 1) held
    exact ⟨_, _, .complete hend hbody hdrops⟩

end SupportLayer.Guard
