/-
# Sessions

What generated C code does in one run: it makes and frees sequences by handles that have
names, prints, and defers actions. An action is a script, a list of further calls under a
name, or the freeing of a handle. A name that was never bound, or whose handle was freed,
stands for the null handle; binding a name again frees the handle it had. A panic ends the
program, and then the session has no answer.

Key definitions: `Session.Operation`, `Session.Reply`, `Session.Action`, `Session.Store`,
`Session.perform`, `Session.host`, `Session.Served.ended`, `Session.run`.
Key theorem: `Session.perform_quiet`.
-/
import SupportLayer.Print.Directive
import SupportLayer.Scope.Agenda
import SupportLayer.Shelf

namespace SupportLayer.Session

/-- The handles by name. -/
abbrev Names := List (String × Nat)

/-- The live sequences and the names of their handles. -/
structure Store where
  shelf : Shelf := {}
  names : Names := []

namespace Store

/-- The handle of a name. -/
def handle (store : Store) (name : String) : Shelf.Handle :=
  (store.names.find? fun entry => entry.1 = name).map (·.2)

/-- The store with the handle of a name freed and the name unbound. -/
def free (store : Store) (name : String) : Store :=
  { shelf := store.shelf.free (store.handle name)
    names := store.names.filter fun entry => entry.1 ≠ name }

/-- The store with a name bound to a new handle, and the handle it had freed. -/
def bind (store : Store) (name : String) : Shelf.Handle × Shelf → Store
  | (some number, shelf) =>
    let freed := { store with shelf }.free name
    { freed with names := freed.names ++ [(name, number)] }
  | (none, shelf) => { store with shelf }.free name

end Store

/-- The operations besides those on frames. -/
inductive Operation where
  | create (h : String) (room : Nat)
  | fill (h : String) (values : Option (List Int64)) (count : Nat)
  | copy (h target : String)
  | transfer (h target : String)
  | free (h : String)
  | length (h : String)
  | push (h : String) (value : Int64)
  | get (h : String) (index : Nat)
  | pop (h : String)
  | set (h : String) (index : Nat) (value : Int64)
  | tryGet (h : String) (index : Nat) (cell : Option Int64)
  | tryPop (h : String) (cell : Option Int64)
  | data (h : String)
  | print (h : String) (stdout : Sink)
  | println (format : StringHandle) (args : Print.Arguments) (stdout : Sink)
  | printUnchecked (format : StringHandle) (args : Print.Arguments) (stdout : Sink)

/-- What an operation answers. -/
inductive Reply where
  | nothing
  | handle (null : Bool)
  | number (n : Int)
  /-- The operation is only for callers who know more than holds here. -/
  | outOfContract
  /-- The program has ended. -/
  | panicked (p : Panic)
  | status (code : Status) (cell : Option Int64)
  | data (null : Bool) (values : List Int64)
  | printed (code : Int) (out : Bytes)
  | counted (answer : Except Fault Nat) (out : Bytes)

/-- The reply of an operation that makes a handle, and the store with the handle bound. -/
def bound (store : Store) (name : String) (made : Shelf.Handle × Shelf) :
    Reply × List LogRecord × Store :=
  (.handle made.1.isNone, [], store.bind name made)

/-- What an operation answers, logs and does to the store. -/
def perform (operation : Operation) (store : Store) : Reply × List LogRecord × Store :=
  match operation with
  | .create h room =>
    match store.shelf.create room with
    | .ok made => bound store h made
    | .error p => (.panicked p, [], store)
  | .fill h values count => bound store h (store.shelf.fill values count)
  | .copy h target => bound store target (store.shelf.copy (store.handle h))
  | .transfer h target => bound store target (store.shelf.transfer (store.handle h))
  | .free h => (.nothing, [], store.free h)
  | .length h => (.number (store.shelf.length (store.handle h)), [], store)
  | .push h value =>
    let (n, shelf) := store.shelf.push (store.handle h) value
    (.number n, [], { store with shelf })
  | .get h index =>
    match store.shelf.get (store.handle h) index with
    | some value => (.number value.toInt, [], store)
    | none => (.outOfContract, [], store)
  | .pop h =>
    match store.shelf.pop (store.handle h) with
    | some (value, shelf) => (.number value.toInt, [], { store with shelf })
    | none => (.outOfContract, [], store)
  | .set h index value =>
    match store.shelf.set (store.handle h) index value with
    | some shelf => (.nothing, [], { store with shelf })
    | none => (.outOfContract, [], store)
  | .tryGet h index cell =>
    let (code, cell) := store.shelf.tryGet (store.handle h) index cell
    (.status code cell, [], store)
  | .tryPop h cell =>
    let ((code, cell), shelf) := store.shelf.tryPop (store.handle h) cell
    (.status code cell, [], { store with shelf })
  | .data h =>
    (.data (store.handle h).isNone (store.shelf.contents (store.handle h)).toList, [], store)
  | .print h stdout =>
    let (code, sink, log) := store.shelf.print (store.handle h) stdout
    (.printed code.code sink.held, log, store)
  | .println format args stdout =>
    let (code, sink, log) := Print.println stdout format args
    (.printed code sink.held, log, store)
  | .printUnchecked format args stdout =>
    let printed := Print.printUnchecked stdout format.contents args
    (.counted printed.answer printed.sink.held, printed.log, store)

/-- What an operation logs is about printing, never about frames. -/
theorem perform_quiet (operation : Operation) (store : Store) :
    ∀ record ∈ (perform operation store).2.1, record.ofFrames = false := by
  cases operation with
  | create h room => simp only [perform]; split <;> simp [bound]
  | get h index => simp only [perform]; split <;> simp
  | pop h => simp only [perform]; split <;> simp
  | set h index value => simp only [perform]; split <;> simp
  | print h stdout => exact store.shelf.print_quiet _ _
  | println format args stdout => exact Print.printUnchecked_quiet _ _ _
  | printUnchecked format args stdout => exact Print.printUnchecked_quiet _ _ _
  | _ => simp [perform, bound]

/-- A deferred action. -/
inductive Action where
  | script (name : String)
  | freeing (handle : String)
  deriving DecidableEq, Repr

/-- A call of a session. -/
abbrev Call := Scope.Call Action Operation

/-- Something that happens in a session. -/
abbrev Event := Scope.Event Action Operation Reply

/-- The calls of each script; a script that is not listed makes none. -/
abbrev Scripts := List (String × List Call)

/-- The calls that an action makes. -/
def body (scripts : Scripts) : Action → List Call
  | .script name => ((scripts.find? fun entry => entry.1 = name).map (·.2)).getD []
  | .freeing _ => []

/-- What the firing of an action does at once. -/
def fire : Action → Store → Store
  | .script _, store => store
  | .freeing h, store => store.free h

/-- What actions and operations mean in a session. -/
def host (scripts : Scripts) : Scope.Host Action Operation Store Reply :=
  { body := body scripts, fire := fire, perform := perform, quiet := perform_quiet }

/-- A call of the program that was served. -/
abbrev Served := Scope.Served Action Operation Reply

/-- The answer is that the program has ended. -/
def ends : Scope.Answer Reply → Bool
  | .other (.panicked _) => true
  | _ => false

/-- The program ended at a call, or at one that an action made meanwhile. -/
def Served.ended (served : Served) : Bool :=
  ends served.answer || served.events.any fun
    | .answered _ answer => ends answer
    | _ => false

/-- A session from the start, if its scripts come to an end and none of its calls ends the
program. -/
def run (scripts : Scripts) (calls : List Call) :
    Option (List Served × Scope.State Action Store) := do
  let (served, last) ← (host scripts).run ⟨[], {}⟩ calls
  if served.any Served.ended then none else some (served, last)

end SupportLayer.Session
