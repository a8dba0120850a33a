/-
# The records account for the frames

A frame is opened by an enter, which writes a record with the depth, or for a deferral with no
frame open, which warns of it; it is closed by an exit, which writes a record with the number of
its actions before the first of them fires. So at each point of a run the records tell how many
frames are open, and how many actions have fired or are due (`Tallied`), whatever the scripts do
to the frames in between: a step changes both sides alike.

A record of an opened frame, and a warning of an exit with no frame open, is written in the step
that it is about, and the call is answered in the same step (`Host.Passes.serves_entered`,
`Host.Passes.serves_unopened`).

Key definitions: `Scope.records`, `Scope.entries`, `Scope.exits`, `Scope.implied`,
`Scope.Tallied`, `Scope.Host.Passes`, `Scope.Host.Serves`.
Key theorems: `Scope.Tallied.step`, `Scope.Host.Passes.tallied`, `Scope.Host.Passes.located`,
`Scope.records_account`.
-/
import Mathlib
import SupportLayer.Proofs.Scope.Balance
import SupportLayer.Session

namespace SupportLayer

namespace LogRecord

/-- The depth that the record of an opened frame gives. -/
def depth? : LogRecord → Option ℕ
  | scopeEntered depth => some depth
  | _ => none

/-- The number of actions that the record of a closed frame gives. -/
def actions? : LogRecord → Option ℕ
  | scopeLeft actions => some actions
  | _ => none

theorem depth?_quiet {r : LogRecord} (h : r.ofFrames = false) : r.depth? = none := by
  cases r with
  | scopeEntered depth => cases h
  | _ => rfl

theorem actions?_quiet {r : LogRecord} (h : r.ofFrames = false) : r.actions? = none := by
  cases r with
  | scopeLeft actions => cases h
  | _ => rfl

end LogRecord

namespace Scope

variable {α β σ ρ : Type}

/-! ### What the records say -/

/-- The record that an event writes. -/
def Event.record? : Event α β ρ → Option LogRecord
  | logged record => some record
  | _ => none

/-- The records of a history. -/
def records (events : List (Event α β ρ)) : List LogRecord := events.filterMap Event.record?

/-- The depths that the records of opened frames give, one for each of these records. -/
def entries (events : List (Event α β ρ)) : List ℕ :=
  (records events).filterMap LogRecord.depth?

/-- The numbers of actions that the records of closed frames give, one for each of these
records. -/
def exits (events : List (Event α β ρ)) : List ℕ :=
  (records events).filterMap LogRecord.actions?

/-- How many warnings there are of a frame that a deferral opened. -/
def implied (events : List (Event α β ρ)) : ℕ := (records events).count .scopeImplied

section

variable (past events : List (Event α β ρ))

theorem records_append : records (past ++ events) = records past ++ records events :=
  List.filterMap_append

@[simp] theorem entries_append : entries (past ++ events) = entries past ++ entries events := by
  rw [entries, records_append, List.filterMap_append]
  rfl

@[simp] theorem exits_append : exits (past ++ events) = exits past ++ exits events := by
  rw [exits, records_append, List.filterMap_append]
  rfl

@[simp] theorem implied_append : implied (past ++ events) = implied past + implied events := by
  rw [implied, records_append, List.count_append]
  rfl

end

section Quiet

variable {log : List LogRecord} (hq : ∀ record ∈ log, record.ofFrames = false)

theorem records_logged (log : List LogRecord) :
    records (log.map .logged : List (Event α β ρ)) = log := by
  induction log with
  | nil => rfl
  | cons r log ih => exact congrArg (r :: ·) ih

include hq

theorem entries_quiet : entries (log.map .logged : List (Event α β ρ)) = [] := by
  rw [entries, records_logged, List.filterMap_eq_nil_iff]
  exact fun r hr => LogRecord.depth?_quiet (hq r hr)

theorem exits_quiet : exits (log.map .logged : List (Event α β ρ)) = [] := by
  rw [exits, records_logged, List.filterMap_eq_nil_iff]
  exact fun r hr => LogRecord.actions?_quiet (hq r hr)

theorem implied_quiet : implied (log.map .logged : List (Event α β ρ)) = 0 := by
  rw [implied, records_logged, List.count_eq_zero]
  exact fun h => absurd (hq _ h) (by decide)

end Quiet

/-! ### The count of the records -/

/-- The records of the past account for the open frames, and for the actions that fired or are
due. -/
structure Tallied (past : List (Event α β ρ)) (tasks : List (Task α β ρ)) (frames : Frames α) :
    Prop where
  depth : (entries past).length + implied past = (exits past).length + frames.depth
  actions : (exits past).sum = (firings past).length + (due tasks).length

namespace Tallied

variable {past : List (Event α β ρ)} {tasks : List (Task α β ρ)} {frames : Frames α}

theorem start (calls : List (Call α β)) :
    Tallied ([] : List (Event α β ρ)) (calls.map .serve) [] :=
  ⟨rfl, by rw [due_serve]; rfl⟩

theorem add {events : List (Event α β ρ)} {tasks' : List (Task α β ρ)} {frames' : Frames α}
    (h : Tallied past tasks frames)
    (hdepth : (entries events).length + implied events + frames.depth =
      (exits events).length + frames'.depth)
    (hactions : (exits events).sum + (due tasks).length =
      (firings events).length + (due tasks').length) :
    Tallied (past ++ events) tasks' frames' where
  depth := by
    have hold := h.depth
    rw [entries_append, exits_append, implied_append, List.length_append, List.length_append]
    omega
  actions := by
    have hold := h.actions
    rw [exits_append, firings_append, List.sum_append, List.length_append]
    omega

/-- A step changes both sides alike. -/
theorem step {host : Host α β σ ρ} {task : Task α β ρ} {s : State α σ}
    (h : Tallied past (task :: tasks) s.frames) :
    Tallied (past ++ (host.step s task).events) ((host.step s task).tasks ++ tasks)
      (host.step s task).state.frames := by
  refine host.step_cases (motive := fun task s done => Tallied past (task :: tasks) s.frames →
    Tallied (past ++ done.events) (done.tasks ++ tasks) done.state.frames)
    ?enter ?depth ?implied ?defer ?unopened ?empty ?exit ?other ?fire ?report task s h
  case enter =>
    intro frames store h
    refine h.add ?_ rfl
    show 1 + 0 + frames.length = 0 + (frames.length + 1)
    omega
  case empty =>
    intro frames store h
    refine h.add ?_ rfl
    show 0 + 0 + (frames.length + 1) = 1 + frames.length
    omega
  case exit =>
    -- what was pending in the frame is due
    intro frame frames store _ h
    have hdue : due (frame.reverse.map .fire ++ [.report .exit .nothing] ++ tasks) =
        frame.reverse ++ due tasks := by
      rw [due_append, due_append, due_fire, List.append_assoc]
      rfl
    refine h.add ?_ ?_
    · show 0 + 0 + (frames.length + 1) = 1 + frames.length
      omega
    · rw [hdue, List.length_append, List.length_reverse]
      show frame.length + (due tasks).length = 0 + (frame.length + (due tasks).length)
      omega
  case other =>
    intro operation frames store h
    have hq := host.quiet operation store
    have hquiet : Tallied (past ++ (host.perform operation store).2.1.map .logged) tasks
        frames := by
      refine h.add ?_ ?_
      · rw [entries_quiet hq, implied_quiet hq, exits_quiet hq]
        rfl
      · rw [exits_quiet hq, firings_logged]
        rfl
    rw [← List.append_assoc]
    exact hquiet.add rfl rfl
  case fire =>
    -- what was due has fired
    intro a frames store h
    have hdue : due ((host.body a).map .serve ++ tasks) = due tasks := by
      rw [due_append, due_serve, List.nil_append]
    refine h.add rfl ?_
    rw [hdue]
    show 0 + ((due tasks).length + 1) = 1 + (due tasks).length
    omega
  case depth => exact fun frames store h => h.add rfl rfl
  case implied => exact fun a store h => h.add rfl rfl
  case defer => exact fun a frame frames store h => h.add rfl rfl
  case unopened => exact fun store h => h.add rfl rfl
  case report => exact fun c answer s h => h.add rfl rfl

end Tallied

/-! ### The points of a run -/

namespace Host

/-- Working an agenda off passes a point: `past` has happened, `rest` is left to do. -/
inductive Passes (host : Host α β σ ρ) (tasks : List (Task α β ρ)) (s : State α σ) :
    List (Event α β ρ) → List (Task α β ρ) → State α σ → Prop where
  | start : Passes host tasks s [] tasks s
  | step {past task rest s'} : Passes host tasks s past (task :: rest) s' →
      Passes host tasks s (past ++ (host.step s' task).events)
        ((host.step s' task).tasks ++ rest) (host.step s' task).state

/-- Behind `past` a call is served in one step. -/
def Serves (host : Host α β σ ρ) (tasks : List (Task α β ρ)) (s : State α σ)
    (past : List (Event α β ρ)) (c : Call α β) (events : List (Event α β ρ)) (s₁ s₂ : State α σ) :
    Prop :=
  ∃ rest, host.Passes tasks s past (.serve c :: rest) s₁ ∧
    host.Passes tasks s (past ++ events) rest s₂

variable {host : Host α β σ ρ} {tasks rest : List (Task α β ρ)} {s s' s'' : State α σ}
  {past events before after : List (Event α β ρ)}

theorem Passes.drains (h : host.Passes tasks s past rest s') (hd : host.Drains rest s' events s'') :
    host.Passes tasks s (past ++ events) [] s'' := by
  induction hd generalizing past with
  | nil s' => rwa [List.append_nil]
  | cons _ ih =>
    rw [← List.append_assoc]
    exact ih h.step

theorem Drains.passes (hd : host.Drains tasks s events s') : host.Passes tasks s events [] s' :=
  Passes.start.drains hd

/-- At each point of a run the records account for the frames. -/
theorem Passes.tallied {calls : List (Call α β)} {store : σ}
    (h : host.Passes (calls.map .serve) ⟨[], store⟩ past rest s') : Tallied past rest s'.frames := by
  induction h with
  | start => exact .start calls
  | step _ ih => exact ih.step

/-- Each event of the past happened in a step. -/
theorem Passes.located (h : host.Passes tasks s past rest s') {e : Event α β ρ}
    (hp : past = before ++ e :: after) : ∃ first task left s₁ front back later,
      host.Passes tasks s first (task :: left) s₁ ∧
      (host.step s₁ task).events = front ++ e :: back ∧ before = first ++ front ∧
      after = back ++ later := by
  induction h generalizing before after with
  | start => exact absurd hp.symm (by simp)
  | @step past task rest s' hpast ih =>
    rcases List.append_eq_append_iff.mp hp with ⟨front, rfl, hs⟩ | ⟨between, rfl, hs⟩
    · exact ⟨past, task, rest, s', front, after, [], hpast, hs, rfl, (List.append_nil _).symm⟩
    · cases between with
      | nil =>
        rw [List.append_nil] at hpast
        exact ⟨before, task, rest, s', [], after, [], hpast, hs.symm, (List.append_nil _).symm,
          (List.append_nil _).symm⟩
      | cons e' between =>
        obtain ⟨rfl, rfl⟩ := List.cons.inj hs
        obtain ⟨first, task', left, s₁, front, back, later, hfirst, hstep, rfl, rfl⟩ := ih rfl
        exact ⟨first, task', left, s₁, front, back, later ++ (host.step s' task).events, hfirst,
          hstep, rfl, List.append_assoc ..⟩

/-! ### Which step writes a record -/

theorem notMem_other {operation : β} {store : σ} {answered : Event α β ρ} {r : LogRecord}
    (hr : r.ofFrames = true) (ha : .logged r ≠ answered) :
    .logged r ∉ (host.perform operation store).2.1.map .logged ++ [answered] := by
  intro h
  rcases List.mem_append.mp h with h | h
  · obtain ⟨r', hr', heq⟩ := List.mem_map.mp h
    obtain rfl := Event.logged.inj heq
    exact absurd (host.quiet operation store r' hr') (by simp [hr])
  · exact ha (List.mem_singleton.mp h)

/-- Only an enter writes the record of an opened frame. -/
theorem eq_enter {task : Task α β ρ} {d : ℕ}
    (h : .logged (.scopeEntered d) ∈ (host.step s task).events) : task = .serve .enter := by
  refine host.step_cases (motive := fun task _ done =>
    .logged (.scopeEntered d) ∈ done.events → task = .serve .enter)
    ?enter ?depth ?implied ?defer ?unopened ?empty ?exit ?other ?fire ?report task s h
  case other => exact fun _ _ _ h => absurd h (notMem_other rfl (by simp))
  all_goals simp

/-- Only an exit with no frame open warns of one. -/
theorem eq_exit {task : Task α β ρ}
    (h : .logged .scopeLeftUnopened ∈ (host.step s task).events) :
    task = .serve .exit ∧ s.frames = [] := by
  refine host.step_cases (motive := fun task s done =>
    .logged .scopeLeftUnopened ∈ done.events → task = .serve .exit ∧ s.frames = [])
    ?enter ?depth ?implied ?defer ?unopened ?empty ?exit ?other ?fire ?report task s h
  case other => exact fun _ _ _ h => absurd h (notMem_other rfl (by simp))
  all_goals simp

theorem logged_first {front back : List (Event α β ρ)} {r r' : LogRecord} {c : Call α β}
    {answer : Answer ρ} (h : [.logged r, .answered c answer] = front ++ .logged r' :: back) :
    front = [] ∧ r' = r ∧ back = [.answered c answer] := by
  cases front with
  | nil => simp_all
  | cons e front => cases front <;> simp at h

/-- The record of an opened frame is written by an enter, which answers with the depth of
the record; that is the depth behind it. -/
theorem Passes.serves_entered (h : host.Passes tasks s past rest s') {d : ℕ}
    (hp : past = before ++ .logged (.scopeEntered d) :: after) :
    ∃ s₁ s₂ later, after = .answered .enter (.depth d) :: later ∧
      host.Serves tasks s before .enter
        [.logged (.scopeEntered d), .answered .enter (.depth d)] s₁ s₂ ∧
      s₂.frames = [] :: s₁.frames ∧ s₂.frames.depth = d := by
  obtain ⟨first, task, left, s₁, front, back, later, hfirst, hevents, rfl, rfl⟩ := h.located hp
  have hmem : .logged (.scopeEntered d) ∈ (host.step s₁ task).events := by
    rw [hevents]
    exact List.mem_append_right _ List.mem_cons_self
  obtain rfl := eq_enter hmem
  have hstep := hfirst.step
  rw [step_enter] at hevents hstep
  obtain ⟨rfl, hd, rfl⟩ := logged_first hevents
  obtain rfl := LogRecord.scopeEntered.inj hd
  rw [List.append_nil]
  exact ⟨s₁, _, later, rfl, ⟨left, hfirst, hstep⟩, rfl, rfl⟩

/-- The warning of an exit with no frame open is written by an exit that fires nothing and
changes nothing. -/
theorem Passes.serves_unopened (h : host.Passes tasks s past rest s')
    (hp : past = before ++ .logged .scopeLeftUnopened :: after) :
    ∃ s₁ later, after = .answered .exit .nothing :: later ∧
      host.Serves tasks s before .exit
        [.logged .scopeLeftUnopened, .answered .exit .nothing] s₁ s₁ ∧
      s₁.frames = [] := by
  obtain ⟨first, task, left, ⟨frames, store⟩, front, back, later, hfirst, hevents, rfl, rfl⟩ :=
    h.located hp
  have hmem : .logged .scopeLeftUnopened ∈ (host.step ⟨frames, store⟩ task).events := by
    rw [hevents]
    exact List.mem_append_right _ List.mem_cons_self
  obtain ⟨rfl, hframes⟩ := eq_exit hmem
  obtain rfl : frames = [] := hframes
  have hstep := hfirst.step
  rw [step_exit_nil] at hevents hstep
  obtain ⟨rfl, -, rfl⟩ := logged_first hevents
  rw [List.append_nil]
  exact ⟨⟨[], store⟩, later, rfl, ⟨left, hfirst, hstep⟩, rfl⟩

end Host

/-! ### The account -/

theorem Host.call_depth (host : Host α β σ ρ) (s : State α σ) :
    host.call s .depth = some (⟨.depth, .depth s.frames.depth, []⟩, s) := by
  have hstart : host.start s .depth = ⟨.depth s.frames.depth, [], [], s⟩ := rfl
  rw [Host.call, hstart, Host.drain_nil]
  rfl

/-- **The records account for the frames.** A program that defers finite scripts, from no open
frame on, is served. At each point between its calls, where nothing but further calls of the
program is left, the frames that enters opened and those that deferrals opened are as many as the
exits that closed one and the frames still open, which is what the program is told when it asks
for the depth; and the numbers of actions that the exits recorded make up the actions that fired.
Each record of an opened frame is an enter's, which answers the same number, the depth behind it;
each warning of an exit with no frame open is an exit's that is answered at once and leaves the
state as it was. -/
theorem records_account (host : Host α β σ ρ) (store : σ) (calls : List (Call α β))
    (finite : ∀ a, .defer a ∈ calls → host.FiniteScript a) :
    ∃ served s, host.run ⟨[], store⟩ calls = some (served, s) ∧
      host.Passes (calls.map .serve) ⟨[], store⟩ (history served) [] s ∧
      (∀ past (more : List (Call α β)) s₁,
        host.Passes (calls.map .serve) ⟨[], store⟩ past (more.map .serve) s₁ →
        (∃ depth, host.call s₁ .depth = some (⟨.depth, .depth depth, []⟩, s₁) ∧
          (entries past).length + implied past = (exits past).length + depth) ∧
        (exits past).sum = (firings past).length) ∧
      (∀ before d after, history served = before ++ .logged (.scopeEntered d) :: after →
        ∃ s₁ s₂ later, after = .answered .enter (.depth d) :: later ∧
          host.Serves (calls.map .serve) ⟨[], store⟩ before .enter
            [.logged (.scopeEntered d), .answered .enter (.depth d)] s₁ s₂ ∧
          s₂.frames = [] :: s₁.frames ∧ s₂.frames.depth = d) ∧
      ∀ before after, history served = before ++ .logged .scopeLeftUnopened :: after →
        ∃ s₁ later, after = .answered .exit .nothing :: later ∧
          host.Serves (calls.map .serve) ⟨[], store⟩ before .exit
            [.logged .scopeLeftUnopened, .answered .exit .nothing] s₁ s₁ ∧
          s₁.frames = [] := by
  obtain ⟨served, s, hr⟩ := host.run_of_finite (s := ⟨[], store⟩) finite (by simp)
  have hend := (host.drains_of_run hr).passes
  refine ⟨served, s, hr, hend, ?_, fun _ _ _ => hend.serves_entered,
    fun _ _ => hend.serves_unopened⟩
  intro past more s₁ hpoint
  have htallied := hpoint.tallied
  have hactions := htallied.actions
  rw [due_serve, List.length_nil, Nat.add_zero] at hactions
  exact ⟨⟨s₁.frames.depth, host.call_depth s₁, htallied.depth⟩, hactions⟩

/-- An exit with no frame open, a deferral that opens one, and a script that closes the frame
around its own, opens another and fires again in between. -/
theorem records_account_reentrant :
    let close : Session.Action := .script "close"
    let host := Session.host [("close", [.exit, .enter, .defer (.freeing "z")])]
    let calls : List Session.Call :=
      [.exit, .defer close, .enter, .defer (.freeing "a"), .defer close, .exit]
    (∀ a, .defer a ∈ calls → host.FiniteScript a) ∧
      ∃ served s, host.run ⟨[], {}⟩ calls = some (served, s) ∧
        host.call s .depth = some (⟨.depth, .depth 2, []⟩, s) ∧
        entries (history served) = [2, 1, 2] ∧ implied (history served) = 1 ∧
        exits (history served) = [2, 1] ∧
        firings (history served) = [close, close, .freeing "a"] ∧
        (entries (history served)).length + implied (history served) =
          (exits (history served)).length + 2 ∧
        (exits (history served)).sum = (firings (history served)).length := by
  intro close host calls
  have hfreeing : ∀ h, host.FiniteScript (.freeing h) :=
    fun _ => Acc.intro _ fun _ h => absurd h List.not_mem_nil
  have hclose : host.FiniteScript close := by
    refine Acc.intro close fun a ha => ?_
    have hz : a = .freeing "z" := by simpa [close, host, Session.host, Session.body] using ha
    exact hz ▸ hfreeing "z"
  have finite : ∀ a, .defer a ∈ calls → host.FiniteScript a := by
    intro a ha
    have hcases : a = close ∨ a = .freeing "a" := by
      simp [calls] at ha
      tauto
    rcases hcases with rfl | rfl
    · exact hclose
    · exact hfreeing "a"
  have hrun : (host.run ⟨[], {}⟩ calls).map (fun r => (entries (history r.1),
      implied (history r.1), exits (history r.1), firings (history r.1))) =
      some ([2, 1, 2], 1, [2, 1], [close, close, .freeing "a"]) := by
    simp [host, close, calls, Host.run, Host.call, Host.start, Host.drain_cons, Host.step,
      Session.host, Session.body, Frames.enter, Frames.defer, Frames.exit, Frames.depth, history,
      entries, exits, implied, firings, records, Event.record?, Event.fired?, LogRecord.depth?,
      LogRecord.actions?, List.filterMap_cons]
  obtain ⟨served, s, hr, hend, hpoints, -, -⟩ := records_account host {} calls finite
  obtain ⟨⟨depth, hdepth, hopen⟩, hfired⟩ := hpoints (history served) [] s hend
  rw [hr, Option.map_some, Option.some_inj] at hrun
  simp only [Prod.mk.injEq] at hrun
  obtain ⟨hentries, himplied, hexits, hfirings⟩ := hrun
  obtain rfl : depth = 2 := by
    rw [hentries, himplied, hexits] at hopen
    simp only [List.length_cons, List.length_nil] at hopen
    omega
  exact ⟨finite, served, s, hr, hdepth, hentries, himplied, hexits, hfirings, hopen, hfired⟩

end Scope

end SupportLayer
