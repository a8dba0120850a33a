/-
# Working an agenda off

An agenda in two parts is worked off part by part (`Drains.split`), so a program is served call
by call as if its calls were one agenda (`drains_of_run`, `run_of_drains`). The agenda has an
end if the scripts that it can reach are finite: an action weighs more than the calls of its
script, a call of a deferral more than its action, and the frames keep the weight of what they
hold, so each step takes weight off the agenda and the frames together (`load_task`).

Key definitions: `Scope.history`, `Scope.Host.Drains`, `Scope.Host.FiniteScript`,
`Scope.Host.weight`, `Scope.Host.load`, `Scope.Host.Tame`.
Key theorems: `Scope.Host.step_cases`, `Scope.Host.Drains.split`, `Scope.Host.drains_of_run`,
`Scope.Host.run_of_drains`, `Scope.Host.load_task`, `Scope.Host.drains_of_invariant`,
`Scope.Host.run_of_finite`.
-/
import Mathlib
import SupportLayer.Scope.Agenda

namespace SupportLayer.Scope

variable {α β σ ρ : Type}

/-- What happened while calls were served, their answers included. -/
def history (served : List (Served α β ρ)) : List (Event α β ρ) :=
  served.flatMap fun v => v.events ++ [.answered v.call v.answer]

/-- The actions that a task defers or fires. -/
def Task.actions : Task α β ρ → List α
  | serve (.defer a) => [a]
  | fire a => [a]
  | _ => []

namespace Host

variable (host : Host α β σ ρ)

/-! ### What a step can do -/

/-- The cases of a step: which task is done in which state, and what comes of it. -/
theorem step_cases {motive : Task α β ρ → State α σ → Step α β σ ρ → Prop}
    (enter : ∀ frames store, motive (.serve .enter) ⟨frames, store⟩
      ⟨[.logged (.scopeEntered (frames.length + 1)), .answered .enter (.depth (frames.length + 1))],
        [], ⟨[] :: frames, store⟩⟩)
    (depth : ∀ frames store, motive (.serve .depth) ⟨frames, store⟩
      ⟨[.answered .depth (.depth frames.length)], [], ⟨frames, store⟩⟩)
    (implied : ∀ a store, motive (.serve (.defer a)) ⟨[], store⟩
      ⟨[.logged .scopeImplied, .answered (.defer a) .nothing], [], ⟨[[a]], store⟩⟩)
    (defer : ∀ a frame frames store, motive (.serve (.defer a)) ⟨frame :: frames, store⟩
      ⟨[.answered (.defer a) .nothing], [], ⟨(frame ++ [a]) :: frames, store⟩⟩)
    (unopened : ∀ store, motive (.serve .exit) ⟨[], store⟩
      ⟨[.logged .scopeLeftUnopened, .answered .exit .nothing], [], ⟨[], store⟩⟩)
    (empty : ∀ frames store, motive (.serve .exit) ⟨[] :: frames, store⟩
      ⟨[.logged (.scopeLeft 0), .answered .exit .nothing], [], ⟨frames, store⟩⟩)
    (exit : ∀ frame frames store, frame ≠ [] → motive (.serve .exit) ⟨frame :: frames, store⟩
      ⟨[.logged (.scopeLeft frame.length)], frame.reverse.map .fire ++ [.report .exit .nothing],
        ⟨frames, store⟩⟩)
    (other : ∀ operation frames store, motive (.serve (.other operation)) ⟨frames, store⟩
      ⟨(host.perform operation store).2.1.map .logged ++
        [.answered (.other operation) (.other (host.perform operation store).1)],
        [], ⟨frames, (host.perform operation store).2.2⟩⟩)
    (fire : ∀ a frames store, motive (.fire a) ⟨frames, store⟩
      ⟨[.fired a], (host.body a).map .serve, ⟨frames, host.fire a store⟩⟩)
    (report : ∀ c answer s, motive (.report c answer) s ⟨[.answered c answer], [], s⟩)
    (task : Task α β ρ) (s : State α σ) : motive task s (host.step s task) := by
  obtain ⟨frames, store⟩ := s
  cases task with
  | fire a => exact fire a frames store
  | report c answer => exact report c answer ⟨frames, store⟩
  | serve c =>
    cases c with
    | enter => exact enter frames store
    | depth => exact depth frames store
    | other operation => exact other operation frames store
    | defer a =>
      cases frames with
      | nil => exact implied a store
      | cons frame frames => exact defer a frame frames store
    | exit =>
      cases frames with
      | nil => exact unopened store
      | cons frame frames =>
        by_cases hempty : frame = []
        · subst hempty
          exact empty frames store
        · rw [step_exit_cons _ _ _ _ hempty]
          exact exit frame frames store hempty

/-! ### Parts of an agenda -/

/-- An agenda comes to an end: each of its tasks is done in turn, with the tasks that take its
place. -/
inductive Drains : List (Task α β ρ) → State α σ → List (Event α β ρ) → State α σ → Prop where
  | nil (s) : Drains [] s [] s
  | cons {task tasks s later s'} :
      Drains ((host.step s task).tasks ++ tasks) (host.step s task).state later s' →
      Drains (task :: tasks) s ((host.step s task).events ++ later) s'

theorem drains_nil_iff {s s' : State α σ} {events : List (Event α β ρ)} :
    host.Drains [] s events s' ↔ events = [] ∧ s' = s := by
  constructor
  · rintro ⟨⟩; exact ⟨rfl, rfl⟩
  · rintro ⟨rfl, rfl⟩; exact .nil s'

theorem drains_cons_iff {task : Task α β ρ} {tasks : List (Task α β ρ)} {s s' : State α σ}
    {events : List (Event α β ρ)} :
    host.Drains (task :: tasks) s events s' ↔ ∃ later,
      host.Drains ((host.step s task).tasks ++ tasks) (host.step s task).state later s' ∧
      events = (host.step s task).events ++ later := by
  constructor
  · rintro (_ | h); exact ⟨_, h, rfl⟩
  · rintro ⟨later, h, rfl⟩; exact .cons h

variable {host} in
theorem Drains.drain_eq {tasks : List (Task α β ρ)} {s s' : State α σ} {events : List (Event α β ρ)}
    (h : host.Drains tasks s events s') : host.drain tasks s = some (events, s') := by
  induction h with
  | nil s => exact host.drain_nil s
  | cons _ ih => rw [drain_cons, ih]; rfl

theorem drains_of_drain {tasks : List (Task α β ρ)} {s : State α σ}
    {r : List (Event α β ρ) × State α σ} (h : host.drain tasks s = some r) :
    host.Drains tasks s r.1 r.2 := by
  refine drain.partial_correctness host (fun tasks s r => host.Drains tasks s r.1 r.2) ?_ _ _ _ h
  intro drain ih tasks s r hr
  cases tasks with
  | nil =>
    obtain rfl := Option.some.inj hr
    exact .nil s
  | cons task tasks =>
    obtain ⟨later, hl, hr⟩ := Option.bind_eq_some_iff.mp hr
    obtain rfl := Option.some.inj hr
    exact .cons (ih _ _ _ hl)

variable {host} in
theorem Drains.append {tasks rest : List (Task α β ρ)} {s s' s'' : State α σ}
    {events later : List (Event α β ρ)} (h : host.Drains tasks s events s')
    (h' : host.Drains rest s' later s'') : host.Drains (tasks ++ rest) s (events ++ later) s'' := by
  induction h with
  | nil s => exact h'
  | cons _ ih =>
    have := ih h'
    rw [List.append_assoc] at this
    rw [List.append_assoc]
    exact .cons this

variable {host} in
/-- An agenda in two parts is worked off part by part. -/
theorem Drains.split {tasks rest : List (Task α β ρ)} {s s'' : State α σ}
    {events : List (Event α β ρ)} (h : host.Drains (tasks ++ rest) s events s'') :
    ∃ first later s', host.Drains tasks s first s' ∧ host.Drains rest s' later s'' ∧
      events = first ++ later := by
  generalize hw : tasks ++ rest = whole at h
  induction h generalizing tasks with
  | nil s =>
    obtain ⟨rfl, rfl⟩ := List.append_eq_nil_iff.mp hw
    exact ⟨[], [], s, .nil s, .nil s, rfl⟩
  | @cons task whole s later s' hd ih =>
    cases tasks with
    | nil =>
      obtain rfl : rest = task :: whole := hw
      exact ⟨[], _, s, .nil s, .cons hd, rfl⟩
    | cons task' tasks =>
      obtain ⟨rfl, rfl⟩ := List.cons.inj hw
      obtain ⟨first, later, s1, h1, h2, rfl⟩ := ih (List.append_assoc ..)
      exact ⟨_, later, s1, .cons h1, h2, (List.append_assoc ..).symm⟩

/-! ### Serving a program -/

/-- A call is served by doing what its start leaves to do; then it is answered. -/
theorem drains_serve_iff {c : Call α β} {s s' : State α σ} {events : List (Event α β ρ)} :
    host.Drains [.serve c] s events s' ↔ ∃ later,
      host.Drains (host.start s c).tasks (host.start s c).state later s' ∧
      events =
        (host.start s c).log.map .logged ++ later ++ [.answered c (host.start s c).answer] := by
  rw [drains_cons_iff, step.eq_def]
  simp only
  generalize host.start s c = begun
  obtain ⟨answer, log, tasks, s1⟩ := begun
  cases tasks with
  | nil => simp [drains_nil_iff]
  | cons task tasks =>
    simp only [List.append_nil]
    constructor
    · rintro ⟨later, hd, rfl⟩
      obtain ⟨first, last, s2, h1, h2, rfl⟩ := hd.split
      obtain ⟨last, h3, rfl⟩ := host.drains_cons_iff.mp h2
      obtain ⟨rfl, rfl⟩ := host.drains_nil_iff.mp h3
      exact ⟨first, h1, by simp [step]⟩
    · rintro ⟨later, hd, rfl⟩
      refine ⟨later ++ [.answered c answer], hd.append ?_, by simp⟩
      exact .cons (.nil s')

theorem drains_of_run {calls : List (Call α β)} {s s' : State α σ} {served : List (Served α β ρ)}
    (h : host.run s calls = some (served, s')) :
    host.Drains (calls.map .serve) s (history served) s' := by
  induction calls generalizing s served with
  | nil =>
    obtain ⟨rfl, rfl⟩ := Prod.mk.inj (Option.some.inj h)
    exact .nil s
  | cons c calls ih =>
    obtain ⟨⟨first, s1⟩, hc, h⟩ := Option.bind_eq_some_iff.mp h
    obtain ⟨⟨served, s2⟩, hr, h⟩ := Option.bind_eq_some_iff.mp h
    obtain ⟨rfl, rfl⟩ := Prod.mk.inj (Option.some.inj h)
    obtain ⟨⟨events, s3⟩, hd, hc⟩ := Option.bind_eq_some_iff.mp hc
    obtain ⟨rfl, rfl⟩ := Prod.mk.inj (Option.some.inj hc)
    have hone := host.drains_serve_iff.mpr ⟨events, host.drains_of_drain hd, rfl⟩
    exact hone.append (ih hr)

theorem run_of_drains {calls : List (Call α β)} {s s' : State α σ} {events : List (Event α β ρ)}
    (h : host.Drains (calls.map .serve) s events s') :
    ∃ served, host.run s calls = some (served, s') ∧ history served = events := by
  induction calls generalizing s events with
  | nil =>
    obtain ⟨rfl, rfl⟩ := host.drains_nil_iff.mp h
    exact ⟨[], rfl, rfl⟩
  | cons c calls ih =>
    rw [List.map_cons, ← List.singleton_append] at h
    obtain ⟨first, later, s1, h1, h2, rfl⟩ := h.split
    obtain ⟨events, hd, rfl⟩ := host.drains_serve_iff.mp h1
    obtain ⟨served, hr, rfl⟩ := ih h2
    have hc : host.call s c = some (⟨c, (host.start s c).answer,
        (host.start s c).log.map .logged ++ events⟩, s1) := by
      simp [call, hd.drain_eq]
    exact ⟨⟨c, (host.start s c).answer, (host.start s c).log.map .logged ++ events⟩ :: served,
      by simp [run, hc, hr], by simp [history]⟩

/-! ### Scripts that come to an end -/

/-- The script of an action is finite: no chain of actions, each deferred by the script of the
one before, goes on for ever. -/
def FiniteScript (a : α) : Prop := Acc (fun a b => Call.defer a ∈ host.body b) a

theorem wellFounded_defers :
    WellFounded fun a b => Call.defer a ∈ host.body b ∧ host.FiniteScript b := by
  refine ⟨fun b => Acc.intro b ?_⟩
  rintro a ⟨hab, hb⟩
  have ha : host.FiniteScript a := hb.inv hab
  clear hab hb
  induction ha with
  | intro a _ ih => exact Acc.intro a fun c hc => ih c hc.1

/-- What a call weighs if actions have the weights `w`. -/
def callWeight (w : α → ℕ) : Call α β → ℕ
  | .defer a => 1 + w a
  | .exit => 2
  | _ => 1

open Classical in
/-- What an action weighs: more than the calls of its script. -/
noncomputable def weight (b : α) : ℕ :=
  if h : host.FiniteScript b then
    1 + ((host.body b).attach.map fun c =>
      callWeight (fun a => if _ : c.1 = .defer a then weight a else 0) c.1).sum
  else 0
termination_by host.wellFounded_defers.wrap b
decreasing_by rename_i hc; exact ⟨hc ▸ c.2, h⟩

theorem weight_eq {b : α} (h : host.FiniteScript b) :
    host.weight b = 1 + ((host.body b).map (callWeight host.weight)).sum := by
  rw [weight, dif_pos h, ← List.attach_map_val (l := host.body b)]
  congr 2
  refine List.map_congr_left fun c _ => ?_
  obtain ⟨c, hc⟩ := c
  cases c <;> simp [callWeight]

/-- What a task weighs. -/
noncomputable def taskWeight : Task α β ρ → ℕ
  | .serve c => callWeight host.weight c
  | .fire a => host.weight a
  | .report _ _ => 1

/-- What is still to be done weighs, now or once the frames are closed. -/
noncomputable def load (tasks : List (Task α β ρ)) (s : State α σ) : ℕ :=
  (tasks.map host.taskWeight).sum + (s.frames.flatten.map host.weight).sum

/-- All actions of an agenda and of the frames have finite scripts. -/
def Tame (tasks : List (Task α β ρ)) (s : State α σ) : Prop :=
  ∀ a ∈ tasks.flatMap Task.actions ++ s.frames.flatten, host.FiniteScript a

theorem load_append (first tasks : List (Task α β ρ)) (s : State α σ) :
    host.load (first ++ tasks) s = host.load first s + (tasks.map host.taskWeight).sum := by
  simp only [load, List.map_append, List.sum_append]
  omega

/-- A step takes weight off its task and the frames, if the script that it starts is finite. -/
theorem load_task {task : Task α β ρ} {s : State α σ}
    (h : ∀ a, task = .fire a → host.FiniteScript a) :
    host.load (host.step s task).tasks (host.step s task).state < host.load [task] s := by
  obtain ⟨frames, store⟩ := s
  cases task with
  | report c answer => simp [step, load, taskWeight]
  | fire a =>
    have hw := host.weight_eq (h a rfl)
    have hcalls : ((host.body a).map (.serve ·)).map host.taskWeight =
        (host.body a).map (callWeight host.weight) := by
      rw [List.map_map]
      rfl
    simp only [step, load, hcalls, List.map_cons, List.map_nil, List.sum_singleton, taskWeight, hw]
    omega
  | serve c =>
    cases c with
    | enter => simp [step_enter, load, taskWeight, callWeight]
    | depth => simp [step_depth, load, taskWeight, callWeight]
    | other operation => simp [step_other, load, taskWeight, callWeight]
    | defer a =>
      cases frames with
      | nil => simp [step_defer_nil, load, taskWeight, callWeight]
      | cons frame frames =>
        simp [step_defer_cons, load, taskWeight, callWeight]
        omega
    | exit =>
      cases frames with
      | nil => simp [step_exit_nil, load, taskWeight, callWeight]
      | cons frame frames =>
        by_cases hempty : frame = []
        · subst hempty
          simp [step_exit_empty, load, taskWeight, callWeight]
        have hfires : (frame.reverse.map .fire).map host.taskWeight =
            (frame.map host.weight).reverse := by
          rw [List.map_map, ← List.map_reverse]
          rfl
        simp only [step_exit_cons _ _ _ _ hempty, load, List.map_append, hfires, List.sum_append,
          List.sum_reverse, List.flatten_cons]
        simp only [List.map_cons, List.map_nil, List.sum_singleton, taskWeight, callWeight]
        omega

/-- No step brings an action up but the firing of one whose script defers it. -/
theorem mem_step {task : Task α β ρ} {s : State α σ} {a : α}
    (h : a ∈ (host.step s task).tasks.flatMap Task.actions ++
      (host.step s task).state.frames.flatten) :
    a ∈ task.actions ++ s.frames.flatten ∨ ∃ b, task = .fire b ∧ .defer a ∈ host.body b := by
  obtain ⟨frames, store⟩ := s
  cases task with
  | report c answer => exact .inl (by simpa [step_report, Task.actions] using h)
  | fire b =>
    rw [step_fire, List.flatMap_map, List.mem_append, List.mem_flatMap] at h
    rcases h with ⟨c, hc, ha⟩ | h
    · refine .inr ⟨b, rfl, ?_⟩
      cases c with
      | defer b' => rwa [List.mem_singleton.mp ha]
      | _ => simp [Task.actions] at ha
    · exact .inl (List.mem_append_right _ h)
  | serve c =>
    refine .inl ?_
    cases c with
    | enter => simpa [step_enter, Task.actions] using h
    | depth => simpa [step_depth, Task.actions] using h
    | other operation => simpa [step_other, Task.actions] using h
    | defer b =>
      cases frames with
      | nil => simpa [step_defer_nil, Task.actions] using h
      | cons frame frames =>
        simp [step_defer_cons, Task.actions] at h ⊢
        tauto
    | exit =>
      cases frames with
      | nil => simp [step_exit_nil] at h
      | cons frame frames =>
        by_cases hempty : frame = []
        · subst hempty
          simpa [step_exit_empty, Task.actions] using h
        · simpa [step_exit_cons _ _ _ _ hempty, Task.actions] using h

/-- The actions of an agenda stay finite: a finite script defers finite ones. -/
theorem Tame.step {task : Task α β ρ} {tasks : List (Task α β ρ)} {s : State α σ}
    (h : host.Tame (task :: tasks) s) :
    host.Tame ((host.step s task).tasks ++ tasks) (host.step s task).state := by
  intro a ha
  have htask : ∀ b ∈ task.actions ++ s.frames.flatten, host.FiniteScript b := by
    intro b hb
    refine h b ?_
    rw [List.flatMap_cons]
    simp only [List.mem_append] at hb ⊢
    tauto
  by_cases hrest : a ∈ tasks.flatMap Task.actions
  · refine h a ?_
    rw [List.flatMap_cons]
    exact List.mem_append_left _ (List.mem_append_right _ hrest)
  · rw [List.flatMap_append, List.append_assoc] at ha
    have hmem : a ∈ (host.step s task).tasks.flatMap Task.actions ++
        (host.step s task).state.frames.flatten := by
      simp only [List.mem_append] at ha ⊢
      tauto
    rcases host.mem_step hmem with hold | ⟨b, rfl, hb⟩
    · exact htask a hold
    · exact (htask b (by simp [Task.actions])).inv hb

/-- An agenda comes to an end if something that each step keeps sees to it that only finite
scripts start. -/
theorem drains_of_invariant (kept : List (Task α β ρ) → State α σ → Prop)
    (step : ∀ {task tasks s}, kept (task :: tasks) s →
      kept ((host.step s task).tasks ++ tasks) (host.step s task).state)
    (finite : ∀ {a tasks s}, kept (.fire a :: tasks) s → host.FiniteScript a)
    {tasks : List (Task α β ρ)} {s : State α σ} (h : kept tasks s) :
    ∃ events s', host.Drains tasks s events s' := by
  induction hn : host.load tasks s using Nat.strong_induction_on generalizing tasks s with
  | _ n ih =>
    cases tasks with
    | nil => exact ⟨[], s, .nil s⟩
    | cons task tasks =>
      have hlt : host.load (host.step s task).tasks (host.step s task).state < host.load [task] s :=
        host.load_task fun a ha => finite (ha ▸ h)
      have hsplit := host.load_append [task] tasks s
      rw [List.singleton_append, hn] at hsplit
      obtain ⟨later, s', hd⟩ := ih _ (by rw [load_append]; omega) (step h) rfl
      exact ⟨_, s', .cons hd⟩

theorem drains_of_tame {tasks : List (Task α β ρ)} {s : State α σ} (h : host.Tame tasks s) :
    ∃ events s', host.Drains tasks s events s' :=
  host.drains_of_invariant host.Tame (fun h => h.step)
    (fun {a _ _} h => h a (by simp [Task.actions])) h

theorem run_of_finite {calls : List (Call α β)} {s : State α σ}
    (hcalls : ∀ a, .defer a ∈ calls → host.FiniteScript a)
    (hframes : ∀ a ∈ s.frames.flatten, host.FiniteScript a) :
    ∃ served s', host.run s calls = some (served, s') := by
  have h : host.Tame (calls.map (.serve : Call α β → Task α β ρ)) s := by
    intro a ha
    rw [List.mem_append, List.flatMap_map, List.mem_flatMap] at ha
    rcases ha with ⟨c, hc, ha⟩ | ha
    · cases c with
      | defer b => exact hcalls a (by rwa [List.mem_singleton.mp ha])
      | _ => simp [Task.actions] at ha
    · exact hframes a ha
  obtain ⟨events, s', hd⟩ := host.drains_of_tame h
  obtain ⟨served, hr, -⟩ := host.run_of_drains hd
  exact ⟨served, s', hr⟩

end Host

end SupportLayer.Scope
