import Mathlib.Data.List.Induction
import RouteServer.Machine.Runs

/-!
# What a run has shown

A step of a machine may show something, such as the messages it sends. A run shows what
its steps show, in their order. An invariant may relate the state that a run leads to with
the events of the run, and so with everything that the run has shown and with what happened in
earlier steps.
-/

namespace Machine.System

universe u v w
variable {σ : Type u} {ε : Type v} {ω : Type w}

/-- What a run shows, step by step. -/
def shown (system : System σ ε) (shows : σ → ε → List ω) : σ → List ε → List ω
  | _, [] => []
  | state, event :: rest =>
    shows state event ++
      (system.step state event).elim [] (fun next => system.shown shows next rest)

/-- What is shown in a run is what is shown in its parts, one after the other. -/
theorem shown_append {system : System σ ε} {shows : σ → ε → List ω} {state middle : σ}
    {before : List ε} (ran : system.run state before = some middle) (after : List ε) :
    system.shown shows state (before ++ after) =
      system.shown shows state before ++ system.shown shows middle after := by
  induction before generalizing state with
  | nil =>
    cases ran
    rfl
  | cons event rest inductionHypothesis =>
    obtain ⟨next, possible, afterwards⟩ := Option.bind_eq_some_iff.mp ran
    rw [List.cons_append, shown, shown, possible, Option.elim_some, Option.elim_some,
      inductionHypothesis afterwards, List.append_assoc]

/-- A run that goes one step further shows what that step shows. -/
theorem shown_snoc {system : System σ ε} {shows : σ → ε → List ω} {state middle next : σ}
    {before : List ε} {event : ε} (ran : system.run state before = some middle)
    (possible : system.step middle event = some next) :
    system.shown shows state (before ++ [event]) =
      system.shown shows state before ++ shows middle event := by
  rw [shown_append ran, shown, possible, Option.elim_some, shown, List.append_nil]

/-- One step shows what its event shows. -/
theorem shown_singleton (system : System σ ε) (shows : σ → ε → List ω) (state : σ) (event : ε) :
    system.shown shows state [event] = shows state event := by
  rw [shown]
  cases system.step state event <;> exact List.append_nil _

/-- A run that goes one step further. -/
theorem run_snoc (system : System σ ε) (state : σ) (before : List ε) (event : ε) :
    system.run state (before ++ [event]) =
      (system.run state before).bind (fun middle => system.step middle event) := by
  rw [run_append]
  refine congrArg _ (funext fun middle => ?_)
  simp only [run, Option.bind_fun_some]

/-- A run goes on with an event that is possible where it ended. -/
theorem run_further {system : System σ ε} {state middle next : σ} {before : List ε} {event : ε}
    (ran : system.run state before = some middle)
    (possible : system.step middle event = some next) :
    system.run state (before ++ [event]) = some next := by
  rw [run_snoc, ran, Option.bind_some, possible]

/-- A run of one event is its step. -/
theorem run_singleton (system : System σ ε) (state : σ) (event : ε) :
    system.run state [event] = system.step state event := Option.bind_fun_some _

/-- A run that is possible takes its last step. -/
theorem exists_taken_of_isSome (system : System σ ε) (before : List ε) (event : ε)
    (possible : (system.run system.initial (before ++ [event])).isSome = true) :
    ∃ state next, system.Taken (before ++ [event]) state event next := by
  obtain ⟨next, ran⟩ := Option.isSome_iff_exists.mp possible
  rw [run_snoc] at ran
  obtain ⟨state, reached, stepped⟩ := Option.bind_eq_some_iff.mp ran
  exact ⟨state, next, before, [], rfl, reached, stepped⟩

/-- What holds of no events and the state they begin in, and is kept by one event more,
holds of the events of every run and the state it leads to. -/
theorem run_history {system : System σ ε} {start : σ} (holds : List ε → σ → Prop)
    (initial : holds [] start)
    (step : ∀ before state event next, system.run start before = some state →
      holds before state → system.step state event = some next → holds (before ++ [event]) next)
    {events : List ε} {last : σ} (ran : system.run start events = some last) :
    holds events last := by
  induction events using List.reverseRecOn generalizing last with
  | nil =>
    cases ran
    exact initial
  | append_singleton before event inductionHypothesis =>
    rw [run_snoc] at ran
    obtain ⟨middle, toMiddle, possible⟩ := Option.bind_eq_some_iff.mp ran
    exact step before middle event last toMiddle (inductionHypothesis toMiddle) possible

/-- A part of a machine that does some steps of its own in each step of the whole: a run of
the whole is a run of the part, by the steps that the part does. -/
theorem run_part {τ : Type u} {system : System σ ε} {part : System τ ω} {state : σ → τ}
    {steps : σ → ε → List ω}
    (step : ∀ before event next, system.step before event = some next →
      part.run (state before) (steps before event) = some (state next))
    {start last : σ} {events : List ε} (ran : system.run start events = some last) :
    part.run (state start) (system.shown steps start events) = some (state last) := by
  refine run_history (fun events last =>
    part.run (state start) (system.shown steps start events) = some (state last)) rfl ?_ ran
  intro before middle event next reached runs possible
  rw [shown_snoc reached possible, run_append, runs, Option.bind_some]
  exact step middle event next possible

/-- A part that does at most one step at a time has no longer runs than the whole. -/
theorem length_shown_le {system : System σ ε} {shows : σ → ε → List ω}
    (one : ∀ state event, (shows state event).length ≤ 1) (state : σ) (events : List ε) :
    (system.shown shows state events).length ≤ events.length := by
  induction events generalizing state with
  | nil => exact Nat.le_refl 0
  | cons event rest inductionHypothesis =>
    rw [shown, List.length_append, List.length_cons]
    have first := one state event
    cases system.step state event with
    | none =>
      rw [Option.elim_none, List.length_nil]
      omega
    | some next =>
      rw [Option.elim_some]
      have others := inductionHypothesis next
      omega

/-- In some step of a run something was the case, of the events until then, the state that they
led to and the event of the step. -/
def Happened (system : System σ ε) (start : σ) (what : List ε → σ → ε → Prop)
    (events : List ε) : Prop :=
  ∃ before event after state, events = before ++ event :: after ∧
    system.run start before = some state ∧ what before state event

section

variable {system : System σ ε} {start : σ} {what : List ε → σ → ε → Prop}

/-- What is the case in the last step of a run happened in it. -/
theorem happened_now {before : List ε} {state : σ} {event : ε}
    (ran : system.run start before = some state) (here : what before state event) :
    system.Happened start what (before ++ [event]) := ⟨before, event, [], state, rfl, ran, here⟩

/-- What happened in a run has happened when the run goes on. -/
theorem Happened.further {events : List ε} (happened : system.Happened start what events)
    (more : List ε) : system.Happened start what (events ++ more) := by
  obtain ⟨before, earlier, after, state, rfl, ran, here⟩ := happened
  refine ⟨before, earlier, after ++ more, state, ?_, ran, here⟩
  rw [List.append_assoc, List.cons_append]

end

end Machine.System
