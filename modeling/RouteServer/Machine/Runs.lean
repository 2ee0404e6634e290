/-!
# Runs of a machine

A machine has an initial state and takes one event at a time; an event may be
impossible in a state. A run is a list of events, and the states it reaches are
those after each of its prefixes. A property of states holds throughout a run
exactly when every step of the run meets a condition, provided that this is so
for a single step from a state that has the property.
-/

namespace Machine

universe u v

/-- An initial state and a step for each event that is possible. -/
structure System (σ : Type u) (ε : Type v) where
  initial : σ
  step : σ → ε → Option σ

variable {σ : Type u} {ε : Type v}

namespace System

/-- The state after some events, if all of them are possible. -/
def run (system : System σ ε) : σ → List ε → Option σ
  | state, [] => some state
  | state, event :: rest => (system.step state event).bind (fun next => system.run next rest)

/-- A state after a prefix of the events. -/
def Reached (system : System σ ε) (events : List ε) (state : σ) : Prop :=
  ∃ before after, events = before ++ after ∧ system.run system.initial before = some state

/-- A step made by a run: the state before it, its event and the state after it. -/
def Taken (system : System σ ε) (events : List ε) (state : σ) (event : ε) (next : σ) : Prop :=
  ∃ before after, events = before ++ event :: after ∧
    system.run system.initial before = some state ∧ system.step state event = some next

/-- A run over two parts runs the second from where the first ended, by induction on the first. -/
theorem run_append (system : System σ ε) (state : σ) (before after : List ε) :
    system.run state (before ++ after) =
      (system.run state before).bind (fun middle => system.run middle after) := by
  induction before generalizing state with
  | nil => rfl
  | cons event rest inductionHypothesis =>
    simp only [List.cons_append, run]
    cases system.step state event with
    | none => rfl
    | some next => exact inductionHypothesis next

/-- A run reaches the state that its events lead to. -/
theorem reached_of_run {system : System σ ε} {events : List ε} {state : σ}
    (ran : system.run system.initial events = some state) : system.Reached events state :=
  ⟨events, [], (List.append_nil events).symm, ran⟩

/-- A run that leads to a state passing a test reaches such a state. -/
theorem exists_reached_of_any (system : System σ ε) (events : List ε) (test : σ → Bool)
    (passes : (system.run system.initial events).any test = true) :
    ∃ state, system.Reached events state ∧ test state = true := by
  cases ran : system.run system.initial events with
  | none =>
    rw [ran] at passes
    cases passes
  | some state =>
    rw [ran] at passes
    exact ⟨state, reached_of_run ran, passes⟩

/-- The states before and after a step of a run are reached in it. -/
theorem Taken.reached {system : System σ ε} {events : List ε} {state next : σ} {event : ε}
    (taken : system.Taken events state event next) :
    system.Reached events state ∧ system.Reached events next := by
  obtain ⟨before, after, split, start, step⟩ := taken
  refine ⟨⟨before, event :: after, split, start⟩, before ++ [event], after, by simp [split], ?_⟩
  rw [run_append, start]
  simp [run, step]

/-- A step that was taken is possible. -/
theorem Taken.possible {system : System σ ε} {events : List ε} {state next : σ} {event : ε}
    (taken : system.Taken events state event next) : system.step state event = some next := by
  obtain ⟨_, _, _, _, step⟩ := taken
  exact step

/-- The event of a step that was taken is one of the run. -/
theorem Taken.mem {system : System σ ε} {events : List ε} {state next : σ} {event : ε}
    (taken : system.Taken events state event next) : event ∈ events := by
  obtain ⟨before, after, rfl, _, _⟩ := taken
  exact List.mem_append_right before List.mem_cons_self

/-- What holds initially and is kept by every step of a run holds of every state
the run reaches. The step may use that its event was taken by this run. -/
theorem reached_induction {system : System σ ε} {events : List ε} (holds : σ → Prop)
    (initial : holds system.initial)
    (step : ∀ state event next, system.Taken events state event next → holds state → holds next)
    {state : σ} (reached : system.Reached events state) : holds state := by
  obtain ⟨before, after, split, start⟩ := reached
  induction sized : before.length generalizing before after state with
  | zero =>
    cases List.eq_nil_of_length_eq_zero sized
    cases start
    exact initial
  | succ length inductionHypothesis =>
    obtain ⟨front, event, rfl⟩ :=
      List.eq_nil_or_concat before |>.resolve_left (by rintro rfl; cases sized)
    rw [List.concat_eq_append] at split start sized
    rw [run_append] at start
    obtain ⟨middle, toMiddle, last⟩ := Option.bind_eq_some_iff.mp start
    simp only [run, Option.bind_fun_some] at last
    rw [List.append_assoc, List.singleton_append] at split
    exact step middle event state ⟨front, after, split, toMiddle, last⟩
      (inductionHypothesis front (event :: after) split toMiddle (by simpa using sized))

/-- A property holds throughout a run exactly when every step meets a condition,
if that is so for each step with an event of the run from a state with the property. A
side property that such steps keep may be used. -/
theorem always_iff (system : System σ ε) (events : List ε) (side good : σ → Prop)
    (fits : σ → ε → Prop) (sideInitial : side system.initial) (goodInitial : good system.initial)
    (sideStep : ∀ state event next, event ∈ events → side state → good state →
      system.step state event = some next → side next)
    (goodStep : ∀ state event next, event ∈ events → side state → good state →
      system.step state event = some next → (good next ↔ fits state event)) :
    (∀ state, system.Reached events state → good state) ↔
      ∀ state event next, system.Taken events state event next → fits state event := by
  constructor
  · intro always state event next taken
    have sideAlways : ∀ state, system.Reached events state → side state := fun _ =>
      reached_induction side sideInitial (fun state event next taken holds =>
        sideStep state event next taken.mem holds (always state taken.reached.1) taken.possible)
    exact (goodStep state event next taken.mem (sideAlways state taken.reached.1)
      (always state taken.reached.1) taken.possible).mp (always next taken.reached.2)
  · intro met state reached
    have both : side state ∧ good state := by
      refine reached_induction (fun state => side state ∧ good state) ⟨sideInitial, goodInitial⟩
        ?_ reached
      intro state event next taken holds
      exact ⟨sideStep state event next taken.mem holds.1 holds.2 taken.possible,
        (goodStep state event next taken.mem holds.1 holds.2 taken.possible).mpr
          (met state event next taken)⟩
    exact both.2

/-- What every step keeps is kept by a run. -/
theorem run_keeps {system : System σ ε} {holds : σ → Prop}
    (step : ∀ state event next, holds state → system.step state event = some next → holds next)
    {state last : σ} {events : List ε} (ran : system.run state events = some last)
    (start : holds state) : holds last := by
  induction events generalizing state with
  | nil =>
    cases ran
    exact start
  | cons event rest inductionHypothesis =>
    obtain ⟨next, possible, afterwards⟩ := Option.bind_eq_some_iff.mp ran
    exact inductionHypothesis afterwards (step state event next start possible)

/-- A property of every state of a run from a state, both ends included. -/
def Throughout (system : System σ ε) (holds : σ → Prop) : σ → List ε → Prop
  | state, [] => holds state
  | state, event :: rest =>
    holds state ∧ ∀ next, system.step state event = some next → system.Throughout holds next rest

/-- What holds throughout holds at the start. -/
theorem Throughout.here {system : System σ ε} {holds : σ → Prop} {state : σ} {events : List ε}
    (throughout : system.Throughout holds state events) : holds state := by
  cases events with
  | nil => exact throughout
  | cons event rest => exact throughout.1

/-- What relates every state to itself, and the states before and after each step within
a property, relates the two ends of a run that stays within the property. -/
theorem Throughout.related {system : System σ ε} {holds : σ → Prop} {relates : σ → σ → Prop}
    (reflexive : ∀ state, holds state → relates state state)
    (transitive : ∀ first second third, holds second → relates first second →
      relates second third → relates first third)
    (step : ∀ state event next, system.step state event = some next → relates state next)
    {state last : σ} {events : List ε} (throughout : system.Throughout holds state events)
    (ran : system.run state events = some last) : relates state last := by
  induction events generalizing state with
  | nil =>
    cases ran
    exact reflexive _ throughout
  | cons event rest inductionHypothesis =>
    obtain ⟨next, possible, afterwards⟩ := Option.bind_eq_some_iff.mp ran
    have later := throughout.2 next possible
    exact transitive _ next last later.here (step _ event next possible)
      (inductionHypothesis later afterwards)

end System

end Machine
