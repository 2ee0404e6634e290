import RouteServer.Rust.Outcome

/-!
# Refinement of an object by its calls

An object takes one call at a time, answers it and is changed by it; a call may end
in an error or a panic. Its specification does the same on simpler states, and its
calls always return. If related states answer every call alike and are related
again afterwards, then so it is for every sequence of calls, and none of them fails.
-/

namespace Machine

open Rust

universe u v w
variable {ε ρ σ : Type u} {τ : Type v} {κ : Type w}

/-- The answers to a sequence of calls, and the object after them. -/
def answers (call : κ → σ → Outcome ε (ρ × σ)) : List κ → σ → Outcome ε (List ρ × σ)
  | [], object => .ok ([], object)
  | first :: rest, object => do
    let (answer, next) ← call first object
    let (later, last) ← answers call rest next
    return (answer :: later, last)

/-- The same of a specification. -/
def specified (specification : κ → τ → ρ × τ) : List κ → τ → List ρ × τ
  | [], state => ([], state)
  | first :: rest, state =>
    let (answer, next) := specification first state
    let (later, last) := specified specification rest next
    (answer :: later, last)

/-- An object whose every call agrees with its specification agrees with it along every
sequence of calls. -/
theorem answers_refine {call : κ → σ → Outcome ε (ρ × σ)} {specification : κ → τ → ρ × τ}
    {related : σ → τ → Prop}
    (step : ∀ first object state, related object state →
      ∃ next, call first object = .ok ((specification first state).1, next) ∧
        related next (specification first state).2)
    (calls : List κ) {object : σ} {state : τ} (begins : related object state) :
    ∃ last, answers call calls object = .ok ((specified specification calls state).1, last) ∧
      related last (specified specification calls state).2 := by
  induction calls generalizing object state with
  | nil => exact ⟨object, rfl, begins⟩
  | cons first rest inductionHypothesis =>
    obtain ⟨next, called, afterwards⟩ := step first object state begins
    obtain ⟨last, answered, ends⟩ := inductionHypothesis afterwards
    refine ⟨last, ?_, ends⟩
    simp only [answers, called, answered, Outcome.ok_bind, Outcome.pure_def, specified]

end Machine
