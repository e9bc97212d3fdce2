import Mathlib

/-!
# Machines with outputs, and refinement

A machine answers each event with an output and a new state; one that can fail
answers in `Option`.  `Refines` relates a machine that can fail to one that cannot:
in related states the first does not fail, answers what the second answers, and the
two stay related.  The relation may look at all events to come, so that it can bound
what they need together.  From single events it carries over to runs (`Refines.run`).
-/

namespace Refinement

variable {σ τ ε ω : Type*}

/-- The outputs of a list of events, and the last state. -/
def run (step : σ → ε → ω × σ) : σ → List ε → List ω × σ
  | s, [] => ([], s)
  | s, event :: rest =>
      let tail := run step (step s event).2 rest
      ((step s event).1 :: tail.1, tail.2)

/-- The same for a machine that can fail: `none` when it fails anywhere. -/
def run? (step : σ → ε → Option (ω × σ)) : σ → List ε → Option (List ω × σ)
  | s, [] => some ([], s)
  | s, event :: rest => do
      let (out, s') ← step s event
      let (outs, last) ← run? step s' rest
      return (out :: outs, last)

/-- Related states stay related, and on each event `impl` does not fail and answers what
`spec` answers.  The relation sees the events to come. -/
structure Refines (impl : σ → ε → Option (ω × σ)) (spec : τ → ε → ω × τ)
    (R : σ → τ → List ε → Prop) : Prop where
  step : ∀ s t event rest, R s t (event :: rest) →
    ∃ s', impl s event = some ((spec t event).1, s') ∧ R s' (spec t event).2 rest

/-- From single events to runs. -/
theorem Refines.run {impl : σ → ε → Option (ω × σ)} {spec : τ → ε → ω × τ}
    {R : σ → τ → List ε → Prop} (h : Refines impl spec R) {s : σ} {t : τ} {events : List ε}
    (hrel : R s t events) :
    ∃ s', run? impl s events = some ((Refinement.run spec t events).1, s') ∧
      R s' (Refinement.run spec t events).2 [] := by
  induction events generalizing s t with
  | nil => exact ⟨s, rfl, hrel⟩
  | cons event rest ih =>
      obtain ⟨middle, hstep, hrel'⟩ := h.step s t event rest hrel
      obtain ⟨last, hrest, hlast⟩ := ih hrel'
      refine ⟨last, ?_, hlast⟩
      rw [run?, hstep]
      simp only [Option.bind_eq_bind, Option.bind_some, hrest]
      rfl

end Refinement
