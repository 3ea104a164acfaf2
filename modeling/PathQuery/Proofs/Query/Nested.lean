import PathQuery.Query.Plan

/-!
# Plans inside plans

A filter holds a plan, and the steps of that plan may be filters again.
`Plan.EveryStep` says that the steps on all these levels have a property, and
`Plan.innerInduction` is induction on a plan through the plans its filters hold.
-/

set_option autoImplicit false

namespace PathQuery.Plan

variable {σ : Type}

mutual

/-- Whether the steps of a plan, and those of the plans inside it, have a property. -/
def EveryStep (holds : Step σ → Prop) : Plan σ → Prop
  | .mk steps _ => StepsEvery holds steps

def StepsEvery (holds : Step σ → Prop) : List (Step σ) → Prop
  | [] => True
  | step :: rest => StepEvery holds step ∧ StepsEvery holds rest

def StepEvery (holds : Step σ → Prop) : Step σ → Prop
  | .keyed movement selector comparison negated =>
    holds (.keyed movement selector comparison negated)
  | .filter movement plan negated => holds (.filter movement plan negated) ∧ EveryStep holds plan

end

variable {holds : Step σ → Prop}

theorem stepsEvery_iff {steps : List (Step σ)} :
    StepsEvery holds steps ↔ ∀ step ∈ steps, StepEvery holds step := by
  induction steps with
  | nil => simp [StepsEvery]
  | cons step rest ih => simp [StepsEvery, ih]

theorem StepEvery.self {step : Step σ} (every : StepEvery holds step) : holds step := by
  cases step with
  | keyed => exact every
  | filter => exact every.1

theorem StepEvery.inner {movement : Movement} {plan : Plan σ} {negated : Bool}
    (every : StepEvery holds (.filter movement plan negated)) : plan.EveryStep holds :=
  every.2

theorem innerInduction {motive : Plan σ → Prop}
    (step : ∀ steps stop, (∀ movement inner negated,
      Step.filter movement inner negated ∈ steps → motive inner) → motive (.mk steps stop)) :
    ∀ plan : Plan σ, motive plan
  | .mk steps stop => step steps stop fun _ inner _ _ => innerInduction step inner
termination_by plan => sizeOf plan
decreasing_by
  have smaller := List.sizeOf_lt_of_mem ‹_ ∈ steps›
  simp only [Step.filter.sizeOf_spec, Plan.mk.sizeOf_spec] at smaller ⊢
  omega

theorem EveryStep.imp {further : Step σ → Prop} (implied : ∀ step, holds step → further step)
    {plan : Plan σ} (every : plan.EveryStep holds) : plan.EveryStep further := by
  induction plan using innerInduction with
  | step steps stop ih =>
    refine stepsEvery_iff.mpr fun step listed => ?_
    have here := stepsEvery_iff.mp every step listed
    cases step with
    | keyed => exact implied _ here
    | filter movement inner negated =>
      exact ⟨implied _ here.self, ih _ _ _ listed here.inner⟩

end PathQuery.Plan
