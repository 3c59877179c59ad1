import Mathlib.Init

/-! Runs of a system that takes the actions of a list, and properties of each step of a run. -/

set_option autoImplicit false

namespace Updater.Base

variable {State Action : Type} (step : State → Action → State)

/-- Each step of the run is taken from a state and with an action that have the property. -/
def EachStep (Property : State → Action → Prop) : State → List Action → Prop
  | _, [] => True
  | st, action :: actions => Property st action ∧ EachStep Property (step st action) actions

variable {step} {Property Other Allowed : State → Action → Prop} {st : State} {action : Action}
  {actions : List Action}

instance EachStep.decidable [∀ st action, Decidable (Property st action)] :
    ∀ (st : State) (actions : List Action), Decidable (EachStep step Property st actions)
  | _, [] => isTrue trivial
  | st, action :: actions =>
      have := EachStep.decidable (step st action) actions
      inferInstanceAs (Decidable (_ ∧ _))

@[simp] theorem eachStep_nil : EachStep step Property st [] :=
  trivial

@[simp] theorem eachStep_cons : EachStep step Property st (action :: actions) ↔
    Property st action ∧ EachStep step Property (step st action) actions :=
  Iff.rfl

/-- Two properties that agree on each allowed step from a state with the invariant agree on whole
runs, where the invariant lives through the steps with the second one. -/
theorem eachStep_iff {Invariant : State → Prop}
    (agree : ∀ st action, Invariant st → Allowed st action → (Property st action ↔ Other st action))
    (keeps : ∀ st action, Invariant st → Allowed st action → Other st action →
      Invariant (step st action))
    (holds : Invariant st) (allowed : EachStep step Allowed st actions) :
    EachStep step Property st actions ↔ EachStep step Other st actions := by
  induction actions generalizing st with
  | nil => exact Iff.rfl
  | cons action actions hypothesis =>
      obtain ⟨now, later⟩ := allowed
      rw [eachStep_cons, eachStep_cons, agree st action holds now]
      exact and_congr_right fun other => hypothesis (keeps st action holds now other) later

end Updater.Base
