import Mathlib.Logic.Function.Basic

/-! Parties that take turns: runs under a schedule, and invariants of the runs whose steps
all meet a condition. -/

set_option autoImplicit false

namespace Updater.Base

variable {Actor State : Type} (step : Actor → State → State)

/-- The state after the steps of a schedule. -/
def runSchedule (state : State) (schedule : List Actor) : State :=
  schedule.foldl (fun state actor => step actor state) state

/-- Every step of the schedule meets the condition in the state where it is taken. -/
def Along (condition : Actor → State → Prop) : State → List Actor → Prop
  | _, [] => True
  | state, actor :: schedule => condition actor state ∧ Along condition (step actor state) schedule

instance decidableAlong (condition : Actor → State → Prop)
    [decidable : ∀ actor state, Decidable (condition actor state)] :
    ∀ state schedule, Decidable (Along step condition state schedule)
  | _, [] => .isTrue trivial
  | state, actor :: schedule =>
      @instDecidableAnd _ _ (decidable actor state)
        (decidableAlong condition (step actor state) schedule)

/-- How many steps of the schedule are of a kind in the state where they are taken. -/
def countAlong (kind : Actor → State → Bool) : State → List Actor → Nat
  | _, [] => 0
  | state, actor :: schedule => (kind actor state).toNat + countAlong kind (step actor state) schedule

variable {step} {condition : Actor → State → Prop} {kept : State → Prop}

/-- An invariant that knows how many of these steps there were. -/
theorem countAlong_invariant {kind : Actor → State → Bool} {counted : Nat → State → Prop}
    {state : State} {count : Nat} {schedule : List Actor}
    (preserved : ∀ actor ∈ schedule, ∀ state count, counted count state →
      counted (count + (kind actor state).toNat) (step actor state))
    (start : counted count state) :
    counted (count + countAlong step kind state schedule) (runSchedule step state schedule) := by
  induction schedule generalizing state count with
  | nil => exact start
  | cons actor schedule ih =>
      rw [countAlong, ← Nat.add_assoc]
      exact ih (fun other later => preserved other (List.mem_cons_of_mem _ later))
        (preserved actor List.mem_cons_self state count start)

theorem Along.invariant (preserved : ∀ actor state, kept state → condition actor state →
      kept (step actor state)) {state : State} {schedule : List Actor}
    (start : kept state) (along : Along step condition state schedule) :
    kept (runSchedule step state schedule) := by
  induction schedule generalizing state with
  | nil => exact start
  | cons actor schedule ih => exact ih (preserved actor state start along.1) along.2

/-- Under an invariant that it preserves, a condition gives another one all along. -/
theorem Along.imp {other : Actor → State → Prop}
    (implies : ∀ actor state, kept state → condition actor state → other actor state)
    (preserved : ∀ actor state, kept state → condition actor state → kept (step actor state))
    {state : State} {schedule : List Actor} (start : kept state)
    (along : Along step condition state schedule) : Along step other state schedule := by
  induction schedule generalizing state with
  | nil => trivial
  | cons actor schedule ih =>
      exact ⟨implies actor state start along.1, ih (preserved actor state start along.1) along.2⟩

/-- An invariant of every step holds along every schedule. -/
theorem runSchedule_invariant (preserved : ∀ actor state, kept state →
      kept (step actor state)) {state : State} (schedule : List Actor)
    (start : kept state) : kept (runSchedule step state schedule) := by
  induction schedule generalizing state with
  | nil => exact start
  | cons actor schedule ih => exact ih (preserved actor state start)

/-- Two conditions that agree under an invariant, which the one preserves, hold along the same
schedules. -/
theorem along_iff {other : Actor → State → Prop}
    (agree : ∀ actor state, kept state → (condition actor state ↔ other actor state))
    (preserved : ∀ actor state, kept state → condition actor state → kept (step actor state))
    {state : State} (schedule : List Actor) (start : kept state) :
    Along step condition state schedule ↔ Along step other state schedule := by
  induction schedule generalizing state with
  | nil => exact Iff.rfl
  | cons actor schedule ih =>
      constructor
      · rintro ⟨now, later⟩
        exact ⟨(agree actor state start).mp now, (ih (preserved actor state start now)).mp later⟩
      · rintro ⟨now, later⟩
        have first := (agree actor state start).mpr now
        exact ⟨first, (ih (preserved actor state start first)).mpr later⟩

end Updater.Base
