import Mathlib.Init

/-! Loops that take turns: a turn may wait for ever, break the loop off or go on. -/

set_option autoImplicit false

namespace Updater.Base

/-- How a turn of a loop ends: it waits for ever, breaks off or goes on. -/
inductive Turn (State : Type) where
  | blocked
  | broke (st : State)
  | went (st : State)

namespace TurnLoop

variable {State : Type} (goesOn : State → Bool) (turn : State → Turn State)

/-- The loop for so many turns at most; gives the state in which it is left. -/
def run : Nat → State → Option State
  | 0, _ => none
  | fuel + 1, st =>
      if goesOn st then
        match turn st with
        | .blocked => none
        | .broke last => some last
        | .went next => run fuel next
      else some st

def Ends (start : State) : Prop :=
  ∃ fuel last, run goesOn turn fuel start = some last

/-- The states at the head of the loop. -/
inductive Reaches (start : State) : State → Prop where
  | start : Reaches start start
  | turn {st next : State} :
      Reaches start st → goesOn st = true → turn st = .went next → Reaches start next

/-- How the loop is left: at its head, or by a turn that breaks it off. -/
inductive Leaves (before last : State) : Prop where
  | head : goesOn before = false → last = before → Leaves before last
  | broke : goesOn before = true → turn before = .broke last → Leaves before last

section

variable {goesOn : State → Bool} {turn : State → Turn State} {start st last : State}

/-- Run lemma: what each turn keeps holds at the head of the loop. -/
theorem Reaches.keeps (reaches : Reaches goesOn turn start st) (Holds : State → Prop)
    (first : Holds start)
    (step : ∀ st next, Holds st → goesOn st = true → turn st = .went next → Holds next) :
    Holds st := by
  induction reaches with
  | start => exact first
  | turn _ more went ih => exact step _ _ ih more went

theorem Reaches.trans {middle : State} (front : Reaches goesOn turn start middle)
    (back : Reaches goesOn turn middle st) : Reaches goesOn turn start st := by
  induction back with
  | start => exact front
  | turn _ more went ih => exact ih.turn more went

/-- A run that ends leaves the loop from a state at its head. -/
theorem run_left {fuel : Nat} (ran : run goesOn turn fuel start = some last) :
    ∃ before, Reaches goesOn turn start before ∧ Leaves goesOn turn before last := by
  induction fuel generalizing start with
  | zero => cases ran
  | succ fuel ih =>
      rw [run] at ran
      split at ran
      · rename_i more
        split at ran
        · cases ran
        · rename_i broke
          cases ran
          exact ⟨start, .start, .broke more broke⟩
        · rename_i next went
          obtain ⟨before, reaches, leaves⟩ := ih ran
          exact ⟨before, (Reaches.start.turn more went).trans reaches, leaves⟩
      · rename_i done
        cases ran
        exact ⟨_, .start, .head (Bool.eq_false_iff.mpr done) rfl⟩

theorem ends_of_went {next : State} (more : goesOn st = true) (went : turn st = .went next)
    (ends : Ends goesOn turn next) : Ends goesOn turn st := by
  obtain ⟨fuel, last, ran⟩ := ends
  exact ⟨fuel + 1, last, by rw [run, if_pos more, went]; exact ran⟩

/-- A run leaves what the loop goes through in the same state. -/
theorem Reaches.run_some {fuel : Nat} (reaches : Reaches goesOn turn start st)
    (ran : run goesOn turn fuel start = some last) :
    ∃ fuel, run goesOn turn fuel st = some last := by
  refine reaches.keeps (fun st => ∃ fuel, run goesOn turn fuel st = some last) ⟨fuel, ran⟩ ?_
  rintro st next ⟨fuel, ran⟩ more went
  cases fuel with
  | zero => cases ran
  | succ fuel =>
      rw [run, if_pos more, went] at ran
      exact ⟨fuel, ran⟩

/-- Where a turn breaks the loop off, this is how it is left. -/
theorem Reaches.breaks {fuel : Nat} {broken : State} (reaches : Reaches goesOn turn start st)
    (ran : run goesOn turn fuel start = some last) (more : goesOn st = true)
    (broke : turn st = .broke broken) : last = broken := by
  obtain ⟨fuel, ran⟩ := reaches.run_some ran
  cases fuel with
  | zero => cases ran
  | succ fuel =>
      rw [run, if_pos more, broke] at ran
      exact (Option.some.inj ran).symm

theorem Reaches.not_blocked {fuel : Nat} (reaches : Reaches goesOn turn start st)
    (ran : run goesOn turn fuel start = some last) (more : goesOn st = true) :
    turn st ≠ .blocked := by
  intro blocked
  obtain ⟨fuel, ran⟩ := reaches.run_some ran
  cases fuel with
  | zero => cases ran
  | succ fuel =>
      rw [run, if_pos more, blocked] at ran
      cases ran

/-- What the loop goes through ends if its start does. -/
theorem Reaches.ends (reaches : Reaches goesOn turn start st) (ends : Ends goesOn turn start) :
    Ends goesOn turn st := by
  obtain ⟨fuel, last, ran⟩ := ends
  obtain ⟨fuel, ran⟩ := reaches.run_some ran
  exact ⟨fuel, last, ran⟩

/-- A loop does not end where each turn waits for ever or stays among states like these. -/
theorem not_ends_of_stays (Stays : State → Prop) (stays : Stays st)
    (step : ∀ st, Stays st → goesOn st = true ∧
      (turn st = .blocked ∨ ∃ next, turn st = .went next ∧ Stays next)) :
    ¬ Ends goesOn turn st := by
  rintro ⟨fuel, last, ran⟩
  induction fuel generalizing st with
  | zero => cases ran
  | succ fuel ih =>
      obtain ⟨more, blocked | ⟨next, went, again⟩⟩ := step st stays
      · rw [run, if_pos more, blocked] at ran
        cases ran
      · rw [run, if_pos more, went] at ran
        exact ih again ran

/-- A loop ends where no turn waits for ever and each turn that goes on descends. -/
theorem ends_of_descends {Lower : State → State → Prop} (wellFounded : WellFounded Lower)
    (step : ∀ st, Reaches goesOn turn start st → goesOn st = true →
      turn st ≠ .blocked ∧ ∀ next, turn st = .went next → Lower next st) :
    Ends goesOn turn start := by
  have from_ (st : State) : Reaches goesOn turn start st → Ends goesOn turn st := by
    induction st using wellFounded.induction with
    | _ st ih =>
        intro reaches
        cases more : goesOn st with
        | false => exact ⟨1, st, by rw [run, more, if_neg Bool.false_ne_true]⟩
        | true =>
            obtain ⟨waits, lower⟩ := step st reaches more
            cases taken : turn st with
            | blocked => exact absurd taken waits
            | broke last => exact ⟨1, last, by rw [run, if_pos more, taken]⟩
            | went next =>
                exact ends_of_went more taken
                  (ih next (lower next taken) (reaches.turn more taken))
  exact from_ start .start

end

end TurnLoop

end Updater.Base
