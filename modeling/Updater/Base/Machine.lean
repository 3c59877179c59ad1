import Mathlib.Init

/-! Computations over a state that may stop before their end; the state that they reached
stays. -/

set_option autoImplicit false

namespace Updater.Base

def Machine (State Stop Value : Type) := State → Except Stop Value × State

namespace Machine

variable {State Stop α β : Type}

def get : Machine State Stop State := fun st => (.ok st, st)

def modify (change : State → State) : Machine State Stop Unit := fun st => (.ok (), change st)

def stop (reason : Stop) : Machine State Stop α := fun st => (.error reason, st)

def andThen (first : Machine State Stop α) (next : α → Machine State Stop β) :
    Machine State Stop β := fun st =>
  match first st with
  | (.ok value, st') => next value st'
  | (.error reason, st') => (.error reason, st')

instance : Monad (Machine State Stop) where
  pure value := fun st => (.ok value, st)
  bind := andThen

/-- Started in `before`, the computation leaves its outcome and the state in `after`. -/
def Meets (before : State → Prop) (computation : Machine State Stop α)
    (after : Except Stop α → State → Prop) : Prop :=
  ∀ st, before st → after (computation st).1 (computation st).2

/-- Where the computation ends with a value, it has related the states by `Related`. -/
def Relates (Related : State → State → Prop) (computation : Machine State Stop α) : Prop :=
  ∀ st value st', computation st = (.ok value, st') → Related st st'

namespace Meets

variable {before : State → Prop} {between : Except Stop α → State → Prop}
  {after : Except Stop β → State → Prop}

theorem pure {value : β} (holds : ∀ st, before st → after (.ok value) st) :
    Meets before (Pure.pure value : Machine State Stop β) after := by
  intro st started
  exact holds st started

theorem modify {change : State → State} {behind : Except Stop Unit → State → Prop}
    (holds : ∀ st, before st → behind (.ok ()) (change st)) :
    Meets before (Machine.modify change) behind := by
  intro st started
  exact holds st started

theorem stop {reason : Stop} (holds : ∀ st, before st → after (.error reason) st) :
    Meets before (Machine.stop reason : Machine State Stop β) after := by
  intro st started
  exact holds st started

theorem bind {first : Machine State Stop α} {next : α → Machine State Stop β}
    (start : Meets before first between)
    (rest : ∀ value, Meets (between (.ok value)) (next value) after)
    (stops : ∀ reason st, between (.error reason) st → after (.error reason) st) :
    Meets before (first >>= next) after := by
  intro st started
  have reached := start st started
  change after (andThen first next st).1 (andThen first next st).2
  unfold andThen
  generalize first st = outcome at reached ⊢
  obtain ⟨result, st'⟩ := outcome
  cases result with
  | error reason => exact stops reason st' reached
  | ok value => exact rest value st' reached

/-- The first part always ends with the same value. -/
theorem bind_value {first : Machine State Stop α} {next : α → Machine State Stop β} {value : α}
    {middle : State → Prop}
    (start : Meets before first fun outcome st => outcome = .ok value ∧ middle st)
    (rest : Meets middle (next value) after) : Meets before (first >>= next) after := by
  refine .bind start (fun other st held => ?_) fun reason st held => nomatch held.1
  obtain ⟨same, reached⟩ := held
  cases same
  exact rest st reached

theorem weaken {computation : Machine State Stop β} {behind : Except Stop β → State → Prop}
    (meets : Meets before computation behind)
    (weaker : ∀ result st, behind result st → after result st) :
    Meets before computation after := by
  intro st started
  exact weaker _ _ (meets st started)

end Meets

/-- A sequence that ends with a value is that of its parts. -/
theorem bind_eq_ok {first : Machine State Stop α} {next : α → Machine State Stop β} {st st' : State}
    {value : β} (ended : (first >>= next) st = (.ok value, st')) :
    ∃ middle between, first st = (.ok middle, between) ∧ next middle between = (.ok value, st') := by
  change andThen first next st = _ at ended
  unfold andThen at ended
  generalize first st = outcome at ended ⊢
  obtain ⟨result, between⟩ := outcome
  cases result with
  | error reason => cases ended
  | ok middle => exact ⟨middle, between, rfl, ended⟩

namespace Relates

variable {Related : State → State → Prop}

theorem pure (reflexive : ∀ st, Related st st) (value : α) :
    Relates Related (Pure.pure value : Machine State Stop α) := by
  intro st result st' ended
  cases ended
  exact reflexive st

theorem get (reflexive : ∀ st, Related st st) :
    Relates Related (Machine.get : Machine State Stop State) := by
  intro st result st' ended
  cases ended
  exact reflexive st

theorem modify {change : State → State} (related : ∀ st, Related st (change st)) :
    Relates Related (Machine.modify change : Machine State Stop Unit) := by
  intro st result st' ended
  cases ended
  exact related st

theorem stop (reason : Stop) : Relates Related (Machine.stop reason : Machine State Stop α) := by
  intro st result st' ended
  cases ended

theorem bind (transitive : ∀ st st' st'', Related st st' → Related st' st'' → Related st st'')
    {first : Machine State Stop α} {next : α → Machine State Stop β}
    (start : Relates Related first) (rest : ∀ value, Relates Related (next value)) :
    Relates Related (first >>= next) := by
  intro st value st' ended
  obtain ⟨middle, between, reached, finished⟩ := bind_eq_ok ended
  exact transitive st between st' (start st middle between reached)
    (rest middle between value st' finished)

end Relates

end Machine

end Updater.Base
