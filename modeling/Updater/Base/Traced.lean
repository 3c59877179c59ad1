import Mathlib.Data.List.Basic

/-! Computations that may reject their input and leave a trace of what they did,
which stays visible after a rejection. -/

set_option autoImplicit false

namespace Updater.Base

structure Traced (Event α : Type) where
  events : List Event
  result : Option α
  deriving DecidableEq, Repr

namespace Traced

variable {Event α β : Type}

def emit (events : List Event) : Traced Event Unit where
  events
  result := some ()

def reject : Traced Event α where
  events := []
  result := none

def ofOption (result : Option α) : Traced Event α where
  events := []
  result

def andThen (first : Traced Event α) (next : α → Traced Event β) : Traced Event β :=
  match first.result with
  | none => { events := first.events, result := none }
  | some value =>
      { events := first.events ++ (next value).events, result := (next value).result }

instance : Monad (Traced Event) where
  pure value := { events := [], result := some value }
  bind := andThen

/-- Every event satisfies `Good`. -/
def All (Good : Event → Prop) (computation : Traced Event α) : Prop :=
  ∀ event ∈ computation.events, Good event

variable {Good : Event → Prop}

@[simp] theorem result_pure (value : α) : (pure value : Traced Event α).result = some value := rfl

@[simp] theorem result_emit (events : List Event) : (emit events).result = some () := rfl

@[simp] theorem result_reject : (reject : Traced Event α).result = none := rfl

@[simp] theorem result_ofOption (result : Option α) :
    (ofOption result : Traced Event α).result = result := rfl

@[simp] theorem result_bind (first : Traced Event α) (next : α → Traced Event β) :
    (first >>= next).result = first.result.bind fun value => (next value).result := by
  change (first.andThen next).result = _
  rw [andThen]
  cases first.result <;> rfl

theorem result_bind_some {first : Traced Event α} {next : α → Traced Event β} {value : α}
    (found : first.result = some value) : (first >>= next).result = (next value).result := by
  rw [result_bind, found]
  rfl

@[simp] theorem all_pure (value : α) : (pure value : Traced Event α).All Good := by
  intro event member
  cases member

@[simp] theorem all_emit (events : List Event) :
    (emit events).All Good ↔ ∀ event ∈ events, Good event := Iff.rfl

@[simp] theorem all_reject : (reject : Traced Event α).All Good := by
  intro event member
  cases member

@[simp] theorem all_ofOption (result : Option α) : (ofOption result : Traced Event α).All Good := by
  intro event member
  cases member

/-- The events of a sequence are those of its parts, as far as it gets. -/
@[simp] theorem all_bind (first : Traced Event α) (next : α → Traced Event β) :
    (first >>= next).All Good ↔
      first.All Good ∧ ∀ value, first.result = some value → (next value).All Good := by
  change (first.andThen next).All Good ↔ _
  rw [andThen]
  cases first.result with
  | none => simp [All]
  | some value => simp [All, or_imp, forall_and]

theorem all_ite {cond : Prop} [Decidable cond] {first second : Traced Event α} :
    (if cond then first else second).All Good ↔
      (cond → first.All Good) ∧ (¬ cond → second.All Good) := by
  split
  · rename_i holds
    simp [holds]
  · rename_i fails
    simp [fails]

theorem pure_bind (value : α) (next : α → Traced Event β) :
    ((pure value : Traced Event α) >>= next) = next value := rfl

theorem ofOption_none_bind (next : α → Traced Event β) :
    ((ofOption none : Traced Event α) >>= next) = ⟨[], none⟩ := rfl

theorem ofOption_some_bind (value : α) (next : α → Traced Event β) :
    ((ofOption (some value) : Traced Event α) >>= next) = next value := rfl

theorem emit_bind (events : List Event) (next : Unit → Traced Event β) :
    (emit events >>= next) = ⟨events ++ (next ()).events, (next ()).result⟩ := rfl

/-- What follows a computation that is known. -/
theorem some_bind (events : List Event) (value : α) (next : α → Traced Event β) :
    ((⟨events, some value⟩ : Traced Event α) >>= next) =
      ⟨events ++ (next value).events, (next value).result⟩ := rfl

theorem mem_events_bind {first : Traced Event α} {next : α → Traced Event β} {event : Event} :
    event ∈ (first >>= next).events ↔
      event ∈ first.events ∨ ∃ value, first.result = some value ∧ event ∈ (next value).events := by
  change event ∈ (first.andThen next).events ↔ _
  rw [andThen]
  cases first.result with
  | none => simp
  | some value => simp

/-- A computation whose events are all good, and what it gives. -/
structure Gives (Good : Event → Prop) (computation : Traced Event α) (result : Option α) : Prop where
  all : computation.All Good
  result : computation.result = result

namespace Gives

variable {first : Traced Event α} {next : α → Traced Event β}

theorem pure_some (value : α) : Gives Good (pure value : Traced Event α) (some value) :=
  ⟨all_pure value, rfl⟩

theorem reject_none : Gives Good (reject : Traced Event α) none := ⟨all_reject, rfl⟩

theorem emit_some {events : List Event} (good : ∀ event ∈ events, Good event) :
    Gives Good (emit events) (some ()) := ⟨good, rfl⟩

theorem bind {value : α} {result : Option β} (before : Gives Good first (some value))
    (after : Gives Good (next value) result) : Gives Good (first >>= next) result := by
  refine ⟨all_bind _ _ |>.mpr ⟨before.all, fun other found => ?_⟩, ?_⟩
  · rw [before.result] at found
    cases found
    exact after.all
  · rw [result_bind, before.result]
    exact after.result

theorem bind_none (before : Gives Good first none) : Gives Good (first >>= next) none := by
  refine ⟨all_bind _ _ |>.mpr ⟨before.all, fun other found => ?_⟩, ?_⟩
  · rw [before.result] at found
    cases found
  · rw [result_bind, before.result]
    rfl

theorem ofOption_bind {found : Option α} {result : α → Option β}
    (after : ∀ value, found = some value → Gives Good (next value) (result value)) :
    Gives Good (ofOption found >>= next) (found.bind result) := by
  cases found with
  | none => exact ⟨all_reject, rfl⟩
  | some value => exact bind ⟨all_ofOption _, rfl⟩ (after value rfl)

end Gives

end Traced

end Updater.Base
