import Updater.Base.Bytes

/-! Bytes of files that are written and, after a sync, durable; a power loss may drop the others. -/

set_option autoImplicit false

namespace Updater.Base

/-- The bytes of files that hold what was written to them: in memory only, or durably. -/
structure Durability where
  written : Nat → Nat → Bool
  durable : Nat → Nat → Bool

namespace Durability

variable (state : Durability)

def fresh : Durability where
  written := fun _ _ => false
  durable := fun _ _ => false

/-- A write of bytes from an offset on. -/
def write (file offset length : Nat) : Durability :=
  { state with
    written := fun other at_ =>
      state.written other at_ || (other = file && decide (offset ≤ at_ ∧ at_ < offset + length)) }

/-- A sync of a file that succeeds. -/
def sync (file : Nat) : Durability where
  written := fun other at_ => state.written other at_ && other ≠ file
  durable := fun other at_ => state.durable other at_ || (other = file && state.written other at_)

/-- A power loss that keeps some of the bytes not yet durable. -/
def lose (kept : Nat → Nat → Bool) : Durability where
  written := fun _ _ => false
  durable := fun file at_ => state.durable file at_ || (state.written file at_ && kept file at_)

/-- The byte was written, and is not lost so far. -/
def Has (file at_ : Nat) : Prop :=
  state.durable file at_ = true ∨ state.written file at_ = true

variable {state} {file other offset length at_ : Nat}

theorem has_write : (state.write file offset length).Has other at_ ↔
    state.Has other at_ ∨ (other = file ∧ offset ≤ at_ ∧ at_ < offset + length) := by
  simp [Has, write, or_assoc]

@[simp] theorem durable_write :
    (state.write file offset length).durable other at_ = state.durable other at_ := rfl

@[simp] theorem has_sync : (state.sync file).Has other at_ ↔ state.Has other at_ := by
  by_cases same : other = file
  · simp [Has, sync, same]
  · simp [Has, sync, same]

theorem durable_sync (has : state.Has file at_) : (state.sync file).durable file at_ = true := by
  rcases has with durable | written
  · simp [sync, durable]
  · simp [sync, written]

theorem durable_sync_of_durable (durable : state.durable other at_ = true) :
    (state.sync file).durable other at_ = true := by
  simp [sync, durable]

theorem has_lose {kept : Nat → Nat → Bool} : (state.lose kept).Has other at_ ↔
    (state.lose kept).durable other at_ = true := by
  simp [Has, lose]

theorem durable_lose {kept : Nat → Nat → Bool} : (state.lose kept).durable other at_ = true ↔
    state.durable other at_ = true ∨ (state.written other at_ = true ∧ kept other at_ = true) := by
  simp [lose]

end Durability

end Updater.Base
