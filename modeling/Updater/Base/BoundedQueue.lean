import Mathlib.Data.List.Infix
import Mathlib.Data.Nat.Bitwise
import Mathlib.Data.Nat.ModEq
import Mathlib.Tactic.Ring

/-! A bounded first-in first-out queue with its history, and the index
arithmetic of a circular store for it. -/

set_option autoImplicit false

namespace Updater.Base

/-- Everything ever accepted, and how much of it was handed out again. -/
structure BoundedQueue (α : Type) (capacity : Nat) where
  accepted : List α
  taken : Nat
  taken_le : taken ≤ accepted.length
  bounded : accepted.length ≤ taken + capacity

namespace BoundedQueue

variable {α : Type} {capacity : Nat}

def empty : BoundedQueue α capacity where
  accepted := []
  taken := 0
  taken_le := Nat.le_refl _
  bounded := Nat.zero_le _

def delivered (queue : BoundedQueue α capacity) : List α :=
  queue.accepted.take queue.taken

def size (queue : BoundedQueue α capacity) : Nat :=
  queue.accepted.length - queue.taken

theorem size_le (queue : BoundedQueue α capacity) : queue.size ≤ capacity := by
  have bounded := queue.bounded
  simp only [size]
  omega

theorem length_delivered (queue : BoundedQueue α capacity) :
    queue.delivered.length = queue.taken := by
  rw [delivered, List.length_take, Nat.min_eq_left queue.taken_le]

theorem delivered_prefix (queue : BoundedQueue α capacity) : queue.delivered <+: queue.accepted :=
  List.take_prefix _ _

def push (queue : BoundedQueue α capacity) (item : α) (room : queue.size < capacity) :
    BoundedQueue α capacity where
  accepted := queue.accepted ++ [item]
  taken := queue.taken
  taken_le := by
    have taken := queue.taken_le
    rw [List.length_append]
    omega
  bounded := by
    have taken := queue.taken_le
    simp only [size] at room
    rw [List.length_append, List.length_singleton]
    omega

def pop (queue : BoundedQueue α capacity) (available : 0 < queue.size) :
    BoundedQueue α capacity where
  accepted := queue.accepted
  taken := queue.taken + 1
  taken_le := by
    simp only [size] at available
    omega
  bounded := by
    have bounded := queue.bounded
    omega

theorem delivered_push (queue : BoundedQueue α capacity) (item : α)
    (room : queue.size < capacity) : (queue.push item room).delivered = queue.delivered := by
  simp only [delivered, push]
  rw [List.take_append_of_le_length queue.taken_le]

theorem delivered_pop {queue : BoundedQueue α capacity} (available : 0 < queue.size) {item : α}
    (next : queue.accepted[queue.taken]? = some item) :
    (queue.pop available).delivered = queue.delivered ++ [item] := by
  simp only [delivered, pop]
  rw [List.take_add_one, next, Option.toList_some]

end BoundedQueue

theorem xor_two_pow_of_lt {k low : Nat} (inside : low < 2 ^ k) : low ^^^ 2 ^ k = low + 2 ^ k := by
  apply Nat.eq_of_testBit_eq
  intro bit
  have shape : low + 2 ^ k = 2 ^ k * 1 + low := by omega
  rw [Nat.testBit_xor, shape, Nat.testBit_two_pow_mul_add 1 inside, Nat.testBit_two_pow]
  rcases Nat.lt_trichotomy bit k with below | rfl | above
  · simp [below, Nat.ne_of_gt below]
  · simp [Nat.testBit_lt_two_pow inside]
  · have high : low.testBit bit = false :=
      Nat.testBit_lt_two_pow (Nat.lt_of_lt_of_le inside (Nat.pow_le_pow_right (by omega) above.le))
    obtain ⟨gap, shift⟩ : ∃ gap, bit - k = gap + 1 := ⟨bit - k - 1, by omega⟩
    simp [high, Nat.ne_of_lt above, Nat.not_lt_of_gt above, shift, Nat.testBit_succ]

/-- Flipping the top bit moves half a turn around a ring of `2 * 2 ^ k` places. -/
theorem xor_two_pow_eq_add_mod {k index : Nat} (inside : index < 2 * 2 ^ k) :
    index ^^^ 2 ^ k = (index + 2 ^ k) % (2 * 2 ^ k) := by
  rcases Nat.lt_or_ge index (2 ^ k) with low | high
  · rw [Nat.mod_eq_of_lt (by omega), xor_two_pow_of_lt low]
  · obtain ⟨low, rfl⟩ := Nat.exists_eq_add_of_le' high
    have small : low < 2 ^ k := by omega
    have wrap : low + 2 ^ k + 2 ^ k = low + 2 * 2 ^ k := by ring
    rw [wrap, Nat.add_mod_right, Nat.mod_eq_of_lt (by omega), ← xor_two_pow_of_lt small,
      Nat.xor_assoc, Nat.xor_self, Nat.xor_zero]

/-- Counters less than a turn apart are equal when their places are. -/
theorem eq_of_mod_eq {size first second : Nat} (order : first ≤ second)
    (near : second < first + size) (same : first % size = second % size) : first = second := by
  obtain ⟨gap, rfl⟩ := Nat.exists_eq_add_of_le order
  have gapZero : 0 ≡ gap [MOD size] := Nat.ModEq.add_left_cancel' first same
  have gapEq : 0 = gap := gapZero.eq_of_lt_of_lt (by omega) (by omega)
  omega

end Updater.Base
