import Updater.Base.MemoryMove

/-! Buffers of a size, whose accesses are checked, and moves that stay inside of them. -/

set_option autoImplicit false

namespace Updater.Base

/-- A range of a buffer; `none` where the buffer does not have all of it. -/
def checkedSlice (buffer : Bytes) (start size : Nat) : Option Bytes :=
  if start + size ≤ buffer.length then some (slice buffer start size) else none

/-- A buffer with a range overwritten; `none` where the buffer does not have all of it. -/
def checkedWrite (buffer : Bytes) (start : Nat) (data : Bytes) : Option Bytes :=
  if start + data.length ≤ buffer.length then some (writeAt buffer start data) else none

/-- The memory begins with the bytes of a buffer. -/
def Memory.Holds (memory : Memory) (buffer : Bytes) : Prop :=
  ∀ i < buffer.length, buffer[i]? = some (memory i)

/-- Memory that has the bytes of a buffer, and zeros behind them. -/
def Memory.ofBytes (buffer : Bytes) : Memory := fun i => (buffer[i]?).getD 0

theorem Memory.holds_ofBytes (buffer : Bytes) : (Memory.ofBytes buffer).Holds buffer := by
  intro i within
  rw [ofBytes, List.getElem?_eq_getElem within]
  rfl

namespace Memory.Holds

variable {memory : Memory} {buffer : Bytes}

theorem read_zero (holds : memory.Holds buffer) : memory.read 0 buffer.length = buffer := by
  refine List.ext_getElem? fun i => ?_
  rw [getElem?_read, Nat.zero_add]
  by_cases within : i < buffer.length
  · rw [if_pos within, holds i within]
  · rw [if_neg within, List.getElem?_eq_none (Nat.le_of_not_lt within)]

theorem read (holds : memory.Holds buffer) {start size : Nat}
    (inside : start + size ≤ buffer.length) : memory.read start size = slice buffer start size := by
  refine List.ext_getElem? fun i => ?_
  rw [getElem?_read, getElem?_slice]
  by_cases within : i < size
  · rw [if_pos within, if_pos within, holds (start + i) (by omega)]
  · rw [if_neg within, if_neg within]

theorem write (holds : memory.Holds buffer) {start : Nat} {data : Bytes}
    (inside : start + data.length ≤ buffer.length) :
    (memory.write start data).Holds (writeAt buffer start data) := by
  have room : start ≤ buffer.length := Nat.le_trans (Nat.le_add_right _ _) inside
  intro i within
  rw [length_writeAt inside] at within
  rw [getElem?_writeAt room]
  by_cases before : i < start
  · rw [if_pos before, memory.write_of_lt before, holds i within]
  · obtain ⟨k, rfl⟩ := Nat.exists_eq_add_of_le (Nat.le_of_not_lt before)
    rw [if_neg before, Nat.add_sub_cancel_left]
    by_cases covered : k < data.length
    · rw [if_pos (Nat.add_lt_add_left covered start), List.getElem?_eq_getElem covered,
        memory.write_within (List.getElem?_eq_getElem covered)]
    · have past : start + data.length ≤ start + k :=
        Nat.add_le_add_left (Nat.le_of_not_lt covered) start
      rw [if_neg (Nat.not_lt_of_le past), memory.write_of_ge past, holds (start + k) within]

end Memory.Holds

namespace Move

/-- Both ranges of a move lie inside of buffers of these sizes. -/
def Inside (move : Move) (sourceSize targetSize : Nat) : Prop :=
  move.src + move.size ≤ sourceSize ∧ move.dst + move.size ≤ targetSize

/-- A move into a buffer, from one that may be the same: `source` says which. -/
def checked (source : Bytes → Bytes) (target : Bytes) (move : Move) : Option Bytes := do
  let data ← checkedSlice (source target) move.src move.size
  checkedWrite target move.dst data

def allChecked (source : Bytes → Bytes) (target : Bytes) (moves : List Move) : Option Bytes :=
  moves.foldlM (checked source) target

section Checked

variable {source : Bytes → Bytes} {target : Bytes} {moves : List Move}

theorem checked_of_inside {move : Move} (inside : move.Inside (source target).length target.length) :
    checked source target move =
      some (writeAt target move.dst (slice (source target) move.src move.size)) := by
  obtain ⟨read, written⟩ := inside
  rw [checked, checkedSlice, if_pos read, Option.bind_eq_bind, Option.bind_some, checkedWrite,
    length_slice read, if_pos written]

theorem checked_eq_none {move : Move} (outside : ¬move.Inside (source target).length target.length) :
    checked source target move = none := by
  rw [checked, checkedSlice]
  by_cases read : move.src + move.size ≤ (source target).length
  · rw [if_pos read, Option.bind_eq_bind, Option.bind_some, checkedWrite, length_slice read]
    exact if_neg fun written => outside ⟨read, written⟩
  · rw [if_neg read]
    rfl

/-- Moves in turn go through exactly when all of them lie inside. -/
theorem allChecked_ne_none_iff {sourceSize : Nat}
    (sized : ∀ buffer, buffer.length = target.length → (source buffer).length = sourceSize) :
    allChecked source target moves ≠ none ↔
      ∀ move ∈ moves, move.Inside sourceSize target.length := by
  induction moves generalizing target with
  | nil => exact ⟨fun _ => nofun, fun _ => nofun⟩
  | cons move moves ih =>
      have whole := sized target rfl
      rw [allChecked, List.foldlM_cons, List.forall_mem_cons]
      by_cases inside : move.Inside sourceSize target.length
      · have read := whole.symm ▸ inside
        have length : (writeAt target move.dst (slice (source target) move.src move.size)).length =
            target.length := by
          refine length_writeAt ?_
          rw [length_slice read.1]
          exact read.2
        have rest := @ih (writeAt target move.dst (slice (source target) move.src move.size))
          fun buffer same => sized buffer (same.trans length)
        rw [allChecked, length] at rest
        rw [checked_of_inside read, Option.bind_eq_bind, Option.bind_some, rest]
        exact (and_iff_right inside).symm
      · rw [checked_eq_none fun read => inside (whole ▸ read)]
        exact ⟨fun done_ => absurd rfl done_, fun all => absurd all.1 inside⟩

/-- Where moves go through, the buffer keeps its size, and memory that has its bytes sees the same
moves. -/
theorem allChecked_holds {sourceMemory : Memory → Memory} {memory : Memory} {result : Bytes}
    (seen : ∀ memory buffer, Memory.Holds memory buffer →
      (sourceMemory memory).Holds (source buffer))
    (holds : memory.Holds target) (moved : allChecked source target moves = some result) :
    result.length = target.length ∧
      (moves.foldl (fun memory move => between (sourceMemory memory) memory move) memory).Holds
        result := by
  induction moves generalizing target memory with
  | nil =>
      cases moved
      exact ⟨rfl, holds⟩
  | cons move moves ih =>
      rw [allChecked, List.foldlM_cons] at moved
      by_cases inside : move.Inside (source target).length target.length
      · have length := length_slice inside.1
        rw [checked_of_inside inside, Option.bind_eq_bind, Option.bind_some] at moved
        have room : move.dst + (slice (source target) move.src move.size).length ≤ target.length := by
          rw [length]
          exact inside.2
        have step := holds.write room
        rw [← (seen memory target holds).read inside.1] at step
        obtain ⟨same, rest⟩ := ih step
          (by rw [(seen memory target holds).read inside.1]; exact moved)
        rw [(seen memory target holds).read inside.1] at same
        exact ⟨same.trans (length_writeAt room), rest⟩
      · rw [checked_eq_none inside] at moved
        exact nomatch moved

/-- The pieces of a range lie inside exactly when the range does, if there is any of it. -/
theorem chunks_inside_iff {limit dst src size sourceSize targetSize : Nat} (positive : 0 < limit) :
    (∀ move ∈ chunks limit dst src size, move.Inside sourceSize targetSize) ↔
      (size ≠ 0 → Inside ⟨dst, src, size⟩ sourceSize targetSize) := by
  induction size using Nat.strongRecOn generalizing dst src with
  | ind size ih =>
      by_cases more : 0 < size
      · have rest := @ih (size - min size limit) (by omega) (dst + min size limit)
          (src + min size limit)
        rw [chunks_of_pos positive more, List.forall_mem_cons, rest]
        simp only [Inside]
        omega
      · rw [chunks, dif_neg fun both => more both.1]
        exact ⟨fun _ some_ => absurd (Nat.pos_of_ne_zero some_) more, fun _ _ other => by cases other⟩

end Checked

end Move

end Updater.Base
