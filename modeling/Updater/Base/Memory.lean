import Updater.Base.Bytes

/-! Memory from an address on, with reads and writes of byte strings. -/

set_option autoImplicit false

namespace Updater.Base

abbrev Memory : Type := Nat → UInt8

namespace Memory

def read (memory : Memory) (start length : Nat) : Bytes :=
  (List.range length).map fun i => memory (start + i)

def write (memory : Memory) (start : Nat) (bytes : Bytes) : Memory := fun address =>
  if start ≤ address then (bytes[address - start]?).getD (memory address) else memory address

/-- The memory from a later address on. -/
def behind (memory : Memory) (start : Nat) : Memory := fun address => memory (start + address)

variable (memory : Memory)

@[simp] theorem length_read (start length : Nat) : (memory.read start length).length = length := by
  rw [read, List.length_map, List.length_range]

theorem getElem?_read (start length i : Nat) :
    (memory.read start length)[i]? = if i < length then some (memory (start + i)) else none := by
  rw [read, List.getElem?_map]
  by_cases within : i < length
  · rw [List.getElem?_range within, if_pos within]
    rfl
  · rw [if_neg within, List.getElem?_eq_none (by simpa using within)]
    rfl

theorem read_congr {other : Memory} {start start' length : Nat}
    (same : ∀ i < length, memory (start + i) = other (start' + i)) :
    memory.read start length = other.read start' length := by
  refine List.map_congr_left fun i within => ?_
  exact same i (List.mem_range.mp within)

theorem read_eq_read_iff {other : Memory} {start start' length : Nat} :
    memory.read start length = other.read start' length ↔
      ∀ i < length, memory (start + i) = other (start' + i) := by
  constructor
  · intro same i within
    have at_ := congrArg (fun bytes => bytes[i]?) same
    simpa only [getElem?_read, if_pos within, Option.some.injEq] using at_
  · exact memory.read_congr

theorem read_behind (start offset length : Nat) :
    (memory.behind start).read offset length = memory.read (start + offset) length := by
  refine read_congr _ fun i _ => ?_
  rw [behind, Nat.add_assoc]

theorem write_behind (start at_ : Nat) (bytes : Bytes) :
    (memory.write (start + at_) bytes).behind start = (memory.behind start).write at_ bytes := by
  funext address
  rw [behind, write, write, behind, Nat.add_sub_add_left]
  by_cases past : at_ ≤ address
  · rw [if_pos past, if_pos (Nat.add_le_add_left past start)]
  · rw [if_neg past, if_neg fun reached => past (Nat.le_of_add_le_add_left reached)]

theorem write_of_lt {start address : Nat} {bytes : Bytes} (before : address < start) :
    memory.write start bytes address = memory address :=
  if_neg (Nat.not_le_of_lt before)

theorem write_of_ge {start address : Nat} {bytes : Bytes} (past : start + bytes.length ≤ address) :
    memory.write start bytes address = memory address := by
  have outside : bytes[address - start]? = none := List.getElem?_eq_none (by omega)
  rw [write, outside]
  split
  · rfl
  · rfl

theorem write_within {start i : Nat} {bytes : Bytes} {byte : UInt8} (within : bytes[i]? = some byte) :
    memory.write start bytes (start + i) = byte := by
  rw [write, if_pos (Nat.le_add_right start i), Nat.add_sub_cancel_left, within]
  rfl

theorem read_write (start : Nat) (bytes : Bytes) :
    (memory.write start bytes).read start bytes.length = bytes := by
  refine List.ext_getElem? fun i => ?_
  rw [getElem?_read]
  by_cases within : i < bytes.length
  · rw [if_pos within, List.getElem?_eq_getElem within,
      memory.write_within (List.getElem?_eq_getElem within)]
  · rw [if_neg within, List.getElem?_eq_none (Nat.le_of_not_lt within)]

/-- A byte of a range that is copied from another memory. -/
theorem write_read_within (source : Memory) {start from_ length i : Nat} (within : i < length) :
    memory.write start (source.read from_ length) (start + i) = source (from_ + i) :=
  memory.write_within ((source.getElem?_read from_ length i).trans (if_pos within))

theorem read_write_disjoint {start length at_ : Nat} {bytes : Bytes}
    (disjoint : start + length ≤ at_ ∨ at_ + bytes.length ≤ start) :
    (memory.write at_ bytes).read start length = memory.read start length := by
  refine read_congr _ fun i within => ?_
  rcases disjoint with before | past
  · exact memory.write_of_lt (by omega)
  · exact memory.write_of_ge (by omega)

theorem write_write {start : Nat} {first second : Bytes} (same : second.length = first.length) :
    (memory.write start first).write start second = memory.write start second := by
  funext address
  by_cases past : start + second.length ≤ address
  · rw [write_of_ge _ past, write_of_ge _ past, write_of_ge _ (same ▸ past)]
  · by_cases before : address < start
    · rw [write_of_lt _ before, write_of_lt _ before, write_of_lt _ before]
    · have within : address - start < second.length := by omega
      have found := List.getElem?_eq_getElem within
      have there : start + (address - start) = address := Nat.add_sub_of_le (Nat.le_of_not_lt before)
      exact there ▸ (write_within _ found).trans (write_within _ found).symm

theorem write_append (start : Nat) (first second : Bytes) :
    (memory.write start first).write (start + first.length) second =
      memory.write start (first ++ second) := by
  funext address
  rcases Nat.lt_or_ge address (start + first.length) with before | behind
  · rw [write_of_lt _ before, write, write]
    split
    case _ past => rw [List.getElem?_append_left (by omega)]
    case _ => rfl
  · have past : start ≤ address := Nat.le_trans (Nat.le_add_right _ _) behind
    have index : address - start - first.length = address - (start + first.length) := by omega
    rw [write, if_pos behind, write_of_ge _ behind, write, if_pos past,
      List.getElem?_append_right (by omega), index]

@[simp] theorem write_nil (start : Nat) : memory.write start [] = memory := by
  funext address
  rcases Nat.lt_or_ge address start with before | past
  · exact memory.write_of_lt before
  · exact memory.write_of_ge past

/-- Bytes that are written back where they were read change nothing. -/
theorem write_read (start length : Nat) : memory.write start (memory.read start length) = memory := by
  funext address
  rcases Nat.lt_or_ge address start with before | behind
  · exact memory.write_of_lt before
  · obtain ⟨i, rfl⟩ := Nat.exists_eq_add_of_le behind
    rcases Nat.lt_or_ge i length with within | past
    · exact memory.write_read_within memory within
    · refine memory.write_of_ge ?_
      rw [length_read]
      exact Nat.add_le_add_left past start

end Memory

end Updater.Base
