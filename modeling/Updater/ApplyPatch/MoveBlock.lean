import Mathlib.Data.List.Induction
import Updater.ApplyPatch.BlockSetParse
import Updater.Base.MemoryMove

/-! `MoveBlock`: packed blocks scattered to their ranges, also within one buffer. -/

set_option autoImplicit false

namespace Updater.ApplyPatch

open Updater.Base

namespace BlockSet

/-- The loops of `MoveBlock` over the ranges, the last one first; `start` is behind the packed
blocks of the range, and `maxLen` is `SECUREC_MEM_MAX_LEN`. -/
def moveLoop (maxLen : Nat) : List BlockPair → Nat → List Move
  | [], _ => []
  | pair :: before, start =>
      let blocks := BlockPair.blocks pair
      let start := (start + sizeMax - blocks) % sizeMax
      Move.chunks maxLen (pair.1 * hBlockSize % sizeMax) (start * hBlockSize % sizeMax)
        (blocks * hBlockSize % sizeMax) ++ moveLoop maxLen before start

/-- The moves of memory that `MoveBlock` makes. -/
def moves (maxLen : Nat) (locations : BlockSet) : List Move :=
  moveLoop maxLen locations.reverse (BlockSet.totalBlockSize locations)

/-- `MoveBlock(target, locations, source)`, the buffers as memory from their data on. -/
def moveBlock (maxLen : Nat) (target : Memory) (locations : BlockSet) (source : Memory) : Memory :=
  Move.allBetween source target (moves maxLen locations)

/-- `MoveBlock(buffer, locations, buffer)`. -/
def moveBlockWithin (maxLen : Nat) (buffer : Memory) (locations : BlockSet) : Memory :=
  Move.allWithin buffer (moves maxLen locations)

/-- Ranges that ascend, one behind the other, for a buffer of `size` bytes. -/
structure Locations (locations : BlockSet) (size : Nat) : Prop where
  ascending : BlockSet.Ascending locations
  ordered : locations.Pairwise fun pair next => pair.2 ≤ next.1
  room : ∀ pair ∈ locations, pair.2 * hBlockSize ≤ size
  fits : size < sizeMax

/-- The ranges, each with the number of the block where its blocks are packed. -/
def packed : Nat → BlockSet → List (Nat × BlockPair)
  | _, [] => []
  | start, pair :: locations => (start, pair) :: packed (start + BlockPair.extent pair) locations

theorem packed_append (start : Nat) (locations : BlockSet) (last : BlockPair) :
    packed start (locations ++ [last]) =
      packed start locations ++ [(start + BlockSet.extent locations, last)] := by
  induction locations generalizing start with
  | nil => rfl
  | cons pair locations ih =>
      have total : extent (pair :: locations) = BlockPair.extent pair + extent locations := rfl
      rw [List.cons_append, packed, ih, packed, List.cons_append, total, Nat.add_assoc]

/-- The bytes of a range that are read from where others of it were written before are
repetitions. -/
def Repeats (maxLen : Nat) (buffer : Memory) (entry : Nat × BlockPair) : Prop :=
  ∀ i < BlockPair.extent entry.2 * hBlockSize,
    Move.Crosses maxLen ((entry.2.1 - entry.1) * hBlockSize) i →
    buffer (entry.1 * hBlockSize + (i - (entry.2.1 - entry.1) * hBlockSize)) =
      buffer (entry.1 * hBlockSize + i)

/-- In every range are the bytes that scattering to another buffer gives, the packed ones. -/
def ScattersWithin (maxLen : Nat) (buffer target : Memory) (locations : BlockSet) : Prop :=
  ∀ entry ∈ packed 0 locations, ∀ i < BlockPair.extent entry.2 * hBlockSize,
    moveBlockWithin maxLen buffer locations (entry.2.1 * hBlockSize + i) =
        moveBlock maxLen target locations buffer (entry.2.1 * hBlockSize + i) ∧
      moveBlock maxLen target locations buffer (entry.2.1 * hBlockSize + i) =
        buffer (entry.1 * hBlockSize + i)

theorem extent_append (locations : BlockSet) (last : BlockPair) :
    BlockSet.extent (locations ++ [last]) = BlockSet.extent locations + BlockPair.extent last := by
  rw [extent, extent, List.map_append, List.sum_append]
  rfl

section Moves

variable {locations front : BlockSet} {last : BlockPair} {size maxLen : Nat}

/-- The ranges before the last one end before it begins. -/
theorem Locations.before_last (split : Locations (front ++ [last]) size) :
    Locations front size ∧ (∀ pair ∈ front, pair.2 ≤ last.1) ∧ last.1 < last.2 ∧
      last.2 * hBlockSize ≤ size := by
  obtain ⟨ordered, -, before⟩ := List.pairwise_append.mp split.ordered
  have there : last ∈ front ++ [last] := List.mem_append_right front (.head _)
  refine ⟨⟨?_, ordered, ?_, split.fits⟩, ?_, split.ascending last there, split.room last there⟩
  · exact fun pair member => split.ascending pair (List.mem_append_left _ member)
  · exact fun pair member => split.room pair (List.mem_append_left _ member)
  · exact fun pair member => before pair member last (.head _)

/-- Packed blocks take no more room than what is before the end of their ranges. -/
theorem Locations.extent_le (located : Locations locations size) {bound : Nat}
    (below : ∀ pair ∈ locations, pair.2 ≤ bound) : BlockSet.extent locations ≤ bound := by
  induction locations using List.reverseRecOn generalizing bound with
  | nil => exact Nat.zero_le bound
  | append_singleton front last ih =>
      obtain ⟨before, ends, ascending, -⟩ := located.before_last
      have packed := ih before ends
      have whole := below last (List.mem_append_right front (.head _))
      rw [extent_append, BlockPair.extent]
      omega

/-- The last range is moved first, from behind the packed blocks of the others. -/
theorem moves_append (split : Locations (front ++ [last]) size) :
    moves maxLen (front ++ [last]) =
      Move.chunks maxLen (last.1 * hBlockSize) (BlockSet.extent front * hBlockSize)
        (BlockPair.extent last * hBlockSize) ++ moves maxLen front := by
  obtain ⟨before, ends, ascending, room⟩ := split.before_last
  have fits := split.fits
  have start := before.extent_le ends
  have room' : last.2 * hBlockSize < sizeMax := Nat.lt_of_le_of_lt room fits
  rw [hBlockSize, sizeMax] at room'
  have counted : ∀ {blocks : BlockSet}, Locations blocks size → (∀ pair ∈ blocks, pair.2 ≤ last.2) →
      BlockSet.totalBlockSize blocks = BlockSet.extent blocks := by
    intro blocks located below
    have whole := located.extent_le below
    rw [totalBlockSize, sum_blocks located.ascending]
    · refine Nat.mod_eq_of_lt ?_
      rw [sizeMax]
      omega
    · intro pair member
      have bound := below pair member
      rw [sizeMax]
      omega
  have all : BlockSet.totalBlockSize (front ++ [last]) = BlockSet.extent (front ++ [last]) := by
    apply counted split
    intro pair member
    rcases List.mem_append.mp member with first | same
    · exact Nat.le_trans (ends pair first) (Nat.le_of_lt ascending)
    · rw [List.mem_singleton.mp same]
  have rest : BlockSet.totalBlockSize front = BlockSet.extent front :=
    counted before fun pair member => Nat.le_trans (ends pair member) (Nat.le_of_lt ascending)
  have blocks : BlockPair.blocks last = BlockPair.extent last :=
    BlockPair.blocks_of_lt ascending (by rw [sizeMax]; omega)
  have back : (BlockSet.extent (front ++ [last]) + sizeMax - BlockPair.extent last) % sizeMax =
      BlockSet.extent front := by
    rw [extent_append, show BlockSet.extent front + BlockPair.extent last + sizeMax -
      BlockPair.extent last = BlockSet.extent front + sizeMax by omega, Nat.add_mod_right]
    refine Nat.mod_eq_of_lt ?_
    rw [sizeMax]
    omega
  have exact_ : ∀ count, count ≤ last.2 → count * hBlockSize % sizeMax = count * hBlockSize := by
    intro count most
    exact Nat.mod_eq_of_lt (Nat.lt_of_le_of_lt (Nat.mul_le_mul_right _ most)
      (Nat.lt_of_le_of_lt room fits))
  rw [moves, List.reverse_append, List.reverse_singleton, List.singleton_append, moveLoop, all]
  rw [blocks, back, exact_ last.1 (Nat.le_of_lt ascending),
    exact_ (BlockSet.extent front) (Nat.le_trans start (Nat.le_of_lt ascending)),
    exact_ (BlockPair.extent last) (Nat.sub_le _ _), moves, rest]

theorem end_of_range {pair : BlockPair} (ascending : pair.1 < pair.2) :
    pair.1 * hBlockSize + BlockPair.extent pair * hBlockSize = pair.2 * hBlockSize := by
  rw [← Nat.add_mul, BlockPair.extent, Nat.add_sub_cancel' (Nat.le_of_lt ascending)]

/-- No move goes behind the end of the ranges. -/
theorem moves_avoid (located : Locations locations size) {bound address : Nat}
    (below : ∀ pair ∈ locations, pair.2 ≤ bound) (behind : bound * hBlockSize ≤ address) :
    ∀ move ∈ moves maxLen locations, move.Avoids address := by
  induction locations using List.reverseRecOn with
  | nil => exact nofun
  | append_singleton front last ih =>
      obtain ⟨before, ends, ascending, -⟩ := located.before_last
      have whole := below last (List.mem_append_right front (.head _))
      rw [moves_append located]
      intro move member
      rcases List.mem_append.mp member with here | there
      · refine Move.chunks_avoid (.inr ?_) move here
        rw [end_of_range ascending]
        exact Nat.le_trans (Nat.mul_le_mul_right _ whole) behind
      · exact ih before (fun pair first => below pair (List.mem_append_left _ first)) move there

variable (positive : 0 < maxLen)

include positive

/-- Scattering to another buffer puts the packed blocks into their ranges. -/
theorem moveBlock_packed {target source : Memory} (located : Locations locations size) :
    ∀ entry ∈ packed 0 locations, ∀ i < BlockPair.extent entry.2 * hBlockSize,
      moveBlock maxLen target locations source (entry.2.1 * hBlockSize + i) =
        source (entry.1 * hBlockSize + i) := by
  induction locations using List.reverseRecOn generalizing target with
  | nil => exact nofun
  | append_singleton front last ih =>
      obtain ⟨before, ends, -, -⟩ := located.before_last
      rw [packed_append, Nat.zero_add]
      intro entry member i inside
      rw [moveBlock, moves_append located, Move.allBetween_append]
      rcases List.mem_append.mp member with first | same
      · exact ih before entry first i inside
      · rw [List.mem_singleton.mp same] at inside ⊢
        rw [Move.allBetween_of_avoids (moves_avoid before ends (Nat.le_add_right _ _))]
        exact Move.allBetween_chunks positive inside

/-- Within one buffer they arrive exactly when the bytes that cross are repetitions. What is moved
before a range lies behind it, so the buffer is as it was up to the end of the range. -/
theorem moveBlockWithin_packed_iff {buffer memory : Memory} (located : Locations locations size)
    {bound : Nat} (below : ∀ pair ∈ locations, pair.2 ≤ bound)
    (agree : ∀ address < bound * hBlockSize, memory address = buffer address) :
    (∀ entry ∈ packed 0 locations, ∀ i < BlockPair.extent entry.2 * hBlockSize,
      moveBlockWithin maxLen memory locations (entry.2.1 * hBlockSize + i) =
        buffer (entry.1 * hBlockSize + i)) ↔
    ∀ entry ∈ packed 0 locations, Repeats maxLen buffer entry := by
  induction locations using List.reverseRecOn generalizing memory bound with
  | nil => exact ⟨fun _ => nofun, fun _ => nofun⟩
  | append_singleton front last ih =>
      obtain ⟨before, ends, ascending, -⟩ := located.before_last
      have whole := below last (List.mem_append_right front (.head _))
      have start := before.extent_le ends
      have shift : BlockSet.extent front * hBlockSize +
          (last.1 - BlockSet.extent front) * hBlockSize = last.1 * hBlockSize := by
        rw [← Nat.add_mul, Nat.add_sub_cancel' start]
      have read : ∀ i < BlockPair.extent last * hBlockSize,
          memory (BlockSet.extent front * hBlockSize + i) =
            buffer (BlockSet.extent front * hBlockSize + i) := by
        intro i inside
        apply agree
        have first := Nat.mul_le_mul_right hBlockSize start
        have end_ := end_of_range ascending
        have bounded := Nat.mul_le_mul_right hBlockSize whole
        omega
      have last_iff : (∀ i < BlockPair.extent last * hBlockSize,
          moveBlockWithin maxLen memory (front ++ [last]) (last.1 * hBlockSize + i) =
            buffer (BlockSet.extent front * hBlockSize + i)) ↔
          Repeats maxLen buffer (BlockSet.extent front, last) := by
        have moved := @Move.allWithin_chunks_iff memory maxLen positive
          ((last.1 - BlockSet.extent front) * hBlockSize) (BlockSet.extent front * hBlockSize)
          (BlockPair.extent last * hBlockSize)
        rw [shift] at moved
        rw [moveBlockWithin, moves_append located, Move.allWithin_append, Repeats]
        refine Iff.trans (forall₂_congr fun i inside => ?_) (moved.trans
          (forall₃_congr fun i inside crosses => ?_))
        · rw [Move.allWithin_of_avoids (moves_avoid before ends (Nat.le_add_right _ _)),
            read i inside]
        · rw [read i inside, read _ (Nat.lt_of_le_of_lt (Nat.sub_le _ _) inside)]
      have front_iff := @ih
        (Move.allWithin memory (Move.chunks maxLen (last.1 * hBlockSize)
          (BlockSet.extent front * hBlockSize) (BlockPair.extent last * hBlockSize)))
        before last.1 ends (by
          intro address early
          rw [Move.allWithin_of_avoids (Move.chunks_avoid (.inl early))]
          apply agree
          have end_ := end_of_range ascending
          have bounded := Nat.mul_le_mul_right hBlockSize whole
          omega)
      rw [packed_append, Nat.zero_add, List.forall_mem_append, List.forall_mem_append,
        List.forall_mem_singleton, List.forall_mem_singleton, last_iff, ← front_iff,
        moveBlockWithin, moves_append located, Move.allWithin_append]
      rfl

/-- Scattering within a buffer does what scattering to another one does exactly when, in every
range, the bytes that are read from where others of it were written before are repetitions. -/
theorem scattersWithin_iff (located : Locations locations size) (buffer target : Memory) :
    ScattersWithin maxLen buffer target locations ↔
      ∀ entry ∈ packed 0 locations, Repeats maxLen buffer entry := by
  have all : ∀ pair ∈ locations, pair.2 ≤ size := by
    intro pair member
    have room := located.room pair member
    rw [hBlockSize] at room
    omega
  rw [← moveBlockWithin_packed_iff positive located all fun _ _ => rfl]
  constructor
  · intro scatters entry member i inside
    obtain ⟨same, packed⟩ := scatters entry member i inside
    exact same.trans packed
  · intro arrives entry member i inside
    have packed := @moveBlock_packed _ _ _ positive target buffer located entry member i inside
    exact ⟨(arrives entry member i inside).trans packed.symm, packed⟩

omit positive in
/-- That is so for all bytes where the range fits into one move, is in its place already, or goes
past its own length. -/
theorem repeats_of_apart {buffer : Memory} {entry : Nat × BlockPair}
    (apart : BlockPair.extent entry.2 * hBlockSize ≤ maxLen ∨
      (entry.2.1 - entry.1) * hBlockSize = 0 ∨
      BlockPair.extent entry.2 * hBlockSize ≤ (entry.2.1 - entry.1) * hBlockSize) :
    Repeats maxLen buffer entry := fun _ inside crosses =>
  absurd crosses (Move.not_crosses inside apart)

end Moves

/-- The value of `SECUREC_MEM_MAX_LEN`. -/
def securecMemMaxLen : Nat := 0x7fffffff

theorem twoRanges_scatter_iff :
    ScattersWithin securecMemMaxLen (fun _ => 0) (fun _ => 1) [(0, 1), (3, 5)] ↔
      ∀ entry ∈ packed 0 [(0, 1), (3, 5)], Repeats securecMemMaxLen (fun _ => 0) entry :=
  @scattersWithin_iff [(0, 1), (3, 5)] 20480 securecMemMaxLen (by decide)
    ⟨by decide, by decide, by decide, by decide⟩ (fun _ => 0) (fun _ => 1)

/-- A range of 524289 blocks, one block on from where it is packed. -/
def longRange : BlockSet :=
  [(1, 524290)]

theorem longRange_locations : Locations longRange (524290 * 4096) :=
  ⟨by decide, List.pairwise_singleton _ _, by decide, by decide⟩

/-- The second move of the range reads a byte that the first one has overwritten. -/
theorem longRange_torn :
    Locations longRange (524290 * 4096) ∧
      ¬ScattersWithin securecMemMaxLen (fun address => if address = 0x7fffffff then 1 else 0)
        (fun _ => 0) longRange := by
  refine ⟨longRange_locations, ?_⟩
  intro scatters
  have repeats := (@moveBlockWithin_packed_iff longRange (524290 * 4096) securecMemMaxLen (by decide)
    (fun address => if address = 0x7fffffff then 1 else 0) _ longRange_locations 524290 (by decide)
    fun _ _ => rfl).mp
    fun entry member i inside =>
      (scatters entry member i inside).1.trans (scatters entry member i inside).2
  have last := repeats (0, (1, 524290)) (.head _) 0x7fffffff (by decide) ⟨by decide, by decide⟩
  exact absurd last (by decide)

end BlockSet

end Updater.ApplyPatch
