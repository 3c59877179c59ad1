import Updater.Base.Bytes

/-! `BlockSet` and `BlockWriter`: data written to ranges of blocks one after another. -/

set_option autoImplicit false

namespace Updater.ApplyPatch

open Updater.Base

/-- `H_BLOCK_SIZE`. -/
def hBlockSize : Nat := 4096

def sizeMax : Nat := 2 ^ 64

/-- The largest offset that `lseek` takes is below this. -/
def offMax : Nat := 2 ^ 63

/-- First block, and the one behind the last. `ParserAndInsert` takes any two numbers. -/
abbrev BlockPair : Type := Nat × Nat

abbrev BlockSet : Type := List BlockPair

/-- `second - first` in 64 bits. -/
def BlockPair.blocks (pair : BlockPair) : Nat :=
  (pair.2 % sizeMax + sizeMax - pair.1 % sizeMax) % sizeMax

/-- `(second - first) * H_BLOCK_SIZE` in 64 bits. -/
def BlockPair.size (pair : BlockPair) : Nat :=
  BlockPair.blocks pair * hBlockSize % sizeMax

/-- `TotalBlockSize`. -/
def BlockSet.totalBlockSize (blocks : BlockSet) : Nat :=
  (blocks.map BlockPair.blocks).sum % sizeMax

/-- `GetBlocksSize`. -/
def BlockSet.blocksSize (blocks : BlockSet) : Nat :=
  BlockSet.totalBlockSize blocks * hBlockSize % sizeMax

@[simp] theorem BlockSet.blocksSize_nil : BlockSet.blocksSize [] = 0 := by
  simp [BlockSet.blocksSize, BlockSet.totalBlockSize]

theorem BlockSet.blocksSize_lt (blocks : BlockSet) : BlockSet.blocksSize blocks < sizeMax :=
  Nat.mod_lt _ (by decide)

/-- A file descriptor of a block device. -/
structure BlockDevice where
  content : Nat → UInt8
  position : Nat

/-- `content` with the bytes written from `position` on. -/
def writeContent (content : Nat → UInt8) (position : Nat) : Bytes → Nat → UInt8
  | [] => content
  | byte :: rest => writeContent (Function.update content position byte) (position + 1) rest

/-- `WriteFully`. -/
def BlockDevice.write (device : BlockDevice) (data : Bytes) : BlockDevice where
  content := writeContent device.content device.position data
  position := device.position + data.length

structure BlockWriter where
  blocks : BlockSet
  offset : Nat
  totalWritten : Nat := 0
  blockIndex : Nat := 0
  currentBlockLeft : Nat := 0
  deriving DecidableEq, Repr

namespace BlockWriter

def isWriteDone (writer : BlockWriter) : Bool :=
  writer.blockIndex = writer.blocks.length && writer.currentBlockLeft = 0

/-- The loop of `Write`: whether it succeeded, and the bytes that are left. -/
def writeLoop (writer : BlockWriter) (device : BlockDevice) (data : Bytes) :
    Bool × BlockWriter × BlockDevice × Bytes :=
  if _some : data = [] then (true, writer, device, [])
  else if _next : writer.currentBlockLeft = 0 then
    if _more : writer.blockIndex < writer.blocks.length then
      let pair := writer.blocks[writer.blockIndex]
      let start := pair.1 * hBlockSize + writer.offset
      let writer := { writer with
        currentBlockLeft := BlockPair.size pair
        blockIndex := writer.blockIndex + 1 }
      if start ≥ offMax then (false, writer, device, data)
      else writeLoop writer { device with position := start } data
    else (false, writer, device, data)
  else
    let written := min data.length writer.currentBlockLeft
    writeLoop { writer with
        currentBlockLeft := writer.currentBlockLeft - written
        totalWritten := writer.totalWritten + written }
      (device.write (data.take written)) (data.drop written)
termination_by data.length + (writer.blocks.length - writer.blockIndex)
decreasing_by
  · omega
  · have some := List.length_pos_iff.mpr _some
    rw [List.length_drop]
    omega

/-- `Write`. -/
def write (writer : BlockWriter) (device : BlockDevice) (data : Bytes) :
    Bool × BlockWriter × BlockDevice × Bytes :=
  if writer.isWriteDone then (false, writer, device, data) else writer.writeLoop device data

end BlockWriter

/-- The bytes that a set of ranges covers, in the order in which they are written. -/
def BlockSet.places (offset : Nat) (blocks : BlockSet) : List Nat :=
  blocks.flatMap fun pair => List.range' (pair.1 * hBlockSize + offset) (BlockPair.size pair)

/-- `content` with bytes written to places. -/
def putBytes (content : Nat → UInt8) (places : List Nat) (data : Bytes) : Nat → UInt8 :=
  (places.zip data).foldl (fun content put => Function.update content put.1 put.2) content

theorem putBytes_nil (content : Nat → UInt8) (places : List Nat) :
    putBytes content places [] = content := by
  rw [putBytes, List.zip_nil_right, List.foldl_nil]

theorem putBytes_append (content : Nat → UInt8) (places : List Nat) (data more : Bytes) :
    putBytes content places (data ++ more) =
      putBytes (putBytes content places data) (places.drop data.length) more := by
  induction data generalizing content places with
  | nil =>
      rw [List.nil_append, List.length_nil, List.drop_zero, putBytes, putBytes, putBytes,
        List.zip_nil_right, List.foldl_nil]
  | cons byte data ih =>
      cases places with
      | nil => rfl
      | cons place places => exact ih (Function.update content place byte) places

theorem writeContent_eq (content : Nat → UInt8) (position : Nat) (data : Bytes) (places : List Nat) :
    writeContent content position data =
      putBytes content (List.range' position data.length ++ places) data := by
  induction data generalizing content position with
  | nil => rw [putBytes, List.zip_nil_right]; rfl
  | cons byte data ih =>
      rw [writeContent, ih, List.length_cons, List.range'_succ]
      rfl

namespace BlockWriter

/-- The places that are still to be written. -/
def cursor (writer : BlockWriter) (device : BlockDevice) : List Nat :=
  List.range' device.position writer.currentBlockLeft ++
    BlockSet.places writer.offset (writer.blocks.drop writer.blockIndex)

/-- What a call of `Write` does: it writes a part of the data to the next places, all of
it if it succeeds. -/
structure Writes (writer : BlockWriter) (device : BlockDevice) (data : Bytes)
    (result : Bool × BlockWriter × BlockDevice × Bytes) : Prop where
  blocks : result.2.1.blocks = writer.blocks
  offset : result.2.1.offset = writer.offset
  written : ∃ written, data = written ++ result.2.2.2 ∧
    written.length ≤ (writer.cursor device).length ∧
    result.2.1.totalWritten = writer.totalWritten + written.length ∧
    result.2.2.1.content = putBytes device.content (writer.cursor device) written ∧
    (result.1 = true → result.2.2.2 = [] ∧
      result.2.1.cursor result.2.2.1 = (writer.cursor device).drop written.length)

/-- Nothing written, and no success. -/
theorem Writes.failed {writer writer' : BlockWriter} {device : BlockDevice} {data : Bytes}
    (blocks : writer'.blocks = writer.blocks) (offset : writer'.offset = writer.offset)
    (total : writer'.totalWritten = writer.totalWritten) :
    Writes writer device data (false, writer', device, data) :=
  ⟨blocks, offset, [], rfl, Nat.zero_le _, total, (putBytes_nil _ _).symm, nofun⟩

/-- Entering the next range leaves the places alone. -/
theorem cursor_next {writer : BlockWriter} {device : BlockDevice}
    (next : writer.currentBlockLeft = 0) (more : writer.blockIndex < writer.blocks.length) :
    BlockWriter.cursor { writer with
        currentBlockLeft := BlockPair.size writer.blocks[writer.blockIndex]
        blockIndex := writer.blockIndex + 1 }
      { device with
        position := writer.blocks[writer.blockIndex].1 * hBlockSize + writer.offset } =
      writer.cursor device := by
  simp only [cursor, next, List.range'_zero, List.nil_append]
  rw [List.drop_eq_getElem_cons more, BlockSet.places, BlockSet.places, List.flatMap_cons]

theorem writeLoop_writes (writer : BlockWriter) (device : BlockDevice) (data : Bytes) :
    Writes writer device data (writer.writeLoop device data) := by
  fun_induction writeLoop writer device data with
  | case1 writer device =>
      exact ⟨rfl, rfl, [], rfl, Nat.zero_le _, rfl, (putBytes_nil _ _).symm, fun _ => ⟨rfl, rfl⟩⟩
  | case2 writer device data some next more pair start writer' beyond =>
      exact .failed rfl rfl rfl
  | case3 writer device data some next more pair start writer' inside ih =>
      obtain ⟨blocks, offset, written, split, room, total, content, success⟩ := ih
      have same := @cursor_next writer device next more
      rw [same] at room success content
      exact ⟨blocks, offset, written, split, room, total, content, success⟩
  | case4 writer device data some next none =>
      exact .failed rfl rfl rfl
  | case5 writer device data some next count ih =>
      obtain ⟨blocks, offset, written, split, room, total, content, success⟩ := ih
      have least : count ≤ data.length := Nat.min_le_left _ _
      have most : count ≤ writer.currentBlockLeft := Nat.min_le_right _ _
      have length : (data.take count).length = count := List.length_take_of_le least
      have range : List.range' device.position writer.currentBlockLeft =
          List.range' device.position count ++
            List.range' (device.position + count) (writer.currentBlockLeft - count) := by
        rw [List.range'_append_1, Nat.add_sub_cancel' most]
      have rest : BlockWriter.cursor { writer with
            currentBlockLeft := writer.currentBlockLeft - count
            totalWritten := writer.totalWritten + count } (device.write (data.take count)) =
          (writer.cursor device).drop count := by
        simp only [cursor, BlockDevice.write, length, range, List.append_assoc]
        rw [List.drop_left' List.length_range']
      rw [rest] at room success content
      refine ⟨blocks, offset, data.take count ++ written, ?_, ?_, ?_, ?_, ?_⟩
      · rw [List.append_assoc, ← split, List.take_append_drop]
      · rw [List.length_append, length]
        have enough : count ≤ (writer.cursor device).length := by
          simp only [cursor, List.length_append, List.length_range']
          omega
        rw [List.length_drop] at room
        omega
      · rw [total, List.length_append, length, Nat.add_assoc]
      · rw [content, putBytes_append, length]
        congr 1
        simp only [BlockDevice.write]
        have here := writeContent_eq device.content device.position (data.take count)
          (List.range' (device.position + count) (writer.currentBlockLeft - count) ++
            BlockSet.places writer.offset (writer.blocks.drop writer.blockIndex))
        rw [length] at here
        rw [here, cursor, range, List.append_assoc]
      · intro done
        obtain ⟨none, places⟩ := success done
        refine ⟨none, ?_⟩
        rw [places, List.drop_drop, List.length_append, length]

theorem write_writes (writer : BlockWriter) (device : BlockDevice) (data : Bytes) :
    Writes writer device data (writer.write device data) := by
  unfold write
  split
  · exact .failed rfl rfl rfl
  · exact writeLoop_writes writer device data

/-- A writer that has nothing left has written to all places. -/
theorem cursor_done {writer : BlockWriter} (done : writer.isWriteDone = true) (device : BlockDevice) :
    writer.cursor device = [] := by
  simp only [isWriteDone, Bool.and_eq_true, decide_eq_true_eq] at done
  obtain ⟨index, left⟩ := done
  rw [cursor, left, index, List.drop_length]
  rfl

end BlockWriter

/-- In 64 bits, the places are as many as the size says. -/
theorem BlockSet.length_places (offset : Nat) (blocks : BlockSet) :
    (BlockSet.places offset blocks).length % sizeMax = BlockSet.blocksSize blocks := by
  have each : (BlockSet.places offset blocks).length = (blocks.map BlockPair.size).sum := by
    rw [BlockSet.places, List.length_flatMap]
    simp only [List.length_range']
  rw [each, BlockSet.blocksSize, BlockSet.totalBlockSize, Nat.mod_mul_mod]
  clear each
  induction blocks with
  | nil => rfl
  | cons pair blocks ih =>
      rw [List.map_cons, List.map_cons, List.sum_cons, List.sum_cons, Nat.add_mod, ih,
        BlockPair.size, Nat.mod_mod, ← Nat.add_mod, Nat.add_mul]

end Updater.ApplyPatch
