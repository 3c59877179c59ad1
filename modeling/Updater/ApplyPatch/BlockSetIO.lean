import Mathlib.Data.List.Nodup
import Mathlib.Data.List.Perm.Subperm
import Updater.ApplyPatch.BlockSetParse

/-! `ReadDataFromBlock` and `WriteDataToBlock`, and how they agree with a `BlockWriter` that is
given the same data in pieces. -/

set_option autoImplicit false

namespace Updater.ApplyPatch

open Updater.Base

/-- Where a range starts, in `size_t`. -/
def BlockPair.start (offset : Nat) (pair : BlockPair) : Nat :=
  (pair.1 * hBlockSize + offset) % sizeMax

/-- `ret == -1` after `lseek64`, where `ret` is an `int`. -/
def seekFails (start : Nat) : Bool :=
  start ≥ offMax || start % 2 ^ 32 = 2 ^ 32 - 1

/-- The bytes that a device has from a place on. -/
def readContent (content : Nat → UInt8) (start count : Nat) : Bytes :=
  (List.range' start count).map content

namespace BlockSet

/-- The loop of `ReadDataFromBlock`. -/
def readLoop (content : Nat → UInt8) (offset : Nat) : BlockSet → Nat → Bytes → Nat × Bytes
  | [], pos, buffer => (pos, buffer)
  | pair :: blocks, pos, buffer =>
      if seekFails (BlockPair.start offset pair) then (0, buffer)
      else
        let size := min (buffer.length - pos) (BlockPair.size pair)
        readLoop content offset blocks (pos + size)
          (writeAt buffer pos (readContent content (BlockPair.start offset pair) size))

/-- `ReadDataFromBlock`: how much was read, and the buffer. -/
def readDataFromBlock (blocks : BlockSet) (offset : Nat) (content : Nat → UInt8) (buffer : Bytes) :
    Nat × Bytes :=
  readLoop content offset blocks 0 buffer

/-- The loop of `WriteDataToBlock`; `none` where it returns early. -/
def writeLoop (buffer : Bytes) (offset : Nat) :
    BlockSet → Nat → (Nat → UInt8) → Option Nat × (Nat → UInt8)
  | [], pos, content => (some pos, content)
  | pair :: blocks, pos, content =>
      if seekFails (BlockPair.start offset pair) then (none, content)
      else
        writeLoop buffer offset blocks (pos + BlockPair.size pair)
          (writeContent content (BlockPair.start offset pair)
            (slice buffer pos (BlockPair.size pair)))

/-- `WriteDataToBlock`: how much was written, and the device; `synced` is what `fsync` says. -/
def writeDataToBlock (blocks : BlockSet) (offset : Nat) (synced : Bool) (content : Nat → UInt8)
    (buffer : Bytes) : Nat × (Nat → UInt8) :=
  match writeLoop buffer offset blocks 0 content with
  | (none, content) => (0, content)
  | (some pos, content) => (if synced then pos else 0, content)

/-- Ranges that are not empty, do not overlap, and lie where a file can have bytes. -/
structure OnDevice (blocks : BlockSet) (offset : Nat) : Prop where
  ascending : BlockSet.Ascending blocks
  disjoint : blocks.Pairwise fun pair other => pair.2 ≤ other.1 ∨ other.2 ≤ pair.1
  inside : ∀ pair ∈ blocks, pair.2 * hBlockSize + offset ≤ offMax

/-- No range starts at a place that is the largest number in 32 bits. -/
def Seekable (blocks : BlockSet) (offset : Nat) : Prop :=
  ∀ pair ∈ blocks, (pair.1 * hBlockSize + offset) % 2 ^ 32 ≠ 2 ^ 32 - 1

end BlockSet

section Places

/-- What is not a place keeps its byte. -/
theorem putBytes_of_notMem {content : Nat → UInt8} {places : List Nat} {data : Bytes} {place : Nat}
    (outside : place ∉ places) : putBytes content places data place = content place := by
  induction places generalizing content data with
  | nil => rfl
  | cons first places ih =>
      cases data with
      | nil => rfl
      | cons byte data =>
          have rest := @ih (Function.update content first byte) data
            fun member => outside (.tail _ member)
          rw [putBytes, List.zip_cons_cons, List.foldl_cons]
          rw [putBytes] at rest
          rw [rest, Function.update_of_ne]
          exact fun same => outside (same ▸ .head _)

/-- What was put to places that differ is found there. -/
theorem map_putBytes {content : Nat → UInt8} {places : List Nat} {data : Bytes}
    (nodup : places.Nodup) (length : data.length = places.length) :
    places.map (putBytes content places data) = data := by
  induction places generalizing content data with
  | nil => exact (List.length_eq_zero_iff.mp length).symm
  | cons first places ih =>
      cases data with
      | nil => exact nomatch length
      | cons byte data =>
          obtain ⟨other, nodup⟩ := List.nodup_cons.mp nodup
          have put : putBytes content (first :: places) (byte :: data) =
              putBytes (Function.update content first byte) places data := rfl
          rw [List.map_cons, put, ih nodup (Nat.succ.inj length), putBytes_of_notMem other,
            Function.update_self]

end Places

namespace BlockSet

variable {blocks : BlockSet} {offset : Nat}

namespace OnDevice

theorem tail {pair : BlockPair} (onDevice : OnDevice (pair :: blocks) offset) :
    OnDevice blocks offset where
  ascending other member := onDevice.ascending other (.tail _ member)
  disjoint := (List.pairwise_cons.mp onDevice.disjoint).2
  inside other member := onDevice.inside other (.tail _ member)

variable (onDevice : OnDevice blocks offset)

include onDevice

theorem start_eq {pair : BlockPair} (member : pair ∈ blocks) :
    BlockPair.start offset pair = pair.1 * hBlockSize + offset := by
  have ascending := onDevice.ascending pair member
  have inside := onDevice.inside pair member
  rw [hBlockSize, offMax] at inside
  rw [BlockPair.start, hBlockSize, sizeMax]
  exact Nat.mod_eq_of_lt (by omega)

theorem size_eq {pair : BlockPair} (member : pair ∈ blocks) :
    BlockPair.size pair = (pair.2 - pair.1) * hBlockSize := by
  have ascending := onDevice.ascending pair member
  have inside := onDevice.inside pair member
  rw [hBlockSize, offMax] at inside
  have fits : pair.2 < sizeMax := by
    rw [sizeMax]
    omega
  rw [BlockPair.size, BlockPair.blocks_of_lt ascending fits, BlockPair.extent, hBlockSize]
  apply Nat.mod_eq_of_lt
  rw [sizeMax]
  omega

theorem mem_places {place : Nat} : place ∈ places offset blocks ↔
    ∃ pair ∈ blocks, pair.1 * hBlockSize + offset ≤ place ∧
      place < pair.2 * hBlockSize + offset := by
  rw [places, List.mem_flatMap]
  apply exists_congr
  intro pair
  apply and_congr_right
  intro member
  have ascending := onDevice.ascending pair member
  rw [List.mem_range'_1, onDevice.size_eq member, hBlockSize]
  omega

theorem places_lt {place : Nat} (member : place ∈ places offset blocks) : place < offMax := by
  obtain ⟨pair, found, -, below⟩ := onDevice.mem_places.mp member
  exact Nat.lt_of_lt_of_le below (onDevice.inside pair found)

omit onDevice in
theorem nodup_places (onDevice : OnDevice blocks offset) : (places offset blocks).Nodup := by
  induction blocks with
  | nil => exact List.nodup_nil
  | cons pair blocks ih =>
      rw [places, List.flatMap_cons, List.nodup_append]
      refine ⟨List.nodup_range', ih onDevice.tail, ?_⟩
      rintro place here other there rfl
      rw [List.mem_range'_1, onDevice.size_eq (.head _)] at here
      obtain ⟨far, member, from_, to_⟩ := onDevice.tail.mem_places.mp there
      have ascending := onDevice.ascending pair (.head _)
      have apart := (List.pairwise_cons.mp onDevice.disjoint).1 far member
      rw [hBlockSize] at here from_ to_
      omega

/-- The buffer of all blocks is as long as there are places. -/
theorem blocksSize_eq : BlockSet.blocksSize blocks = (places offset blocks).length := by
  have within : (places offset blocks).length ≤ (List.range offMax).length :=
    (List.subperm_of_subset onDevice.nodup_places fun place member =>
      List.mem_range.mpr (onDevice.places_lt member)).length_le
  rw [List.length_range] at within
  rw [← BlockSet.length_places offset blocks]
  exact Nat.mod_eq_of_lt (Nat.lt_of_le_of_lt within (by decide))

end OnDevice

theorem seekFails_iff {start : Nat} (inside : start < offMax) :
    seekFails start = true ↔ start % 2 ^ 32 = 2 ^ 32 - 1 := by
  rw [seekFails, Bool.or_eq_true, decide_eq_true_eq, decide_eq_true_eq]
  exact or_iff_right (Nat.not_le_of_lt inside)

section Loops

variable (onDevice : OnDevice blocks offset) (seekable : Seekable blocks offset)

include onDevice

theorem OnDevice.start_lt {pair : BlockPair} (member : pair ∈ blocks) :
    pair.1 * hBlockSize + offset < offMax := by
  have ascending := onDevice.ascending pair member
  have inside := onDevice.inside pair member
  rw [hBlockSize] at inside ⊢
  omega

theorem OnDevice.seekFails_iff {pair : BlockPair} (member : pair ∈ blocks) :
    seekFails (BlockPair.start offset pair) = true ↔
      (pair.1 * hBlockSize + offset) % 2 ^ 32 = 2 ^ 32 - 1 := by
  rw [onDevice.start_eq member]
  exact BlockSet.seekFails_iff (onDevice.start_lt member)

include seekable

/-- The loop of `ReadDataFromBlock` fills the rest of the buffer. -/
theorem readLoop_eq {content : Nat → UInt8} {pos : Nat} {buffer : Bytes}
    (room : buffer.length = pos + (places offset blocks).length) :
    readLoop content offset blocks pos buffer =
      (buffer.length, buffer.take pos ++ (places offset blocks).map content) := by
  induction blocks generalizing pos buffer with
  | nil =>
      have all : buffer.length = pos := room
      rw [readLoop, all, List.take_of_length_le (Nat.le_of_eq all)]
      exact Prod.ext rfl (List.append_nil buffer).symm
  | cons pair blocks ih =>
      have found : seekFails (BlockPair.start offset pair) ≠ true := fun fails =>
        seekable pair (.head _) ((onDevice.seekFails_iff (.head _)).mp fails)
      have split : places offset (pair :: blocks) =
          List.range' (pair.1 * hBlockSize + offset) (BlockPair.size pair) ++
            places offset blocks := rfl
      rw [split, List.length_append, List.length_range'] at room
      have size : min (buffer.length - pos) (BlockPair.size pair) = BlockPair.size pair :=
        Nat.min_eq_right (by omega)
      have length : (readContent content (BlockPair.start offset pair)
          (BlockPair.size pair)).length = BlockPair.size pair := by
        rw [readContent, List.length_map, List.length_range']
      have same : (writeAt buffer pos (readContent content (BlockPair.start offset pair)
          (BlockPair.size pair))).length = buffer.length :=
        length_writeAt (by rw [length]; omega)
      rw [readLoop, if_neg found]
      dsimp only
      rw [size, ih onDevice.tail (fun other member => seekable other (.tail _ member))
        (by rw [same]; omega), same, split, List.map_append, ← List.append_assoc]
      have before : (buffer.take pos).length = pos := List.length_take_of_le (by omega)
      rw [writeAt, List.take_append_of_le_length
        (by rw [List.length_append, before, length]),
        List.take_of_length_le (by rw [List.length_append, before, length]), readContent,
        onDevice.start_eq (.head _)]

/-- The loop of `WriteDataToBlock` puts the rest of the data to the rest of the places. -/
theorem writeLoop_eq {data : Bytes} {pos : Nat} {content : Nat → UInt8}
    (room : data.length = pos + (places offset blocks).length) :
    writeLoop data offset blocks pos content =
      (some data.length, putBytes content (places offset blocks) (data.drop pos)) := by
  induction blocks generalizing pos content with
  | nil =>
      have all : data.length = pos := room
      rw [writeLoop, all]
      rfl
  | cons pair blocks ih =>
      have found : seekFails (BlockPair.start offset pair) ≠ true := fun fails =>
        seekable pair (.head _) ((onDevice.seekFails_iff (.head _)).mp fails)
      have split : places offset (pair :: blocks) =
          List.range' (pair.1 * hBlockSize + offset) (BlockPair.size pair) ++
            places offset blocks := rfl
      rw [split, List.length_append, List.length_range'] at room
      have length : (slice data pos (BlockPair.size pair)).length = BlockPair.size pair :=
        length_slice (by omega)
      rw [writeLoop, if_neg found, ih onDevice.tail
        (fun other member => seekable other (.tail _ member)) (by omega),
        onDevice.start_eq (.head _), writeContent_eq _ _ _ (places offset blocks), length, ← split]
      have rest : data.drop pos =
          slice data pos (BlockPair.size pair) ++ data.drop (pos + BlockPair.size pair) := by
        rw [slice, ← List.drop_drop, List.take_append_drop]
      rw [rest, putBytes_append, length, split, List.drop_left' List.length_range']

end Loops

/-- Where a seek is taken for a failure, `ReadDataFromBlock` gives nothing. -/
theorem readLoop_eq_zero {content : Nat → UInt8} {pos : Nat} {buffer : Bytes}
    (fails : ∃ pair ∈ blocks, seekFails (BlockPair.start offset pair) = true) :
    (readLoop content offset blocks pos buffer).1 = 0 := by
  induction blocks generalizing pos buffer with
  | nil =>
      obtain ⟨pair, none, -⟩ := fails
      exact absurd none List.not_mem_nil
  | cons pair blocks ih =>
      rw [readLoop]
      split
      · rfl
      · rename_i found
        obtain ⟨other, member, failing⟩ := fails
        cases member with
        | head => exact absurd failing found
        | tail _ member => exact ih ⟨other, member, failing⟩

end BlockSet

namespace BlockWriter

/-- Successive calls of `Write`. -/
def writeAll (writer : BlockWriter) (device : BlockDevice) :
    List Bytes → BlockWriter × BlockDevice
  | [] => (writer, device)
  | piece :: pieces =>
      writeAll (writer.write device piece).2.1 (writer.write device piece).2.2.1 pieces

/-- The ranges are on the device, and the next one is one of them or the end. -/
structure Inside (writer : BlockWriter) : Prop where
  onDevice : BlockSet.OnDevice writer.blocks writer.offset
  blockIndex : writer.blockIndex ≤ writer.blocks.length

/-- The loop of `Write` takes all data that there are places for. -/
theorem writeLoop_succeeds {writer : BlockWriter} {device : BlockDevice} {data : Bytes}
    (inside : writer.Inside) (room : data.length ≤ (writer.cursor device).length) :
    (writer.writeLoop device data).1 = true ∧
      (writer.writeLoop device data).2.1.blockIndex ≤ writer.blocks.length := by
  fun_induction writeLoop writer device data with
  | case1 writer device => exact ⟨rfl, inside.blockIndex⟩
  | case2 writer device data some next more pair start writer' beyond =>
      have start_lt := inside.onDevice.start_lt (List.getElem_mem more)
      exact absurd start_lt (Nat.not_lt_of_le beyond)
  | case3 writer device data some next more pair start writer' below ih =>
      apply ih
      · exact ⟨inside.onDevice, more⟩
      · have same := @cursor_next writer device next more
        rw [same]
        exact room
  | case4 writer device data some next none =>
      have places : writer.cursor device = [] := by
        rw [cursor, next, List.drop_eq_nil_of_le (Nat.le_of_not_lt none)]
        rfl
      rw [places] at room
      exact absurd (List.length_eq_zero_iff.mp (Nat.le_zero.mp room)) some
  | case5 writer device data some next count ih =>
      apply ih
      · exact ⟨inside.onDevice, inside.blockIndex⟩
      · have length : (data.take count).length = count :=
          List.length_take_of_le (Nat.min_le_left _ _)
        have most : count ≤ writer.currentBlockLeft := Nat.min_le_right _ _
        simp only [cursor, BlockDevice.write, length, List.length_append,
          List.length_range', List.length_drop] at room ⊢
        omega

/-- A writer is done exactly when no place is left. -/
theorem isWriteDone_iff {writer : BlockWriter} (inside : writer.Inside) (device : BlockDevice) :
    writer.isWriteDone = true ↔ writer.cursor device = [] := by
  refine ⟨fun done => cursor_done done device, ?_⟩
  intro none
  rw [cursor, List.append_eq_nil_iff, List.range'_eq_nil_iff] at none
  obtain ⟨left, places⟩ := none
  have last : writer.blocks.length ≤ writer.blockIndex := by
    apply Nat.le_of_not_lt
    intro more
    have member := List.getElem_mem more
    have ascending := inside.onDevice.ascending _ member
    rw [List.drop_eq_getElem_cons more, BlockSet.places, List.flatMap_cons, List.append_eq_nil_iff,
      List.range'_eq_nil_iff, inside.onDevice.size_eq member, hBlockSize] at places
    omega
  rw [isWriteDone, left, Nat.le_antisymm inside.blockIndex last, decide_eq_true rfl,
    decide_eq_true rfl]
  rfl

/-- What a call of `Write` does with a piece that there are places for. -/
structure Wrote (writer : BlockWriter) (device : BlockDevice) (data : Bytes)
    (result : BlockWriter × BlockDevice) : Prop where
  inside : result.1.Inside
  cursor : result.1.cursor result.2 = (writer.cursor device).drop data.length
  content : result.2.content = putBytes device.content (writer.cursor device) data

theorem wrote_nil {writer : BlockWriter} {device : BlockDevice} (inside : writer.Inside) :
    Wrote writer device [] (writer, device) :=
  ⟨inside, rfl, (putBytes_nil _ _).symm⟩

theorem write_wrote {writer : BlockWriter} {device : BlockDevice} {data : Bytes}
    (inside : writer.Inside) (room : data.length ≤ (writer.cursor device).length) :
    Wrote writer device data ((writer.write device data).2.1, (writer.write device data).2.2.1) := by
  rw [write]
  split
  · rename_i done
    rw [cursor_done done device] at room
    rw [List.length_eq_zero_iff.mp (Nat.le_zero.mp room)]
    exact wrote_nil inside
  · obtain ⟨success, blockIndex⟩ := writeLoop_succeeds inside room
    obtain ⟨blocks, offset, written, split, -, -, content, succeeded⟩ :=
      writeLoop_writes writer device data
    obtain ⟨none, cursor⟩ := succeeded success
    rw [none, List.append_nil] at split
    rw [← split] at cursor content
    refine ⟨⟨?_, ?_⟩, cursor, content⟩
    · rw [blocks, offset]
      exact inside.onDevice
    · rw [blocks]
      exact blockIndex

/-- A call that has something to write, and places for all of it, succeeds. -/
theorem write_succeeds {writer : BlockWriter} {device : BlockDevice} {data : Bytes}
    (inside : writer.Inside) (some : data ≠ []) (room : data.length ≤ (writer.cursor device).length) :
    (writer.write device data).1 = true := by
  rw [write, if_neg]
  · exact (writeLoop_succeeds inside room).1
  · intro done
    rw [cursor_done done device] at room
    exact some (List.length_eq_zero_iff.mp (Nat.le_zero.mp room))

theorem Wrote.append {writer : BlockWriter} {device : BlockDevice} {data more : Bytes}
    {first second : BlockWriter × BlockDevice} (wrote : Wrote writer device data first)
    (next : Wrote first.1 first.2 more second) : Wrote writer device (data ++ more) second where
  inside := next.inside
  cursor := by
    rw [next.cursor, wrote.cursor, List.drop_drop, List.length_append]
  content := by
    rw [next.content, wrote.content, wrote.cursor, putBytes_append]

/-- Pieces are written as the data that they make up. -/
theorem writeAll_wrote {writer : BlockWriter} {device : BlockDevice} {pieces : List Bytes}
    (inside : writer.Inside) (room : pieces.flatten.length ≤ (writer.cursor device).length) :
    Wrote writer device pieces.flatten (writer.writeAll device pieces) := by
  induction pieces generalizing writer device with
  | nil => exact wrote_nil inside
  | cons piece pieces ih =>
      rw [List.flatten_cons, List.length_append] at room
      have first := write_wrote inside (Nat.le_trans (Nat.le_add_right _ _) room)
      refine first.append (ih first.inside ?_)
      rw [first.cursor, List.length_drop]
      omega

end BlockWriter

namespace BlockSet

/-- A writer at the first range. -/
def writer (blocks : BlockSet) (offset : Nat) : BlockWriter :=
  { blocks, offset }

/-- Data written in pieces is on the device as if it was written at once, and is read back. -/
structure WritesAgree (blocks : BlockSet) (offset : Nat) (synced : Bool) (device : BlockDevice)
    (data : Bytes) : Prop where
  same : ∀ pieces, pieces.flatten = data →
    ((writer blocks offset).writeAll device pieces).2.content =
      (writeDataToBlock blocks offset synced device.content data).2
  outside : ∀ place ∉ places offset blocks,
    (writeDataToBlock blocks offset synced device.content data).2 place = device.content place
  done_iff : ∀ pieces, pieces.flatten <+: data →
    (((writer blocks offset).writeAll device pieces).1.isWriteDone = true ↔ pieces.flatten = data)
  further : ∀ pieces, pieces.flatten = data → ∀ more, more ≠ [] →
    let written := (writer blocks offset).writeAll device pieces
    written.1.write written.2 more = (false, written.1, written.2, more)
  readBack : ∀ buffer : Bytes, buffer.length = data.length →
    readDataFromBlock blocks offset
      (writeDataToBlock blocks offset synced device.content data).2 buffer = (data.length, data)

section Agree

variable {blocks : BlockSet} {offset : Nat} (onDevice : OnDevice blocks offset) (synced : Bool)
  (device : BlockDevice) {data : Bytes}
  (length : data.length = BlockSet.blocksSize blocks)

include onDevice length

theorem writesAgree_of_seekable (seekable : Seekable blocks offset) :
    WritesAgree blocks offset synced device data := by
  rw [onDevice.blocksSize_eq] at length
  have inside : (writer blocks offset).Inside := ⟨onDevice, Nat.zero_le _⟩
  have cursor : (writer blocks offset).cursor device = places offset blocks := rfl
  have whole : (writeDataToBlock blocks offset synced device.content data).2 =
      putBytes device.content (places offset blocks) data := by
    rw [writeDataToBlock, writeLoop_eq onDevice seekable (by rw [length, Nat.zero_add])]
    rfl
  have wrote : ∀ pieces : List Bytes, pieces.flatten <+: data →
      BlockWriter.Wrote (writer blocks offset) device pieces.flatten
        ((writer blocks offset).writeAll device pieces) := by
    intro pieces begun
    apply BlockWriter.writeAll_wrote inside
    rw [cursor, ← length]
    exact begun.length_le
  have done_iff : ∀ pieces : List Bytes, pieces.flatten <+: data →
      (((writer blocks offset).writeAll device pieces).1.isWriteDone = true ↔
        pieces.flatten = data) := by
    intro pieces begun
    have written := wrote pieces begun
    rw [BlockWriter.isWriteDone_iff written.inside _, written.cursor, cursor,
      List.drop_eq_nil_iff, ← length]
    exact ⟨fun long => begun.eq_of_length_le long, fun all => by rw [all]⟩
  refine ⟨?_, ?_, done_iff, ?_, ?_⟩
  · intro pieces all
    have written := wrote pieces (all ▸ List.prefix_rfl)
    rw [written.content, whole, all, cursor]
  · intro place outside
    rw [whole, putBytes_of_notMem outside]
  · intro pieces all more _
    dsimp only
    rw [BlockWriter.write, if_pos ((done_iff pieces (all ▸ List.prefix_rfl)).mpr all)]
  · intro buffer same
    rw [whole, readDataFromBlock, readLoop_eq onDevice seekable (by rw [same, length, Nat.zero_add]),
      List.take_zero, List.nil_append, map_putBytes onDevice.nodup_places length, same]

/-- Writing in pieces and at once agree, and the data is read back, exactly when no range starts
where the result of `lseek64` is taken for a failure in an `int`. -/
theorem writesAgree_iff :
    WritesAgree blocks offset synced device data ↔ Seekable blocks offset := by
  refine ⟨?_, writesAgree_of_seekable onDevice synced device length⟩
  intro agree pair member last
  have fails := (onDevice.seekFails_iff member).mpr last
  have read := agree.readBack data rfl
  have nothing : (readDataFromBlock blocks offset
      (writeDataToBlock blocks offset synced device.content data).2 data).1 = 0 :=
    readLoop_eq_zero ⟨pair, member, fails⟩
  rw [read] at nothing
  have places : places offset blocks = [] := by
    rw [onDevice.blocksSize_eq] at length
    exact List.length_eq_zero_iff.mp (length.symm.trans nothing)
  have first : pair.1 * hBlockSize + offset ∈ BlockSet.places offset blocks := by
    have ascending := onDevice.ascending pair member
    refine onDevice.mem_places.mpr ⟨pair, member, Nat.le_refl _, ?_⟩
    rw [hBlockSize]
    omega
  rw [places] at first
  exact List.not_mem_nil first

end Agree

/-- One block, which starts at the largest number in 32 bits. -/
theorem onDevice_last : OnDevice [(1048575, 1048576)] 4095 where
  ascending := by decide
  disjoint := List.pairwise_singleton _ _
  inside := by decide

theorem writesAgree_first :
    WritesAgree [(0, 1)] 0 true ⟨fun _ => 0, 0⟩ (List.replicate 4096 1) ↔ Seekable [(0, 1)] 0 :=
  writesAgree_iff
    ⟨by decide, List.pairwise_singleton _ _, by decide⟩ true ⟨fun _ => 0, 0⟩
    (by rw [List.length_replicate]; decide)

/-- `WriteDataToBlock` takes its own seek for a failure there, and writes nothing. -/
theorem lastBlock_unwritten :
    OnDevice [(1048575, 1048576)] 4095 ∧
      writeDataToBlock [(1048575, 1048576)] 4095 true (fun _ => 0) (List.replicate 4096 1) =
        (0, fun _ => 0) ∧
      ¬WritesAgree [(1048575, 1048576)] 4095 true ⟨fun _ => 0, 0⟩ (List.replicate 4096 1) := by
  have fails : ∃ pair ∈ ([(1048575, 1048576)] : BlockSet),
      seekFails (BlockPair.start 4095 pair) = true :=
    ⟨_, List.mem_singleton.mpr rfl, by decide⟩
  refine ⟨onDevice_last, rfl, ?_⟩
  intro agree
  have read := agree.readBack (List.replicate 4096 1) rfl
  have nothing := congrArg Prod.fst read
  rw [readDataFromBlock, readLoop_eq_zero fails, List.length_replicate] at nothing
  exact absurd nothing (by decide)

end BlockSet

end Updater.ApplyPatch
