import Updater.ApplyPatch.BlockSetIO
import Updater.ApplyPatch.Command

/-! `NewCommandFn` for a stream: its data is written to the target ranges, read back and hashed. -/

set_option autoImplicit false

namespace Updater.ApplyPatch

open Updater.Base Updater.Utils

/-- `BlockSet(blockStr, offset)`; what `ParserAndInsert` says is not looked at. -/
def blockSetOf (blockStr : String) : BlockSet :=
  (({} : BlockSetState).parserAndInsert blockStr).2.blocks

/-- `VerifySha256` of a buffer that has all the blocks; `sha256Hex` gives the digest in
hexadecimal. -/
def verifySha256 (sha256Hex : Bytes → String) (buffer : Bytes) (size : Nat) (expected : String) :
    Int :=
  if sha256Hex (buffer.take (size * hBlockSize % sizeMax)) = expected then 0 else -1

/-- A command, and what it uses of the transfer parameters. -/
structure StreamParams where
  cmd : Command
  offset : Nat
  dataBuffer : Bytes

namespace NewCommandFn

/-- The loop over the data: whether all calls of `Write` succeeded. -/
def writeData (writer : BlockWriter) (device : BlockDevice) (data : Bytes) : Bool × BlockDevice :=
  if _some : data = [] then (true, device)
  else
    let left := (BlockSet.blocksSize writer.blocks + sizeMax - writer.totalWritten % sizeMax) % sizeMax
    let toWrite := min data.length left
    if _more : toWrite = 0 then (true, device)
    else
      let result := writer.write device (data.take toWrite)
      if result.1 then writeData result.2.1 result.2.2.1 (data.drop toWrite)
      else (false, result.2.2.1)
termination_by data.length
decreasing_by
  have some := List.length_pos_iff.mpr _some
  rw [List.length_drop]
  omega

/-- `StreamExecute`: what it returns, and the device. -/
def streamExecute (sha256Hex : Bytes → String) (params : StreamParams) (device : BlockDevice) :
    Int × (Nat → UInt8) :=
  let tgtHash := params.cmd.getArgumentByPos 1
  let bs := blockSetOf (params.cmd.getArgumentByPos 2)
  let written := writeData (bs.writer params.offset) device params.dataBuffer
  let content := written.2.content
  if written.1 then
    let tgtBlockSize := BlockSet.blocksSize bs
    let read := bs.readDataFromBlock params.offset content
      (List.replicate (min tgtBlockSize params.dataBuffer.length) 0)
    if read.1 = 0 then (-1, content)
    else if verifySha256 sha256Hex read.2 (BlockSet.totalBlockSize bs) tgtHash = 0 then (-1, content)
    else (0, content)
  else (-1, content)

/-- `Execute` of a stream command. -/
def execute (sha256Hex : Bytes → String) (params : StreamParams) (device : BlockDevice) :
    CommandResult × (Nat → UInt8) :=
  let executed := streamExecute sha256Hex params device
  (if executed.1 ≠ 0 then .failed else .success, executed.2)

/-- A stream command whose ranges are well formed and lie on the device, with all their data. -/
structure WellFormed (params : StreamParams) : Prop where
  stream : params.cmd.isStreamCmd = true
  accepted : (({} : BlockSetState).parserAndInsert (params.cmd.getArgumentByPos 2)).1 = true
  onDevice : BlockSet.OnDevice (blockSetOf (params.cmd.getArgumentByPos 2)) params.offset
  length : params.dataBuffer.length =
    BlockSet.blocksSize (blockSetOf (params.cmd.getArgumentByPos 2))

/-- The data is on the target ranges in order, and the verdict is that of the digest of what is
read back. -/
structure VerdictTrue (sha256Hex : Bytes → String) (params : StreamParams) (device : BlockDevice) :
    Prop where
  written : (execute sha256Hex params device).2 = putBytes device.content
    (BlockSet.places params.offset (blockSetOf (params.cmd.getArgumentByPos 2))) params.dataBuffer
  verdict : (execute sha256Hex params device).1 = .success ↔
    sha256Hex ((BlockSet.places params.offset (blockSetOf (params.cmd.getArgumentByPos 2))).map
      (execute sha256Hex params device).2) = params.cmd.getArgumentByPos 1

section Execute

variable {params : StreamParams} (wellFormed : WellFormed params) (device : BlockDevice)

include wellFormed

/-- A range string that is accepted has a range. -/
theorem WellFormed.blocks_ne_nil : blockSetOf (params.cmd.getArgumentByPos 2) ≠ [] := by
  have accepted := wellFormed.accepted
  have counted : WellCounted (splitString (params.cmd.getArgumentByPos 2) ",") := by
    by_contra uncounted
    rw [(BlockSetState.parserAndInsert_eq _ _).2 uncounted] at accepted
    exact Bool.false_ne_true accepted
  rw [blockSetOf, (BlockSetState.parserAndInsert_eq _ _).1 counted,
    BlockSetState.insertTokens_blocks]
  match tokens : splitString (params.cmd.getArgumentByPos 2) ",", counted with
  | number :: [], counted => exact absurd rfl counted.2.1
  | number :: single :: [], counted => exact absurd counted.2.2 (by rw [List.length_singleton]; decide)
  | number :: first :: second :: rest, _ =>
      exact List.append_ne_nil_of_right_ne_nil _ (List.cons_ne_nil _ _)

theorem WellFormed.length_places : params.dataBuffer.length =
    (BlockSet.places params.offset (blockSetOf (params.cmd.getArgumentByPos 2))).length := by
  rw [wellFormed.length, wellFormed.onDevice.blocksSize_eq]

theorem WellFormed.dataBuffer_ne_nil : params.dataBuffer ≠ [] := by
  intro empty
  obtain ⟨pair, blocks, split⟩ := List.exists_cons_of_ne_nil wellFormed.blocks_ne_nil
  have member : pair ∈ blockSetOf (params.cmd.getArgumentByPos 2) := by
    rw [split]
    exact .head _
  have ascending := wellFormed.onDevice.ascending pair member
  have first : pair.1 * hBlockSize + params.offset ∈
      BlockSet.places params.offset (blockSetOf (params.cmd.getArgumentByPos 2)) := by
    refine wellFormed.onDevice.mem_places.mpr ⟨pair, member, Nat.le_refl _, ?_⟩
    rw [hBlockSize]
    omega
  have length := wellFormed.length_places
  rw [empty] at length
  rw [List.length_eq_zero_iff.mp length.symm] at first
  exact List.not_mem_nil first

/-- All the data is written by one call. -/
theorem writeData_eq :
    (writeData ((blockSetOf (params.cmd.getArgumentByPos 2)).writer params.offset) device
        params.dataBuffer).1 = true ∧
      (writeData ((blockSetOf (params.cmd.getArgumentByPos 2)).writer params.offset) device
          params.dataBuffer).2.content =
        putBytes device.content
          (BlockSet.places params.offset (blockSetOf (params.cmd.getArgumentByPos 2)))
          params.dataBuffer := by
  have some := wellFormed.dataBuffer_ne_nil
  have positive := List.length_pos_iff.mpr some
  have left : (BlockSet.blocksSize (blockSetOf (params.cmd.getArgumentByPos 2)) + sizeMax -
      0 % sizeMax) % sizeMax = params.dataBuffer.length := by
    rw [Nat.zero_mod, Nat.sub_zero, Nat.add_mod_right, wellFormed.length]
    exact Nat.mod_eq_of_lt (BlockSet.blocksSize_lt _)
  have inside : ((blockSetOf (params.cmd.getArgumentByPos 2)).writer params.offset).Inside :=
    ⟨wellFormed.onDevice, Nat.zero_le _⟩
  have room : params.dataBuffer.length ≤
      (((blockSetOf (params.cmd.getArgumentByPos 2)).writer params.offset).cursor device).length :=
    Nat.le_of_eq wellFormed.length_places
  rw [writeData, dif_neg some]
  dsimp only [BlockSet.writer] at inside room ⊢
  rw [left, Nat.min_self, dif_neg (Nat.ne_of_gt positive), List.take_length, List.drop_length,
    if_pos (BlockWriter.write_succeeds inside some room), writeData, dif_pos rfl]
  exact ⟨rfl, (BlockWriter.write_wrote inside room).content⟩

/-- What is on the places then is the data. -/
theorem map_written :
    (BlockSet.places params.offset (blockSetOf (params.cmd.getArgumentByPos 2))).map
        (putBytes device.content
          (BlockSet.places params.offset (blockSetOf (params.cmd.getArgumentByPos 2)))
          params.dataBuffer) = params.dataBuffer :=
  map_putBytes wellFormed.onDevice.nodup_places wellFormed.length_places

/-- The data is always written, but success is what follows when it can be read back and its
digest is another one than the command says. -/
theorem execute_eq (sha256Hex : Bytes → String) :
    (execute sha256Hex params device).2 = putBytes device.content
        (BlockSet.places params.offset (blockSetOf (params.cmd.getArgumentByPos 2)))
        params.dataBuffer ∧
      ((execute sha256Hex params device).1 = .success ↔
        BlockSet.Seekable (blockSetOf (params.cmd.getArgumentByPos 2)) params.offset ∧
          sha256Hex params.dataBuffer ≠ params.cmd.getArgumentByPos 1) := by
  obtain ⟨success, content⟩ := writeData_eq wellFormed device
  have onDevice := wellFormed.onDevice
  have length := wellFormed.length_places
  have buffer : (List.replicate (min (BlockSet.blocksSize
      (blockSetOf (params.cmd.getArgumentByPos 2))) params.dataBuffer.length) (0 : UInt8)).length =
        params.dataBuffer.length := by
    rw [List.length_replicate, wellFormed.length, Nat.min_self]
  have whole : params.dataBuffer.take (BlockSet.totalBlockSize
      (blockSetOf (params.cmd.getArgumentByPos 2)) * hBlockSize % sizeMax) = params.dataBuffer :=
    List.take_of_length_le (Nat.le_of_eq wellFormed.length)
  rw [execute, streamExecute]
  dsimp only
  rw [if_pos success, content]
  by_cases seekable : BlockSet.Seekable (blockSetOf (params.cmd.getArgumentByPos 2)) params.offset
  · have read := @BlockSet.readLoop_eq _ _ onDevice seekable (putBytes device.content
      (BlockSet.places params.offset (blockSetOf (params.cmd.getArgumentByPos 2)))
      params.dataBuffer) 0 _ (buffer.trans (length.trans (Nat.zero_add _).symm))
    rw [List.take_zero, List.nil_append, map_written wellFormed, buffer] at read
    have some := List.length_pos_iff.mpr wellFormed.dataBuffer_ne_nil
    rw [BlockSet.readDataFromBlock, read]
    dsimp only
    rw [if_neg (Nat.ne_of_gt some), verifySha256, whole]
    by_cases same : sha256Hex params.dataBuffer = params.cmd.getArgumentByPos 1
    · rw [if_pos same, if_pos rfl]
      exact ⟨rfl, ⟨(fun other => by cases other), fun both => absurd same both.2⟩⟩
    · rw [if_neg same, if_neg (by decide)]
      exact ⟨rfl, ⟨fun _ => ⟨seekable, same⟩, fun _ => rfl⟩⟩
  · have fails : ∃ pair ∈ blockSetOf (params.cmd.getArgumentByPos 2),
        seekFails (BlockPair.start params.offset pair) = true := by
      by_contra none
      refine seekable fun pair member last => none ⟨pair, member, ?_⟩
      exact (onDevice.seekFails_iff member).mpr last
    rw [BlockSet.readDataFromBlock, if_pos (BlockSet.readLoop_eq_zero fails)]
    exact ⟨rfl, ⟨(fun other => by cases other), fun both => absurd both.1 seekable⟩⟩

/-- The verdict is the right one only where the data could not be read back, and its digest would
have been wrong. -/
theorem verdictTrue_iff (sha256Hex : Bytes → String) :
    VerdictTrue sha256Hex params device ↔
      ¬BlockSet.Seekable (blockSetOf (params.cmd.getArgumentByPos 2)) params.offset ∧
        sha256Hex params.dataBuffer ≠ params.cmd.getArgumentByPos 1 := by
  obtain ⟨content, success⟩ := execute_eq wellFormed device sha256Hex
  constructor
  · rintro ⟨-, verdict⟩
    rw [success, content, map_written wellFormed] at verdict
    have differ : sha256Hex params.dataBuffer ≠ params.cmd.getArgumentByPos 1 := by
      intro same
      exact (verdict.mpr same).2 same
    exact ⟨fun seekable => differ (verdict.mp ⟨seekable, differ⟩), differ⟩
  · rintro ⟨unseekable, differ⟩
    refine ⟨content, ?_⟩
    rw [success, content, map_written wellFormed]
    exact ⟨fun both => absurd both.1 unseekable, fun same => absurd same differ⟩

end Execute

/-- The digest of a block of ones. -/
def onesDigest : String :=
  "3431383721510cf1c211de027cf958c183e16db5fabb6b230eb284c85e196aa9"

/-- One block of ones for the first block of the device, with its digest. -/
def newOnes : StreamParams where
  cmd :=
    { type := .new
      cmdhead := "new"
      cmdLine := "new " ++ onesDigest ++ " 2,0,1"
      tokens := ["new", onesDigest, "2,0,1"]
      isStreamCmd := true }
  offset := 0
  dataBuffer := List.replicate 4096 1

/-- A digest that is right for this block. -/
def onesSha256 (bytes : Bytes) : String :=
  if bytes = List.replicate 4096 1 then onesDigest else ""

theorem newOnes_blocks : blockSetOf (newOnes.cmd.getArgumentByPos 2) = [(0, 1)] := by
  decide +kernel

theorem newOnes_wellFormed : WellFormed newOnes where
  stream := rfl
  accepted := by decide +kernel
  onDevice := by
    rw [newOnes_blocks]
    exact ⟨by decide, List.pairwise_singleton _ _, by decide⟩
  length := by
    rw [newOnes_blocks]
    exact List.length_replicate

theorem newOnes_verdictTrue_iff :
    VerdictTrue onesSha256 newOnes ⟨fun _ => 0, 0⟩ ↔
      ¬BlockSet.Seekable (blockSetOf (newOnes.cmd.getArgumentByPos 2)) newOnes.offset ∧
        onesSha256 newOnes.dataBuffer ≠ newOnes.cmd.getArgumentByPos 1 :=
  verdictTrue_iff newOnes_wellFormed ⟨fun _ => 0, 0⟩ onesSha256

/-- The right data with the right digest is written, and the command fails. -/
theorem newOnes_failed :
    WellFormed newOnes ∧
      onesSha256 newOnes.dataBuffer = newOnes.cmd.getArgumentByPos 1 ∧
      (execute onesSha256 newOnes ⟨fun _ => 0, 0⟩).1 ≠ .success ∧
      ¬VerdictTrue onesSha256 newOnes ⟨fun _ => 0, 0⟩ := by
  obtain ⟨content, success⟩ := execute_eq newOnes_wellFormed ⟨fun _ => 0, 0⟩ onesSha256
  have right : onesSha256 newOnes.dataBuffer = newOnes.cmd.getArgumentByPos 1 := if_pos rfl
  have failed : (execute onesSha256 newOnes ⟨fun _ => 0, 0⟩).1 ≠ .success := fun succeeded =>
    (success.mp succeeded).2 right
  refine ⟨newOnes_wellFormed, right, failed, ?_⟩
  intro verdictTrue
  have verdict := verdictTrue.verdict
  rw [content, map_written newOnes_wellFormed] at verdict
  exact failed (verdict.mpr right)

end NewCommandFn

end Updater.ApplyPatch
