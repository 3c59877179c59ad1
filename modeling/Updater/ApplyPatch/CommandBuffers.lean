import Updater.ApplyPatch.MoveBlock
import Updater.ApplyPatch.StreamNewCommand
import Updater.Base.CheckedMove

/-! `LoadTarget` and what it calls: how a command fills its source buffer from ranges and stashes,
with each access to the buffers checked. `none` is an access outside of a buffer. -/

set_option autoImplicit false

namespace Updater.ApplyPatch

open Updater.Base Updater.Utils

namespace BlockSet

/-- `MoveBlock`, from a buffer that may be the target itself. -/
def moveBlockChecked (target : Bytes) (locations : BlockSet) (source : Bytes → Bytes) :
    Option Bytes :=
  Move.allChecked source target (moves securecMemMaxLen locations)

/-- Each range with a block lies inside of the target, and its packed blocks, behind those of the
ranges before it, inside of the source. -/
def Fits (locations : BlockSet) (sourceSize targetSize : Nat) : Prop :=
  ∀ front pair back, locations = front ++ pair :: back → BlockPair.size pair ≠ 0 →
    blocksSize front + BlockPair.size pair ≤ sourceSize ∧
      pair.1 * hBlockSize % sizeMax + BlockPair.size pair ≤ targetSize

theorem totalBlockSize_append_singleton (front : BlockSet) (last : BlockPair) :
    (totalBlockSize (front ++ [last]) + sizeMax - BlockPair.blocks last) % sizeMax =
      totalBlockSize front := by
  have blocks : BlockPair.blocks last < sizeMax := Nat.mod_lt _ (by decide)
  rw [totalBlockSize, totalBlockSize, List.map_append, List.sum_append, List.map_singleton,
    List.sum_singleton]
  rw [sizeMax] at blocks ⊢
  omega

theorem fits_nil (sourceSize targetSize : Nat) : Fits [] sourceSize targetSize := by
  intro front pair back split
  exact absurd split.symm (List.append_ne_nil_of_right_ne_nil _ (List.cons_ne_nil _ _))

theorem fits_append_singleton_iff {front : BlockSet} {last : BlockPair}
    {sourceSize targetSize : Nat} :
    Fits (front ++ [last]) sourceSize targetSize ↔
      (BlockPair.size last ≠ 0 → blocksSize front + BlockPair.size last ≤ sourceSize ∧
        last.1 * hBlockSize % sizeMax + BlockPair.size last ≤ targetSize) ∧
      Fits front sourceSize targetSize := by
  constructor
  · intro fits
    refine ⟨fits front last [] rfl, ?_⟩
    intro before pair back split some_
    refine fits before pair (back ++ [last]) ?_ some_
    rw [split, List.append_assoc, List.cons_append]
  · rintro ⟨here, there⟩ before pair back split some_
    rcases List.eq_nil_or_concat back with rfl | ⟨others, final, rfl⟩
    · obtain ⟨rfl, same⟩ := List.append_inj' split rfl
      cases List.singleton_inj.mp same
      exact here some_
    · rw [List.concat_eq_append, ← List.cons_append, ← List.append_assoc] at split
      exact there before pair others (List.append_inj' split rfl).1 some_

/-- The moves of `MoveBlock` stay inside exactly when its ranges do. -/
theorem moves_inside_iff {locations : BlockSet} {sourceSize targetSize maxLen : Nat}
    (positive : 0 < maxLen) :
    (∀ move ∈ moves maxLen locations, move.Inside sourceSize targetSize) ↔
      Fits locations sourceSize targetSize := by
  induction locations using List.reverseRecOn with
  | nil => exact ⟨fun _ => fits_nil _ _, fun _ => nofun⟩
  | append_singleton front last ih =>
      rw [fits_append_singleton_iff, ← ih, moves, List.reverse_append, List.reverse_singleton,
        List.singleton_append, moveLoop, totalBlockSize_append_singleton, List.forall_mem_append,
        Move.chunks_inside_iff positive]
      rfl

variable {locations : BlockSet} {target : Bytes} {source : Bytes → Bytes}

theorem moveBlockChecked_ne_none_iff {sourceSize : Nat}
    (sized : ∀ buffer, buffer.length = target.length → (source buffer).length = sourceSize) :
    moveBlockChecked target locations source ≠ none ↔
      Fits locations sourceSize target.length :=
  (Move.allChecked_ne_none_iff sized).trans (moves_inside_iff (by decide))

/-- `IsTwoBlocksOverlap`. -/
def isTwoBlocksOverlap (source target : BlockSet) : Bool :=
  source.any fun first => target.any fun second =>
    !(decide (second.1 ≥ first.2) || decide (first.1 ≥ second.2))

theorem length_readLoop (content : Nat → UInt8) (offset : Nat) (blocks : BlockSet) {pos : Nat}
    {buffer : Bytes} (inside : pos ≤ buffer.length) :
    (readLoop content offset blocks pos buffer).2.length = buffer.length := by
  induction blocks generalizing pos buffer with
  | nil => rfl
  | cons pair blocks ih =>
      rw [readLoop]
      split
      · rfl
      · have count : (readContent content (BlockPair.start offset pair)
            (min (buffer.length - pos) (BlockPair.size pair))).length =
              min (buffer.length - pos) (BlockPair.size pair) := by
          rw [readContent, List.length_map, List.length_range']
        have same : (writeAt buffer pos (readContent content (BlockPair.start offset pair)
            (min (buffer.length - pos) (BlockPair.size pair)))).length = buffer.length := by
          refine length_writeAt ?_
          rw [count]
          omega
        rw [ih, same]
        rw [same]
        omega

/-- A byte that was read is from the device, or was in the buffer before. -/
theorem mem_readLoop {content : Nat → UInt8} {offset : Nat} {blocks : BlockSet} {pos : Nat}
    {buffer : Bytes} {byte : UInt8}
    (member : byte ∈ (readLoop content offset blocks pos buffer).2) :
    byte ∈ buffer ∨ ∃ place, content place = byte := by
  induction blocks generalizing pos buffer with
  | nil => exact .inl member
  | cons pair blocks ih =>
      rw [readLoop] at member
      split at member
      · exact .inl member
      · rcases ih member with before | there
        · rw [writeAt, List.mem_append, List.mem_append] at before
          rcases before with (front | data) | back
          · exact .inl (List.mem_of_mem_take front)
          · obtain ⟨place, -, same⟩ := List.mem_map.mp data
            exact .inr ⟨place, same⟩
          · exact .inl (List.mem_of_mem_drop back)
        · exact .inr there

end BlockSet

/-- A file of the stash directory, and whether it can be opened and read. -/
structure StoreFile where
  content : Bytes
  sized : content.length < offMax
  opens : Bool := true
  reads : Bool := true

/-- What a command uses of its parameters, and what devices, stash directory, digest and patch
answer. The directory itself goes by the empty name. -/
structure Setting where
  offset : Nat
  canWrite : Bool
  inPlaceDiff : Bool
  updaterMode : Bool
  source : Nat → UInt8
  sourceFails : BlockSet → Bool
  target : Nat → UInt8
  targetFails : BlockSet → Bool
  writeFails : BlockPair → Bool
  synced : Bool
  store : String → Option StoreFile
  stored : Int
  patched : Int
  errnoEio : Bool
  sha256Hex : Bytes → String

namespace Setting

variable (setting : Setting)

/-- `ReadDataFromBlock` from the source device. -/
def readSource (blocks : BlockSet) (buffer : Bytes) : Nat × Bytes :=
  if setting.sourceFails blocks then (0, buffer)
  else blocks.readDataFromBlock 0 setting.source buffer

/-- `ReadDataFromBlock` from the target device. -/
def readTarget (blocks : BlockSet) (buffer : Bytes) : Nat × Bytes :=
  if setting.targetFails blocks then (0, buffer)
  else blocks.readDataFromBlock setting.offset setting.target buffer

/-- `Store::LoadDataFromStore`. A buffer that could not be filled is not used. -/
def loadDataFromStore (fileName : String) (buffer : Bytes) : Int × Bytes :=
  match setting.store fileName with
  | none => (-2, buffer)
  | some file =>
      if file.content.length % hBlockSize ≠ 0 then (-1, buffer)
      else if !file.opens then (-1, buffer)
      else (if file.reads then 0 else -1, file.content)

/-- `Store::WriteDataToStore`, whose `size` is an `int`. -/
def writeDataToStore (buffer : Bytes) (size : Nat) : Option Int :=
  if size % 2 ^ 32 ≥ 2 ^ 31 then some (-1)
  else do
    let _ ← checkedSlice buffer 0 (size % 2 ^ 32)
    some setting.stored

/-- `VerifySha256`. -/
def verifySha256 (buffer : Bytes) (size : Nat) (expected : String) : Option Int := do
  let data ← checkedSlice buffer 0 (size * hBlockSize % sizeMax)
  some (if setting.sha256Hex data = expected then 0 else -1)

/-- The loop of `WriteDataToBlock`. -/
def writeLoop (buffer : Bytes) : BlockSet → Nat → Option Nat
  | [], pos => some (if setting.synced then pos else 0)
  | pair :: blocks, pos =>
      if seekFails (BlockPair.start setting.offset pair) then some 0
      else do
        let _ ← checkedSlice buffer pos (BlockPair.size pair)
        if setting.writeFails pair then some 0
        else writeLoop buffer blocks ((pos + BlockPair.size pair) % sizeMax)

/-- `WriteDataToBlock`. -/
def writeDataToBlock (blocks : BlockSet) (buffer : Bytes) : Option Nat :=
  setting.writeLoop buffer blocks 0

/-- `LoadStreamStashBuffer`, into a stash that is empty. -/
def loadStreamStashBuffer (stashTokens tokens : List String) : Int × Bytes :=
  if setting.updaterMode then
    let loaded := setting.loadDataFromStore (tokens.getD 0 "") []
    if loaded.1 = -1 then (-1, loaded.2) else (0, loaded.2)
  else if stashTokens.length ≤ 1 then (-1, [])
  else
    let srcBlk := blockSetOf (stashTokens.getD 1 "")
    let read := setting.readSource srcBlk (List.replicate (BlockSet.blocksSize srcBlk) 0)
    if read.1 = 0 then (-1, read.2) else (0, read.2)

/-- What `LoadStashBuffer` does with an argument before it moves blocks: their ranges and the
stash, or the number that it returns. -/
def loadStash (cmd : Command) (lastArg : String) : Except Int (BlockSet × Bytes) :=
  let tokens := splitString lastArg ":"
  if tokens.length ≠ 2 then .error (-1)
  else
    let ranges := tokens.getD 1 ""
    if !cmd.isStreamCmd || !decide ('-' ∈ ranges.toList) then
      let loaded := setting.loadDataFromStore (tokens.getD 0 "") []
      if loaded.1 ≠ 0 then .error loaded.1 else .ok (blockSetOf ranges, loaded.2)
    else
      let stashTokens := splitString ranges "-"
      let loaded := setting.loadStreamStashBuffer stashTokens tokens
      if loaded.1 = -1 then .error (-1)
      else .ok (blockSetOf (stashTokens.getD 0 ""), loaded.2)

/-- `LoadStashBuffer`, given the arguments from `pos` on. -/
def loadStashBuffer (cmd : Command) : List String → Bytes → Option (Int × Bytes)
  | [], sourceBuffer => some (1, sourceBuffer)
  | lastArg :: args, sourceBuffer =>
      if lastArg = "" then some (1, sourceBuffer)
      else
        match setting.loadStash cmd lastArg with
        | .error ret => some (ret, sourceBuffer)
        | .ok (locations, stash) => do
            let sourceBuffer ← locations.moveBlockChecked sourceBuffer fun _ => stash
            loadStashBuffer cmd args sourceBuffer

/-- `LoadSourceBuffer`: what it returns, `isOverlap` and the buffer. -/
def loadSourceBuffer (cmd : Command) (target : BlockSet) (pos : Nat) (sourceBuffer : Bytes) :
    Option (Int × Bool × Bytes) :=
  let targetCmd := cmd.getArgumentByPos pos
  if targetCmd ≠ "-" then
    let srcBlk := blockSetOf targetCmd
    let isOverlap := !cmd.isStreamCmd && BlockSet.isTwoBlocksOverlap srcBlk target
    let read := setting.readSource srcBlk sourceBuffer
    if read.1 = 0 then some (-1, isOverlap, read.2)
    else
      let nextArgv := cmd.getArgumentByPos (pos + 1)
      if nextArgv = "" then some (1, isOverlap, read.2)
      else do
        let sourceBuffer ← (blockSetOf nextArgv).moveBlockChecked read.2 id
        let loaded ← setting.loadStashBuffer cmd (cmd.tokens.drop (pos + 2)) sourceBuffer
        some (loaded.1, isOverlap, loaded.2)
  else do
    let loaded ← setting.loadStashBuffer cmd (cmd.tokens.drop (pos + 1)) sourceBuffer
    some (loaded.1, false, loaded.2)

/-- `LoadTargetBuffer`: what it returns, and the buffer. `BlockVerify` always returns -1. -/
def loadTargetBuffer (cmd : Command) (target : BlockSet) (buffer : Bytes) (blockSize pos : Nat)
    (srcHash : String) : Option (Int × Bytes) := do
  let (ret, isOverlap, buffer) ← setting.loadSourceBuffer cmd target pos buffer
  if ret ≠ 1 then some (ret, buffer)
  else if cmd.isStreamCmd then some (0, buffer)
  else
    let verifyRes ← setting.verifySha256 buffer blockSize srcHash
    if verifyRes ≠ 0 ∧ setting.canWrite = false then some (-1, buffer)
    else if verifyRes = 0 then
      if isOverlap && (setting.store srcHash).isNone then
        let ret ← setting.writeDataToStore buffer (blockSize * hBlockSize % sizeMax)
        some (if ret ≠ 0 then -1 else 0, buffer)
      else some (0, buffer)
    else
      let loaded := setting.loadDataFromStore srcHash buffer
      some (if loaded.1 = 0 then 0 else -1, loaded.2)

/-- The hashes of a command, and the position of its target ranges. -/
structure Hashes where
  srcHash : String
  tgtHash : String
  pos : Nat

/-- How `LoadTarget` reads the hashes. -/
def hashes (cmd : Command) (pos : Nat) : Hashes :=
  if cmd.type = .move then ⟨cmd.getArgumentByPos pos, cmd.getArgumentByPos pos, pos + 1⟩
  else if cmd.type ≠ .copy then
    ⟨cmd.getArgumentByPos pos, cmd.getArgumentByPos (pos + 1), pos + 2⟩
  else ⟨"", "", pos⟩

/-- What `LoadTarget` leaves: what it returns, `result`, and the source buffer. -/
structure Loaded where
  loads : Bool
  result : CommandResult
  buffer : Bytes

/-- The second part of `LoadTarget`, from the number of source blocks at `pos` on. -/
def loadSourceBlocks (cmd : Command) (targetBlock : BlockSet) (pos : Nat) (srcHash : String) :
    Option Loaded := do
  let srcBlockSize := string2Int (cmd.getArgumentByPos pos) nDec
  let buffer := List.replicate (srcBlockSize * hBlockSize % sizeMax) 0
  let (ret, buffer) ←
    setting.loadTargetBuffer cmd targetBlock buffer srcBlockSize (pos + 1) srcHash
  some (if ret ≠ 0 then ⟨false, .failed, buffer⟩ else ⟨true, .success, buffer⟩)

/-- `LoadTarget`. -/
def loadTarget (cmd : Command) (pos : Nat) : Option Loaded :=
  let hashes := hashes cmd pos
  let targetBlock := blockSetOf (cmd.getArgumentByPos hashes.pos)
  if cmd.type ≠ .copy then
    let read := setting.readTarget targetBlock
      (List.replicate (BlockSet.blocksSize targetBlock) 0)
    if read.1 = 0 then some ⟨false, .failed, []⟩
    else do
      let verifyRes ←
        setting.verifySha256 read.2 (BlockSet.totalBlockSize targetBlock) hashes.tgtHash
      if verifyRes = 0 then some ⟨false, .success, []⟩
      else setting.loadSourceBlocks cmd targetBlock (hashes.pos + 1) hashes.srcHash
  else setting.loadSourceBlocks cmd targetBlock (hashes.pos + 1) hashes.srcHash

/-- `SkipInPlaceMove`. -/
def skipInPlaceMove (cmd : Command) : Bool :=
  setting.canWrite && decide (cmd.type = .move) &&
    decide (cmd.getArgumentByPos 2 = cmd.getArgumentByPos 4) && setting.inPlaceDiff

/-- Where the arguments of a command start. -/
def argsStart (cmd : Command) : Nat :=
  if cmd.type = .move then 1 else if cmd.type = .copy then 1 else 3

/-- `DiffAndMoveCommandFn::Execute`; a patch has bounds of its own. -/
def execute (cmd : Command) : Option CommandResult :=
  if setting.skipInPlaceMove cmd then some .success
  else do
    let loaded ← setting.loadTarget cmd (argsStart cmd)
    if loaded.loads = false ∨ setting.canWrite = false then some loaded.result
    else
      let targetBlock := blockSetOf (cmd.getArgumentByPos (hashes cmd (argsStart cmd)).pos)
      let ret ←
        if cmd.type ≠ .move ∧ cmd.type ≠ .copy then some setting.patched
        else do
          let written ← setting.writeDataToBlock targetBlock loaded.buffer
          some (if written = 0 then -1 else 0)
      some (if ret ≠ 0 then if setting.errnoEio then .needRetry else .failed else .success)

/-- No access of a command to its buffers is outside of them. -/
def BuffersKept (cmd : Command) : Prop :=
  setting.execute cmd ≠ none

end Setting

end Updater.ApplyPatch
