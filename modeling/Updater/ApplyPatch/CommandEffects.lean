import Updater.ApplyPatch.CommandBufferSafety
import Updater.Base.Traced

/-! What a move or a diff leaves on the disk, in the order in which it does: it can be stopped after
any part of it. -/

set_option autoImplicit false

namespace Updater.ApplyPatch

open Updater.Base Updater.Utils

/-- A change of the stash directory or of the target device. -/
inductive Effect where
  | createStore (fileName : String)
  | appendStore (fileName : String) (byte : UInt8)
  | writeTarget (place : Nat) (byte : UInt8)
  | freeStore (fileName : String)
  deriving DecidableEq, Repr

/-- Bytes put to places of the target one after another. -/
def Effect.writes (places : List Nat) (data : Bytes) : List Effect :=
  (places.zip data).map fun put => .writeTarget put.1 put.2

/-- The file of a stash created, and its bytes appended one after another. -/
def Effect.stash (fileName : String) (data : Bytes) : List Effect :=
  .createStore fileName :: data.map (.appendStore fileName)

namespace Effect

theorem writes_append {places others : List Nat} {data more : Bytes}
    (length : places.length = data.length) :
    writes (places ++ others) (data ++ more) = writes places data ++ writes others more := by
  rw [writes, List.zip_append length, List.map_append]
  rfl

theorem take_writes (places : List Nat) (data : Bytes) (count : Nat) :
    (writes places data).take count = writes (places.take count) (data.take count) := by
  rw [writes, ← List.map_take, List.zip_eq_zipWith, List.take_zipWith, ← List.zip_eq_zipWith]
  rfl

theorem length_writes {places : List Nat} {data : Bytes} (length : data.length = places.length) :
    (writes places data).length = places.length := by
  rw [writes, List.length_map, List.length_zip, length, Nat.min_self]

theorem stash_prefix {fileName : String} {data more : Bytes} (begun : data <+: more) :
    stash fileName data <+: stash fileName more :=
  List.cons_prefix_cons.mpr ⟨rfl, begun.map _⟩

end Effect

/-- What stays over a crash. A source device of its own is there where it is not the target. -/
structure Disk where
  store : String → Option Bytes
  target : Nat → UInt8
  ownSource : Option (Nat → UInt8)

namespace Disk

def source (disk : Disk) : Nat → UInt8 :=
  disk.ownSource.getD disk.target

def perform (disk : Disk) : Effect → Disk
  | .createStore fileName => { disk with store := Function.update disk.store fileName (some []) }
  | .appendStore fileName byte =>
      { disk with
        store := Function.update disk.store fileName
          (some ((disk.store fileName).getD [] ++ [byte])) }
  | .writeTarget place byte => { disk with target := Function.update disk.target place byte }
  | .freeStore fileName => { disk with store := Function.update disk.store fileName none }

def performAll (disk : Disk) (effects : List Effect) : Disk :=
  effects.foldl perform disk

@[simp] theorem performAll_nil (disk : Disk) : disk.performAll [] = disk := rfl

theorem performAll_append (disk : Disk) (first second : List Effect) :
    disk.performAll (first ++ second) = (disk.performAll first).performAll second :=
  List.foldl_append

theorem performAll_writes (disk : Disk) (places : List Nat) (data : Bytes) :
    disk.performAll (Effect.writes places data) =
      { disk with target := putBytes disk.target places data } := by
  induction places generalizing disk data with
  | nil => rfl
  | cons place places ih =>
      cases data with
      | nil => rfl
      | cons byte data => exact ih (disk.perform (.writeTarget place byte)) data

theorem performAll_appends (disk : Disk) (fileName : String) (content data : Bytes) :
    Disk.performAll { disk with store := Function.update disk.store fileName (some content) }
        (data.map (.appendStore fileName)) =
      { disk with store := Function.update disk.store fileName (some (content ++ data)) } := by
  induction data generalizing content with
  | nil => rw [List.append_nil]; rfl
  | cons byte data ih =>
      rw [← List.singleton_append, ← List.append_assoc, ← ih, performAll, List.map_append,
        List.foldl_append]
      congr 1
      simp only [List.map_cons, List.map_nil, List.foldl_cons, List.foldl_nil, perform,
        Function.update_self, Option.getD_some, Function.update_idem]

theorem performAll_stash (disk : Disk) (fileName : String) (data : Bytes) :
    disk.performAll (Effect.stash fileName data) =
      { disk with store := Function.update disk.store fileName (some data) } :=
  performAll_appends disk fileName [] data

end Disk

/-- A call of a command: what devices and directory answer, what the patch hands to the writer for a
source, how far a write gets that fails, whether the stash can be deleted, and after how many of its
effects the call is stopped, if it is. -/
structure Attempt extends Setting where
  patch : Bytes → List Bytes
  storeWritten : Nat
  targetWritten : Nat
  frees : Bool
  crash : Option Nat

namespace Attempt

variable (attempt : Attempt)

/-- `Store::WriteDataToStore`, which opens the file before it looks at the size. -/
def writeDataToStore (fileName : String) (buffer : Bytes) (size : Nat) : Traced Effect Int := do
  let ret ← .ofOption (attempt.toSetting.writeDataToStore buffer size)
  let effects := Effect.stash fileName
    (if size % 2 ^ 32 ≥ 2 ^ 31 then [] else slice buffer 0 (size % 2 ^ 32))
  .emit (if ret = 0 then effects else effects.take attempt.storeWritten)
  pure ret

/-- The loop of `WriteDataToBlock`. -/
def writeLoop (buffer : Bytes) : BlockSet → Nat → Traced Effect Nat
  | [], pos => pure (if attempt.synced then pos else 0)
  | pair :: blocks, pos =>
      if seekFails (BlockPair.start attempt.offset pair) then pure 0
      else do
        let data ← .ofOption (checkedSlice buffer pos (BlockPair.size pair))
        let effects := Effect.writes
          (List.range' (BlockPair.start attempt.offset pair) (BlockPair.size pair)) data
        if attempt.writeFails pair then do
          .emit (effects.take attempt.targetWritten)
          pure 0
        else do
          .emit effects
          writeLoop buffer blocks ((pos + BlockPair.size pair) % sizeMax)

/-- `WriteDataToBlock`. -/
def writeDataToBlock (blocks : BlockSet) (buffer : Bytes) : Traced Effect Nat :=
  attempt.writeLoop buffer blocks 0

/-- `WriteDiffToBlock`: a `BlockWriter` puts to the places what the patch hands to it. -/
def writeDiffToBlock (blocks : BlockSet) (buffer : Bytes) : Traced Effect Int := do
  let effects := Effect.writes (blocks.places attempt.offset) (attempt.patch buffer).flatten
  .emit (if attempt.patched = 0 then effects else effects.take attempt.targetWritten)
  pure attempt.patched

/-- `LoadTargetBuffer`: what it returns, the buffer, and `freeStash`. -/
def loadTargetBuffer (cmd : Command) (target : BlockSet) (buffer : Bytes) (blockSize pos : Nat)
    (srcHash : String) : Traced Effect (Int × Bytes × String) := do
  let (ret, isOverlap, buffer) ← .ofOption (attempt.loadSourceBuffer cmd target pos buffer)
  if ret ≠ 1 then pure (ret, buffer, "")
  else if cmd.isStreamCmd then pure (0, buffer, "")
  else do
    let verifyRes ← .ofOption (attempt.verifySha256 buffer blockSize srcHash)
    if verifyRes ≠ 0 ∧ attempt.canWrite = false then pure (-1, buffer, "")
    else if verifyRes = 0 then
      if isOverlap && (attempt.store srcHash).isNone then do
        let ret ← attempt.writeDataToStore srcHash buffer (blockSize * hBlockSize % sizeMax)
        pure (if ret ≠ 0 then -1 else 0, buffer, srcHash)
      else pure (0, buffer, "")
    else
      let loaded := attempt.loadDataFromStore srcHash buffer
      pure (if loaded.1 = 0 then 0 else -1, loaded.2, "")

/-- The second part of `LoadTarget`, and `freeStash`. -/
def loadSourceBlocks (cmd : Command) (targetBlock : BlockSet) (pos : Nat) (srcHash : String) :
    Traced Effect (Setting.Loaded × String) := do
  let srcBlockSize := string2Int (cmd.getArgumentByPos pos) nDec
  let buffer := List.replicate (srcBlockSize * hBlockSize % sizeMax) 0
  let (ret, buffer, freeStash) ←
    attempt.loadTargetBuffer cmd targetBlock buffer srcBlockSize (pos + 1) srcHash
  pure (if ret ≠ 0 then ⟨false, .failed, buffer⟩ else ⟨true, .success, buffer⟩, freeStash)

/-- `LoadTarget`, and `freeStash`. -/
def loadTarget (cmd : Command) (pos : Nat) : Traced Effect (Setting.Loaded × String) :=
  let hashes := Setting.hashes cmd pos
  let targetBlock := blockSetOf (cmd.getArgumentByPos hashes.pos)
  if cmd.type ≠ .copy then
    let read := attempt.readTarget targetBlock
      (List.replicate (BlockSet.blocksSize targetBlock) 0)
    if read.1 = 0 then pure (⟨false, .failed, []⟩, "")
    else do
      let verifyRes ← .ofOption
        (attempt.verifySha256 read.2 (BlockSet.totalBlockSize targetBlock) hashes.tgtHash)
      if verifyRes = 0 then pure (⟨false, .success, []⟩, "")
      else attempt.loadSourceBlocks cmd targetBlock (hashes.pos + 1) hashes.srcHash
  else attempt.loadSourceBlocks cmd targetBlock (hashes.pos + 1) hashes.srcHash

/-- What `Execute` writes to the target, and `ret`. -/
def writeTarget (cmd : Command) (targetBlock : BlockSet) (buffer : Bytes) : Traced Effect Int :=
  if cmd.type ≠ .move ∧ cmd.type ≠ .copy then attempt.writeDiffToBlock targetBlock buffer
  else do
    let written ← attempt.writeDataToBlock targetBlock buffer
    pure (if written = 0 then -1 else 0)

/-- `DiffAndMoveCommandFn::Execute`. -/
def execute (cmd : Command) : Traced Effect CommandResult :=
  if attempt.skipInPlaceMove cmd then pure .success
  else do
    let (loaded, freeStash) ← attempt.loadTarget cmd (Setting.argsStart cmd)
    if loaded.loads = false ∨ attempt.canWrite = false then pure loaded.result
    else do
      let targetBlock := blockSetOf
        (cmd.getArgumentByPos (Setting.hashes cmd (Setting.argsStart cmd)).pos)
      let ret ← attempt.writeTarget cmd targetBlock loaded.buffer
      if ret ≠ 0 then pure (if attempt.errnoEio then .needRetry else .failed)
      else do
        .emit (if freeStash ≠ "" ∧ attempt.frees = true then [.freeStore freeStash] else [])
        pure .success

section Results

variable {attempt : Attempt}

theorem result_writeDataToStore (fileName : String) (buffer : Bytes) (size : Nat) :
    (attempt.writeDataToStore fileName buffer size).result =
      attempt.toSetting.writeDataToStore buffer size := by
  rw [writeDataToStore]
  cases attempt.toSetting.writeDataToStore buffer size with
  | none => rfl
  | some ret => rfl

theorem result_writeLoop (buffer : Bytes) (blocks : BlockSet) (pos : Nat) :
    (attempt.writeLoop buffer blocks pos).result = attempt.toSetting.writeLoop buffer blocks pos := by
  induction blocks generalizing pos with
  | nil => rfl
  | cons pair blocks ih =>
      rw [writeLoop, Setting.writeLoop]
      split
      · rfl
      · cases checkedSlice buffer pos (BlockPair.size pair) with
        | none => rfl
        | some data =>
            rw [Traced.ofOption_some_bind]
            dsimp only
            split
            · rfl
            · rw [← ih]
              rfl

theorem result_loadTargetBuffer (cmd : Command) (target : BlockSet) (buffer : Bytes)
    (blockSize pos : Nat) (srcHash : String) :
    (attempt.loadTargetBuffer cmd target buffer blockSize pos srcHash).result.map
        (fun loaded => (loaded.1, loaded.2.1)) =
      attempt.toSetting.loadTargetBuffer cmd target buffer blockSize pos srcHash := by
  rw [loadTargetBuffer, Setting.loadTargetBuffer]
  cases attempt.loadSourceBuffer cmd target pos buffer with
  | none => rfl
  | some source =>
      obtain ⟨ret, isOverlap, buffer⟩ := source
      rw [Traced.ofOption_some_bind, Option.bind_eq_bind, Option.bind_some]
      dsimp only
      split
      · rfl
      · split
        · rfl
        · cases attempt.verifySha256 buffer blockSize srcHash with
          | none => rfl
          | some verifyRes =>
              rw [Traced.ofOption_some_bind, Option.bind_eq_bind, Option.bind_some]
              split
              · rfl
              · split
                · split
                  · rw [Traced.result_bind, result_writeDataToStore]
                    cases attempt.toSetting.writeDataToStore buffer
                      (blockSize * hBlockSize % sizeMax) with
                    | none => rfl
                    | some ret => rfl
                  · rfl
                · rfl

theorem result_loadSourceBlocks (cmd : Command) (targetBlock : BlockSet) (pos : Nat)
    (srcHash : String) :
    (attempt.loadSourceBlocks cmd targetBlock pos srcHash).result.map Prod.fst =
      attempt.toSetting.loadSourceBlocks cmd targetBlock pos srcHash := by
  rw [loadSourceBlocks, Setting.loadSourceBlocks]
  dsimp only
  rw [← result_loadTargetBuffer, Traced.result_bind]
  cases (attempt.loadTargetBuffer cmd targetBlock (List.replicate
      (string2Int (cmd.getArgumentByPos pos) nDec * hBlockSize % sizeMax) 0)
      (string2Int (cmd.getArgumentByPos pos) nDec) (pos + 1) srcHash).result with
  | none => rfl
  | some loaded => rfl

theorem result_loadTarget (cmd : Command) (pos : Nat) :
    (attempt.loadTarget cmd pos).result.map Prod.fst = attempt.toSetting.loadTarget cmd pos := by
  rw [loadTarget, Setting.loadTarget]
  dsimp only
  rw [← result_loadSourceBlocks]
  split
  · split
    · rfl
    · cases attempt.verifySha256 _ _ _ with
      | none => rfl
      | some verifyRes =>
          rw [Traced.ofOption_some_bind, Option.bind_eq_bind, Option.bind_some]
          split
          · rfl
          · rfl
  · rfl

/-- Effects apart, a call is the command as it keeps to its buffers. -/
theorem result_execute (cmd : Command) :
    (attempt.execute cmd).result = attempt.toSetting.execute cmd := by
  rw [execute, Setting.execute, ← result_loadTarget]
  split
  · rfl
  · rw [Traced.result_bind]
    cases (attempt.loadTarget cmd (Setting.argsStart cmd)).result with
    | none => rfl
    | some loaded =>
        rw [Option.map_some, Option.bind_some, Option.bind_eq_bind, Option.bind_some]
        dsimp only
        split
        · rfl
        · rw [Traced.result_bind, writeTarget]
          split
          · rw [writeDiffToBlock, Traced.emit_bind]
            simp only [Traced.result_pure, Option.bind_some, Option.bind_eq_bind]
            split
            · rfl
            · rfl
          · rw [Traced.result_bind, writeDataToBlock, result_writeLoop, Setting.writeDataToBlock]
            cases attempt.toSetting.writeLoop loaded.1.buffer _ 0 with
            | none => rfl
            | some written =>
                simp only [Option.bind_some, Option.bind_eq_bind, Traced.result_pure]
                split
                · rfl
                · rfl

end Results

section Loading

/-- What loading the source buffer does, where the pieces of the source lie inside of it: it makes
the stash at most, from a source that was verified, and goes on with that source or with the
stash. -/
inductive Loads (attempt : Attempt) (cmd : Command) (target : BlockSet) (pos size : Nat)
    (srcHash : String) : Traced Effect (Int × Bytes × String) → Prop
  | unread (ret : Int) (buffer : Bytes) : ret ≠ 0 →
      Loads attempt cmd target pos size srcHash ⟨[], some (ret, buffer, "")⟩
  | stashed (effects : List Effect) (ret : Int) :
      (attempt.gathering cmd pos size).loads = true →
      attempt.sha256Hex ((attempt.gathering cmd pos size).assembled.read 0 size) = srcHash →
      Setting.overlaps cmd target pos = true → attempt.store srcHash = none →
      effects <+: Effect.stash srcHash ((attempt.gathering cmd pos size).assembled.read 0 size) →
      (ret = 0 → effects ≠ []) →
      Loads attempt cmd target pos size srcHash
        ⟨effects, some (ret, (attempt.gathering cmd pos size).assembled.read 0 size, srcHash)⟩
  | verified :
      (attempt.gathering cmd pos size).loads = true →
      attempt.sha256Hex ((attempt.gathering cmd pos size).assembled.read 0 size) = srcHash →
      (Setting.overlaps cmd target pos = true → attempt.store srcHash ≠ none) →
      Loads attempt cmd target pos size srcHash
        ⟨[], some (0, (attempt.gathering cmd pos size).assembled.read 0 size, "")⟩
  | lost (ret : Int) (buffer : Bytes) :
      (attempt.gathering cmd pos size).loads = true →
      attempt.sha256Hex ((attempt.gathering cmd pos size).assembled.read 0 size) ≠ srcHash →
      (ret = 0 → ∃ file, attempt.store srcHash = some file ∧
        file.content.length % hBlockSize = 0 ∧ buffer = file.content) →
      Loads attempt cmd target pos size srcHash ⟨[], some (ret, buffer, "")⟩

variable {attempt : Attempt} {cmd : Command} {target : BlockSet} {pos blockSize : Nat}
  {srcHash : String}

theorem writeDataToStore_stashes {buffer : Bytes} {size : Nat}
    (whole : buffer.length = size % sizeMax) :
    ∃ effects ret, attempt.writeDataToStore srcHash buffer (size % sizeMax) =
        ⟨effects, some ret⟩ ∧
      effects <+: Effect.stash srcHash buffer ∧ (ret = 0 → effects ≠ []) := by
  rw [writeDataToStore, Setting.writeDataToStore_eq whole, Traced.ofOption_some_bind]
  generalize (if size % 2 ^ 32 < 2 ^ 31 then attempt.stored else -1) = ret
  dsimp only
  rw [Traced.emit_bind]
  refine ⟨_, ret, congrArg₂ Traced.mk (List.append_nil _) rfl, ?_, ?_⟩
  · have begun : Effect.stash srcHash (if size % sizeMax % 2 ^ 32 ≥ 2 ^ 31 then []
        else slice buffer 0 (size % sizeMax % 2 ^ 32)) <+: Effect.stash srcHash buffer := by
      refine Effect.stash_prefix ?_
      split
      · exact List.nil_prefix
      · exact List.take_prefix _ _
    split
    · exact begun
    · exact (List.take_prefix _ _).trans begun
  · intro zero
    rw [if_pos zero]
    exact List.cons_ne_nil _ _

section Kept

variable (kept : ∀ piece ∈ (attempt.gathering cmd pos (blockSize * hBlockSize % sizeMax)).pieces,
  piece.Kept (blockSize * hBlockSize % sizeMax))

include kept

/-- A source that cannot be loaded. -/
theorem loadTargetBuffer_unread
    (unread : (attempt.gathering cmd pos (blockSize * hBlockSize % sizeMax)).loads = false) :
    ∃ ret buffer, ret ≠ 0 ∧ attempt.loadTargetBuffer cmd target
      (List.replicate (blockSize * hBlockSize % sizeMax) 0) blockSize pos srcHash =
        ⟨[], some (ret, buffer, "")⟩ := by
  rw [loadTargetBuffer]
  cases run : attempt.loadSourceBuffer cmd target pos
      (List.replicate (blockSize * hBlockSize % sizeMax) 0) with
  | none => exact absurd run (Setting.loadSourceBuffer_ne_none_iff.mpr kept)
  | some source =>
      obtain ⟨ret, isOverlap, buffer⟩ := source
      obtain ⟨-, -, holds⟩ := Setting.loadSourceBuffer_holds run
      rw [unread] at holds
      dsimp only at holds
      rw [Traced.ofOption_some_bind]
      dsimp only
      rw [if_pos (by omega)]
      exact ⟨ret, buffer, by omega, rfl⟩

/-- A source that is loaded is verified, and stashed or looked for in the store. -/
theorem loadTargetBuffer_eq (canWrite : attempt.canWrite = true)
    (notStream : cmd.isStreamCmd = false)
    (loads : (attempt.gathering cmd pos (blockSize * hBlockSize % sizeMax)).loads = true)
    {source : Bytes}
    (assembled : (attempt.gathering cmd pos (blockSize * hBlockSize % sizeMax)).assembled.read 0
      (blockSize * hBlockSize % sizeMax) = source) :
    attempt.loadTargetBuffer cmd target (List.replicate (blockSize * hBlockSize % sizeMax) 0)
        blockSize pos srcHash =
      if attempt.sha256Hex source = srcHash then
        if Setting.overlaps cmd target pos && (attempt.store srcHash).isNone then do
          let ret ← attempt.writeDataToStore srcHash source (blockSize * hBlockSize % sizeMax)
          pure (if ret ≠ 0 then -1 else 0, source, srcHash)
        else pure (0, source, "")
      else
        pure (if (attempt.loadDataFromStore srcHash source).1 = 0 then 0 else -1,
          (attempt.loadDataFromStore srcHash source).2, "") := by
  rw [loadTargetBuffer]
  cases run : attempt.loadSourceBuffer cmd target pos
      (List.replicate (blockSize * hBlockSize % sizeMax) 0) with
  | none => exact absurd run (Setting.loadSourceBuffer_ne_none_iff.mpr kept)
  | some result =>
      obtain ⟨ret, isOverlap, buffer⟩ := result
      obtain ⟨length, overlap, holds⟩ := Setting.loadSourceBuffer_holds run
      dsimp only at length overlap holds
      rw [loads] at holds
      obtain ⟨returned, holds⟩ := holds
      have read := holds.read_zero
      rw [length, assembled] at read
      rw [Traced.ofOption_some_bind]
      dsimp only
      rw [if_neg (not_not_intro returned), notStream, if_neg Bool.false_ne_true,
        Setting.verifySha256_eq length, Traced.ofOption_some_bind,
        if_neg fun both => Bool.false_ne_true (both.2.symm.trans canWrite), overlap, ← read]
      by_cases verified : attempt.sha256Hex source = srcHash
      · rw [if_pos verified, if_pos rfl, if_pos verified]
      · rw [if_neg verified, if_neg (by decide : ¬(-1 : Int) = 0), if_neg verified]

theorem loadTargetBuffer_loads (canWrite : attempt.canWrite = true)
    (notStream : cmd.isStreamCmd = false) :
    Loads attempt cmd target pos (blockSize * hBlockSize % sizeMax) srcHash
      (attempt.loadTargetBuffer cmd target (List.replicate (blockSize * hBlockSize % sizeMax) 0)
        blockSize pos srcHash) := by
  cases loads : (attempt.gathering cmd pos (blockSize * hBlockSize % sizeMax)).loads with
  | false =>
      obtain ⟨ret, buffer, failed, run⟩ :=
        @loadTargetBuffer_unread attempt cmd target pos blockSize srcHash kept loads
      rw [run]
      exact .unread ret buffer failed
  | true =>
      have length : ((attempt.gathering cmd pos (blockSize * hBlockSize % sizeMax)).assembled.read 0
          (blockSize * hBlockSize % sizeMax)).length = blockSize * hBlockSize % sizeMax :=
        Memory.length_read _ _ _
      rw [loadTargetBuffer_eq kept canWrite notStream loads rfl]
      split
      · rename_i verified
        split
        · rename_i stashes
          obtain ⟨effects, ret, stashed, begun, some_⟩ :=
            @writeDataToStore_stashes attempt srcHash _ (blockSize * hBlockSize) length
          obtain ⟨overlapping, isNone⟩ := Bool.and_eq_true_iff.mp stashes
          have absent := Option.isNone_iff_eq_none.mp isNone
          rw [stashed, Traced.some_bind]
          have made := @Loads.stashed attempt cmd target pos _ srcHash effects
            (if ret ≠ 0 then -1 else 0) loads verified overlapping absent begun
            fun zero => some_ (Setting.result_eq_zero_iff.mp zero)
          rw [← List.append_nil effects] at made
          exact made
        · rename_i stashes
          refine .verified loads verified fun overlapping absent => stashes ?_
          exact Bool.and_eq_true_iff.mpr ⟨overlapping, Option.isNone_iff_eq_none.mpr absent⟩
      · rename_i differs
        refine .lost _ _ loads differs fun zero => ?_
        obtain ⟨file, found, whole, opens, -⟩ := Setting.loaded_eq_zero_iff.mp zero
        exact ⟨file, found, whole, Setting.loadDataFromStore_content found whole opens⟩

end Kept

end Loading

section Writing

variable {attempt : Attempt}

/-- The loop of `WriteDataToBlock` puts a part of the data to the places, and all of it where it
returns something. -/
theorem writeLoop_writes {buffer : Bytes} {blocks : BlockSet} {pos : Nat}
    (onDevice : BlockSet.OnDevice blocks attempt.offset)
    (room : buffer.length = pos + (blocks.places attempt.offset).length)
    (fits : buffer.length < sizeMax) :
    ∃ count written, attempt.writeLoop buffer blocks pos =
        ⟨(Effect.writes (blocks.places attempt.offset) (buffer.drop pos)).take count,
          some written⟩ ∧
      (written ≠ 0 → (blocks.places attempt.offset).length ≤ count) := by
  induction blocks generalizing pos with
  | nil => exact ⟨0, _, rfl, fun _ => Nat.le_refl 0⟩
  | cons pair blocks ih =>
      have split : BlockSet.places attempt.offset (pair :: blocks) =
          List.range' (pair.1 * hBlockSize + attempt.offset) (BlockPair.size pair) ++
            BlockSet.places attempt.offset blocks := rfl
      rw [writeLoop]
      by_cases fails : seekFails (BlockPair.start attempt.offset pair) = true
      · rw [if_pos fails]
        exact ⟨0, 0, rfl, fun some_ => absurd rfl some_⟩
      · rw [split, List.length_append, List.length_range'] at room
        have inside : pos + BlockPair.size pair ≤ buffer.length := by omega
        have length := length_slice inside
        have here : (List.range' (pair.1 * hBlockSize + attempt.offset)
            (BlockPair.size pair)).length =
              (slice buffer pos (BlockPair.size pair)).length := by
          rw [List.length_range', length]
        have rest : buffer.drop pos =
            slice buffer pos (BlockPair.size pair) ++ buffer.drop (pos + BlockPair.size pair) := by
          rw [slice, ← List.drop_drop, List.take_append_drop]
        have count := Effect.length_writes here.symm
        rw [List.length_range'] at count
        rw [if_neg fails, checkedSlice, if_pos inside, Traced.ofOption_some_bind,
          onDevice.start_eq (.head _), split, rest, Effect.writes_append here]
        by_cases broken : attempt.writeFails pair = true
        · rw [if_pos broken]
          refine ⟨min attempt.targetWritten (BlockPair.size pair), 0, ?_,
            fun some_ => absurd rfl some_⟩
          rw [List.take_append_of_le_length (by rw [count]; exact Nat.min_le_right _ _),
            ← List.take_take, List.take_of_length_le (Nat.le_of_eq count)]
          exact congrArg₂ Traced.mk (List.append_nil _) rfl
        · obtain ⟨further, written, run, all⟩ := @ih (pos + BlockPair.size pair) onDevice.tail
            (by omega)
          rw [if_neg broken, Nat.mod_eq_of_lt (Nat.lt_of_le_of_lt inside fits), run,
            Traced.emit_bind]
          refine ⟨BlockPair.size pair + further, written, ?_, fun some_ => ?_⟩
          · have whole : (Effect.writes (List.range' (pair.1 * hBlockSize + attempt.offset)
                (BlockPair.size pair)) (slice buffer pos (BlockPair.size pair))).length ≤
                  BlockPair.size pair + further := by
              rw [count]
              exact Nat.le_add_right _ _
            rw [List.take_append, List.take_of_length_le whole, count, Nat.add_sub_cancel_left]
          · rw [List.length_append, List.length_range']
            exact Nat.add_le_add_left (all some_) _

end Writing

/-- The effects of a call up to where it is stopped. -/
def effects (cmd : Command) : List Effect :=
  match attempt.crash with
  | none => (attempt.execute cmd).events
  | some count => (attempt.execute cmd).events.take count

/-- The disk after a call. -/
def after (cmd : Command) (disk : Disk) : Disk :=
  disk.performAll (attempt.effects cmd)

/-- A call that is not stopped returns success. -/
def Succeeds (cmd : Command) : Prop :=
  attempt.crash = none ∧ (attempt.execute cmd).result = some .success

end Attempt

end Updater.ApplyPatch
