import Updater.PtableParse.UfsPtable

/-! The tables as they are written to the luns: the primary ones by their place in the list, the
backups behind them by the number of the lun. -/

set_option autoImplicit false

namespace Updater.PtableParse

open Updater.Base

/-- The writes to a lun. -/
inductive TablePart where
  | primary
  | backupHeader
  | backupEntries
  deriving DecidableEq

/-- The writes that fail, by lun. -/
abbrev Refused : Type := Nat → TablePart → Bool

/-- The number of bytes that reach a lun of a write that fails. -/
abbrev Reached : Type := Nat → TablePart → Nat

/-- `WriteBufferToPath`. -/
def writeBufferToPath (refused : Bool) (reached : Nat) (device : Memory) (offset : Nat)
    (buffer : Bytes) : Memory × Bool :=
  if buffer = [] then (device, false)
  else if refused then (device.write offset (buffer.take reached), false)
  else (device.write offset buffer, true)

namespace UfsPtable

variable (ptable : UfsPtable)

/-- Where the backup of a lun begins, with its entries. -/
def backupEntryOffset (lunSize : Nat) : Nat :=
  lunSize - gptPtableBackupSize * ptable.ptableData.blockSize

/-- Where the header of the backup is. -/
def backupHeaderStart (lunSize : Nat) : Nat :=
  lunSize - ptable.ptableData.blockSize

/-- `WriteBackupPartitionTable`, as far as it changes the lun. -/
def writeBackupPartitionTable (refused : Refused) (reached : Reached)
    (infos : List UfsPartitionDataInfo) (lunIdx lunSize : Nat) (device : Memory) : Memory :=
  let deviceBlockSize := ptable.ptableData.blockSize
  match infos[lunIdx]? with
  | none => device
  | some info =>
      if lunSize = 0 ∨ lunSize ≤ gptPtableBackupSize * deviceBlockSize ∨ deviceBlockSize = 0 then
        device
      else
        let entryOffset := ptable.backupEntryOffset lunSize
        let backUpHeader := patchBackUpGptHeader (info.data.behind deviceBlockSize) deviceBlockSize
          (entryOffset / deviceBlockSize)
        match writeBufferToPath (refused lunIdx .backupHeader) (reached lunIdx .backupHeader) device
            (ptable.backupHeaderStart lunSize) (backUpHeader.read 0 deviceBlockSize) with
        | (device, false) => device
        | (device, true) =>
            (writeBufferToPath (refused lunIdx .backupEntries) (reached lunIdx .backupEntries) device
              entryOffset (info.data.read (2 * deviceBlockSize)
                ((gptPtableBackupSize - 1) * deviceBlockSize))).1

/-- The tables of an information in the list, written to its lun. -/
def writeLun (refused : Refused) (reached : Reached) (infos : List UfsPartitionDataInfo)
    (info : UfsPartitionDataInfo) (device : Memory) : Memory × Bool :=
  match writeBufferToPath (refused info.lunIndex .primary) (reached info.lunIndex .primary) device
      (ptable.lunOffset info.lunIndex) (info.data.read 0 info.writeDataLen) with
  | (device, false) => (device, false)
  | (device, true) =>
      if ptable.hasBackupPtable then
        (ptable.writeBackupPartitionTable refused reached infos info.lunIndex
          (ptable.capacity info.lunIndex) device, true)
      else (device, true)

/-- The loop of `WritePartitionTable`. -/
def writeLuns (refused : Refused) (reached : Reached) (infos : List UfsPartitionDataInfo) :
    List UfsPartitionDataInfo → (Nat → Memory) → (Nat → Memory) × Bool
  | [], devices => (devices, true)
  | info :: rest, devices =>
      if maxLunNumbers ≤ info.lunIndex then (devices, false)
      else if info.needWrite = false ∧ ptable.lunOffset info.lunIndex = 0 then
        writeLuns refused reached infos rest devices
      else if info.isGptValid = false then writeLuns refused reached infos rest devices
      else
        match ptable.writeLun refused reached infos info (devices info.lunIndex) with
        | (device, false) => (Function.update devices info.lunIndex device, false)
        | (device, true) =>
            writeLuns refused reached infos rest (Function.update devices info.lunIndex device)

/-- `WritePartitionTable`. -/
def writePartitionTable (refused : Refused) (reached : Reached)
    (infos : List UfsPartitionDataInfo) (devices : Nat → Memory) : (Nat → Memory) × Bool :=
  if infos = [] then (devices, false)
  else ptable.writeLuns refused reached infos infos devices

/-- The lists that the two functions fill. -/
inductive Built : List UfsPartitionDataInfo → Prop where
  | parsed {ptbImgBuffer : Memory} {imgBufSize : Nat} {stale : Nat → UfsPartitionDataInfo}
      {partitionInfo : List PtnInfo} {tables : Tables} {accepted : Bool} :
      ptable.parsePartitionFromBuffer ptbImgBuffer imgBufSize stale ⟨[], partitionInfo⟩ =
        some (tables, accepted) →
      Built tables.ufsPtnDataInfo
  | loaded {stale : Nat → UfsPartitionDataInfo} {partitionInfo : List PtnInfo} :
      Built (ptable.loadAllLunPartitions stale ⟨[], partitionInfo⟩).ufsPtnDataInfo

/-- The informations whose tables `WritePartitionTable` writes. -/
def Written (info : UfsPartitionDataInfo) : Prop :=
  info.isGptValid = true ∧ (info.needWrite = true ∨ ptable.lunOffset info.lunIndex ≠ 0)

/-- The checksum that a header carries is the one of the bytes it counts itself. -/
def HeaderCrcValidates (header : Memory) (blockSize : Nat) : Prop :=
  gptHeaderSize ≤ getLword header headerSizeOffset ∧
    getLword header headerSizeOffset ≤ blockSize ∧
    calculateCrc32 ((putLong header headerCrcOffset 0).read 0 (getLword header headerSizeOffset)) =
      getLword header headerCrcOffset

/-- No block of the usable range of a header lies between two offsets. -/
def UsableApart (header : Memory) (blockSize start stop : Nat) : Prop :=
  ∀ lba, getLlword header firstUsableLbaOffset ≤ lba → lba ≤ getLlword header lastUsableLbaOffset →
    (lba + 1) * blockSize ≤ start ∨ stop ≤ lba * blockSize

/-- The lun of an information carries the primary table, and the backup that belongs to it in its
last blocks. -/
structure BackupAgrees (info : UfsPartitionDataInfo) (device : Memory) : Prop where
  room : gptPtableBackupSize * ptable.ptableData.blockSize < ptable.capacity info.lunIndex
  apart : ptable.lunOffset info.lunIndex + info.writeDataLen ≤
    ptable.backupEntryOffset (ptable.capacity info.lunIndex)
  primary : device.read (ptable.lunOffset info.lunIndex) info.writeDataLen =
    info.data.read 0 info.writeDataLen
  entries : device.read (ptable.backupEntryOffset (ptable.capacity info.lunIndex)) gptEntrysSize =
    info.data.read (2 * ptable.ptableData.blockSize) gptEntrysSize
  current : getLlword device
      (ptable.backupHeaderStart (ptable.capacity info.lunIndex) + gptHeaderOffset) =
    getLlword info.data (ptable.ptableData.blockSize + backupHeaderOffset)
  alternate : getLlword device
      (ptable.backupHeaderStart (ptable.capacity info.lunIndex) + backupHeaderOffset) =
    getLlword info.data (ptable.ptableData.blockSize + gptHeaderOffset)
  crc : HeaderCrcValidates
    (device.behind (ptable.backupHeaderStart (ptable.capacity info.lunIndex)))
    ptable.ptableData.blockSize
  usable : UsableApart (info.data.behind ptable.ptableData.blockSize) ptable.ptableData.blockSize
    (ptable.backupEntryOffset (ptable.capacity info.lunIndex)) (ptable.capacity info.lunIndex)

/-- The header as `PatchBackUpGptHeader` leaves it, before its checksum. -/
def exchangedHeader (header : Memory) (entryStart : Nat) : Memory :=
  putLong
    (putLongLong
      (putLongLong (putLongLong header gptHeaderOffset (getLlword header backupHeaderOffset))
        backupHeaderOffset (getLlword header gptHeaderOffset))
      partitionEntriesOffset entryStart)
    headerCrcOffset 0

/-- The header counts its bytes within a block, and they have the checksum of the first ones that
`PatchBackUpGptHeader` takes. -/
def ChecksumCovers (header : Memory) (blockSize entryStart : Nat) : Prop :=
  gptHeaderSize ≤ getLword header headerSizeOffset ∧
    getLword header headerSizeOffset ≤ blockSize ∧
    calculateCrc32 ((exchangedHeader header entryStart).read 0 (getLword header headerSizeOffset)) =
      calculateCrc32 ((exchangedHeader header entryStart).read 0 gptCrcLen)

/-- The information at a place of the list has the entries and the LBAs of another one. -/
structure SameTable (info other : UfsPartitionDataInfo) : Prop where
  entries : other.data.read (2 * ptable.ptableData.blockSize) gptEntrysSize =
    info.data.read (2 * ptable.ptableData.blockSize) gptEntrysSize
  current : getLlword other.data (ptable.ptableData.blockSize + gptHeaderOffset) =
    getLlword info.data (ptable.ptableData.blockSize + gptHeaderOffset)
  alternate : getLlword other.data (ptable.ptableData.blockSize + backupHeaderOffset) =
    getLlword info.data (ptable.ptableData.blockSize + backupHeaderOffset)

/-- What the backup of a lun needs: a lun with room for it behind the primary table and the usable
blocks, writes that do not fail, and the same table at the place in the list that has the number of
the lun, with a header of the length that the checksum is taken over. -/
structure BackupCondition (refused : Refused) (infos : List UfsPartitionDataInfo)
    (info : UfsPartitionDataInfo) : Prop where
  room : gptPtableBackupSize * ptable.ptableData.blockSize < ptable.capacity info.lunIndex
  apart : ptable.lunOffset info.lunIndex + info.writeDataLen ≤
    ptable.backupEntryOffset (ptable.capacity info.lunIndex)
  usable : UsableApart (info.data.behind ptable.ptableData.blockSize) ptable.ptableData.blockSize
    (ptable.backupEntryOffset (ptable.capacity info.lunIndex)) (ptable.capacity info.lunIndex)
  header : refused info.lunIndex .backupHeader = false
  entries : refused info.lunIndex .backupEntries = false
  listed : ∃ other, infos[info.lunIndex]? = some other ∧ ptable.SameTable info other ∧
    ChecksumCovers (other.data.behind ptable.ptableData.blockSize) ptable.ptableData.blockSize
      (ptable.backupEntryOffset (ptable.capacity info.lunIndex) / ptable.ptableData.blockSize)

section Headers

variable {header : Memory} {blockSize entryStart : Nat}

theorem patchBackUpGptHeader_eq (long : partitionEntriesOffset + 8 ≤ blockSize) :
    patchBackUpGptHeader header blockSize entryStart =
      putLong (exchangedHeader header entryStart) headerCrcOffset
        (calculateCrc32 ((exchangedHeader header entryStart).read 0 gptCrcLen)) := by
  have fits : ¬(partitionEntriesOffset + 8 > blockSize ∨ headerCrcOffset + 4 > blockSize) := by
    simp only [partitionEntriesOffset, headerCrcOffset] at long ⊢
    omega
  rw [patchBackUpGptHeader, if_neg fits]
  rfl

theorem getLword_exchangedHeader :
    getLword (exchangedHeader header entryStart) headerSizeOffset =
      getLword header headerSizeOffset := by
  rw [exchangedHeader, getLword_putLong_apart _ (by decide),
    getLword_putLongLong_apart _ (by decide), getLword_putLongLong_apart _ (by decide),
    getLword_putLongLong_apart _ (by decide)]

/-- The backup's header has the LBAs of the header, exchanged. -/
theorem patchBackUpGptHeader_current (long : partitionEntriesOffset + 8 ≤ blockSize) :
    getLlword (patchBackUpGptHeader header blockSize entryStart) gptHeaderOffset =
      getLlword header backupHeaderOffset := by
  rw [patchBackUpGptHeader_eq long, exchangedHeader, putLong_putLong,
    getLlword_putLong_apart _ (by decide), getLlword_putLongLong_apart _ (by decide),
    getLlword_putLongLong_apart _ (by decide), getLlword_putLongLong _ (getLlword_lt header _)]

theorem patchBackUpGptHeader_alternate (long : partitionEntriesOffset + 8 ≤ blockSize) :
    getLlword (patchBackUpGptHeader header blockSize entryStart) backupHeaderOffset =
      getLlword header gptHeaderOffset := by
  rw [patchBackUpGptHeader_eq long, exchangedHeader, putLong_putLong,
    getLlword_putLong_apart _ (by decide), getLlword_putLongLong_apart _ (by decide),
    getLlword_putLongLong _ (getLlword_lt header _)]

theorem patchBackUpGptHeader_validates (long : partitionEntriesOffset + 8 ≤ blockSize) :
    HeaderCrcValidates (patchBackUpGptHeader header blockSize entryStart) blockSize ↔
      ChecksumCovers header blockSize entryStart := by
  have size : getLword (patchBackUpGptHeader header blockSize entryStart) headerSizeOffset =
      getLword header headerSizeOffset := by
    rw [patchBackUpGptHeader_eq long, getLword_putLong_apart _ (by decide),
      getLword_exchangedHeader]
  have cleared : putLong (patchBackUpGptHeader header blockSize entryStart) headerCrcOffset 0 =
      exchangedHeader header entryStart := by
    rw [patchBackUpGptHeader_eq long, putLong_putLong, exchangedHeader, putLong_putLong]
  have crc : getLword (patchBackUpGptHeader header blockSize entryStart) headerCrcOffset =
      calculateCrc32 ((exchangedHeader header entryStart).read 0 gptCrcLen) := by
    rw [patchBackUpGptHeader_eq long, getLword_putLong _ (calculateCrc32_lt _)]
  rw [HeaderCrcValidates, ChecksumCovers, size, cleared, crc]

/-- Whether the checksum of a header validates depends on the bytes of its block. -/
theorem headerCrcValidates_congr {other : Memory} (long : gptHeaderSize ≤ blockSize)
    (same : ∀ i < blockSize, header i = other i) :
    HeaderCrcValidates header blockSize ↔ HeaderCrcValidates other blockSize := by
  have field : ∀ at_, at_ + 4 ≤ gptHeaderSize → getLword header at_ = getLword other at_ :=
    fun at_ within => congrArg leValue
      (header.read_congr fun i inside => same (at_ + i) (by omega))
  have cleared : ∀ length ≤ blockSize,
      (putLong header headerCrcOffset 0).read 0 length =
        (putLong other headerCrcOffset 0).read 0 length := by
    intro length within
    refine Memory.read_congr _ fun i inside => ?_
    rw [putLong, putLong, Memory.write, Memory.write, same (0 + i) (by omega)]
  rw [HeaderCrcValidates, HeaderCrcValidates, field headerSizeOffset (by decide),
    field headerCrcOffset (by decide)]
  constructor
  · rintro ⟨least, most, crc⟩
    exact ⟨least, most, cleared _ most ▸ crc⟩
  · rintro ⟨least, most, crc⟩
    exact ⟨least, most, (cleared _ most).symm ▸ crc⟩

end Headers

section Luns

variable {ptable} {refused : Refused} {reached : Reached} {infos : List UfsPartitionDataInfo}
  {info other : UfsPartitionDataInfo} {device : Memory} {lunIdx lunSize : Nat}

theorem writeBufferToPath_written {offset : Nat} {buffer : Bytes} (some_ : buffer ≠ []) {count : Nat} :
    writeBufferToPath false count device offset buffer = (device.write offset buffer, true) := by
  rw [writeBufferToPath, if_neg some_]
  rfl

theorem writeBufferToPath_refused {offset : Nat} {buffer : Bytes} {count : Nat} :
    (writeBufferToPath true count device offset buffer).2 = false := by
  rw [writeBufferToPath]
  split
  · rfl
  · rfl

/-- Of a write that fails before its first byte nothing is left. -/
theorem writeBufferToPath_unreached {offset : Nat} {buffer : Bytes} :
    writeBufferToPath true 0 device offset buffer = (device, false) := by
  rw [writeBufferToPath]
  split
  · rfl
  · rw [if_pos rfl, List.take_zero, Memory.write_nil]

/-- The bytes of the backup's header. -/
def backupHeaderBytes (ptable : UfsPtable) (other : UfsPartitionDataInfo) (lunSize : Nat) : Bytes :=
  (patchBackUpGptHeader (other.data.behind ptable.ptableData.blockSize) ptable.ptableData.blockSize
    (ptable.backupEntryOffset lunSize / ptable.ptableData.blockSize)).read 0
    ptable.ptableData.blockSize

/-- The bytes behind the header in the buffer of a lun, as many as there are blocks before the
backup's header. -/
def backupEntryBytes (ptable : UfsPtable) (other : UfsPartitionDataInfo) : Bytes :=
  other.data.read (2 * ptable.ptableData.blockSize)
    ((gptPtableBackupSize - 1) * ptable.ptableData.blockSize)

@[simp] theorem length_backupHeaderBytes :
    (ptable.backupHeaderBytes other lunSize).length = ptable.ptableData.blockSize :=
  Memory.length_read _ _ _

@[simp] theorem length_backupEntryBytes :
    (ptable.backupEntryBytes other).length =
      (gptPtableBackupSize - 1) * ptable.ptableData.blockSize :=
  Memory.length_read _ _ _

theorem writeBackupPartitionTable_absent (absent : infos[lunIdx]? = none) :
    ptable.writeBackupPartitionTable refused reached infos lunIdx lunSize device = device := by
  rw [writeBackupPartitionTable, absent]

/-- The two writes of a backup for which there is room. -/
theorem writeBackupPartitionTable_listed (listed : infos[lunIdx]? = some other)
    (room : gptPtableBackupSize * ptable.ptableData.blockSize < lunSize)
    (blocks : 0 < ptable.ptableData.blockSize) :
    ptable.writeBackupPartitionTable refused reached infos lunIdx lunSize device =
      match writeBufferToPath (refused lunIdx .backupHeader) (reached lunIdx .backupHeader) device
          (ptable.backupHeaderStart lunSize) (ptable.backupHeaderBytes other lunSize) with
      | (device, false) => device
      | (device, true) =>
          (writeBufferToPath (refused lunIdx .backupEntries) (reached lunIdx .backupEntries) device
            (ptable.backupEntryOffset lunSize) (ptable.backupEntryBytes other)).1 := by
  have fits : ¬(lunSize = 0 ∨ lunSize ≤ gptPtableBackupSize * ptable.ptableData.blockSize ∨
      ptable.ptableData.blockSize = 0) := by
    omega
  rw [writeBackupPartitionTable, listed]
  dsimp only
  rw [if_neg fits]
  rfl

theorem writeBackupPartitionTable_written (listed : infos[lunIdx]? = some other)
    (room : gptPtableBackupSize * ptable.ptableData.blockSize < lunSize)
    (blocks : 0 < ptable.ptableData.blockSize)
    (header : refused lunIdx .backupHeader = false)
    (entries : refused lunIdx .backupEntries = false) :
    ptable.writeBackupPartitionTable refused reached infos lunIdx lunSize device =
      (device.write (ptable.backupHeaderStart lunSize)
        (ptable.backupHeaderBytes other lunSize)).write (ptable.backupEntryOffset lunSize)
        (ptable.backupEntryBytes other) := by
  have some_ : ptable.backupHeaderBytes other lunSize ≠ [] :=
    List.ne_nil_of_length_pos (by rwa [length_backupHeaderBytes])
  have entries_ : ptable.backupEntryBytes other ≠ [] := by
    refine List.ne_nil_of_length_pos ?_
    rw [length_backupEntryBytes]
    exact Nat.mul_pos (by decide) blocks
  rw [writeBackupPartitionTable_listed listed room blocks, header,
    writeBufferToPath_written some_]
  dsimp only
  rw [entries, writeBufferToPath_written entries_]

theorem writeBackupPartitionTable_headerRefused (listed : infos[lunIdx]? = some other)
    (room : gptPtableBackupSize * ptable.ptableData.blockSize < lunSize)
    (blocks : 0 < ptable.ptableData.blockSize)
    (header : refused lunIdx .backupHeader = true) :
    ptable.writeBackupPartitionTable refused (fun _ _ => 0) infos lunIdx lunSize device =
      device := by
  rw [writeBackupPartitionTable_listed listed room blocks, header, writeBufferToPath_unreached]

theorem writeBackupPartitionTable_entriesRefused (listed : infos[lunIdx]? = some other)
    (room : gptPtableBackupSize * ptable.ptableData.blockSize < lunSize)
    (blocks : 0 < ptable.ptableData.blockSize)
    (header : refused lunIdx .backupHeader = false)
    (entries : refused lunIdx .backupEntries = true) :
    ptable.writeBackupPartitionTable refused (fun _ _ => 0) infos lunIdx lunSize device =
      device.write (ptable.backupHeaderStart lunSize)
        (ptable.backupHeaderBytes other lunSize) := by
  have some_ : ptable.backupHeaderBytes other lunSize ≠ [] :=
    List.ne_nil_of_length_pos (by rwa [length_backupHeaderBytes])
  rw [writeBackupPartitionTable_listed listed room blocks, header,
    writeBufferToPath_written some_]
  dsimp only
  rw [entries, writeBufferToPath_unreached]

/-- The lun behind both writes of its backup. -/
def withBackup (ptable : UfsPtable) (other : UfsPartitionDataInfo) (lunSize : Nat)
    (device : Memory) : Memory :=
  (device.write (ptable.backupHeaderStart lunSize)
    (ptable.backupHeaderBytes other lunSize)).write (ptable.backupEntryOffset lunSize)
    (ptable.backupEntryBytes other)

section Offsets

variable (room : gptPtableBackupSize * ptable.ptableData.blockSize < lunSize)

include room

theorem backupEntries_before_header :
    ptable.backupEntryOffset lunSize +
      (gptPtableBackupSize - 1) * ptable.ptableData.blockSize = ptable.backupHeaderStart lunSize := by
  simp only [backupEntryOffset, backupHeaderStart, gptPtableBackupSize] at room ⊢
  omega

theorem withBackup_header {i : Nat} (within : i < ptable.ptableData.blockSize) :
    ptable.withBackup other lunSize device (ptable.backupHeaderStart lunSize + i) =
      patchBackUpGptHeader (other.data.behind ptable.ptableData.blockSize)
        ptable.ptableData.blockSize
        (ptable.backupEntryOffset lunSize / ptable.ptableData.blockSize) i := by
  have behind : ptable.backupEntryOffset lunSize + (ptable.backupEntryBytes other).length ≤
      ptable.backupHeaderStart lunSize + i := by
    rw [length_backupEntryBytes, backupEntries_before_header room]
    exact Nat.le_add_right _ i
  rw [withBackup, Memory.write_of_ge _ behind, backupHeaderBytes,
    Memory.write_read_within _ _ within, Nat.zero_add]

omit room in
theorem withBackup_entries {count : Nat}
    (within : count ≤ (gptPtableBackupSize - 1) * ptable.ptableData.blockSize) :
    (ptable.withBackup other lunSize device).read (ptable.backupEntryOffset lunSize) count =
      other.data.read (2 * ptable.ptableData.blockSize) count :=
  Memory.read_congr _ fun _ inside =>
    Memory.write_read_within _ _ (Nat.lt_of_lt_of_le inside within)

theorem withBackup_before {start count : Nat}
    (before : start + count ≤ ptable.backupEntryOffset lunSize) :
    (ptable.withBackup other lunSize device).read start count = device.read start count := by
  have ordered := backupEntries_before_header room
  rw [withBackup, Memory.read_write_disjoint _ (.inl before),
    Memory.read_write_disjoint _ (.inl (by omega))]

theorem getLlword_withBackup {at_ : Nat} (within : at_ + 8 ≤ ptable.ptableData.blockSize) :
    getLlword (ptable.withBackup other lunSize device) (ptable.backupHeaderStart lunSize + at_) =
      getLlword (patchBackUpGptHeader (other.data.behind ptable.ptableData.blockSize)
        ptable.ptableData.blockSize
        (ptable.backupEntryOffset lunSize / ptable.ptableData.blockSize)) at_ := by
  refine congrArg leValue (Memory.read_congr _ fun i inside => ?_)
  rw [Nat.add_assoc]
  exact withBackup_header room (by omega)

end Offsets

/-- A lun that has both writes of the backup carries the backup of an information when they come
from the same table, with a checksum over its whole header, and lie apart from what the primary
table uses. -/
theorem backupAgrees_withBackup (blocks : 512 ≤ ptable.ptableData.blockSize)
    (room : gptPtableBackupSize * ptable.ptableData.blockSize < ptable.capacity info.lunIndex) :
    ptable.BackupAgrees info (ptable.withBackup other (ptable.capacity info.lunIndex)
        (device.write (ptable.lunOffset info.lunIndex) (info.data.read 0 info.writeDataLen))) ↔
      (ptable.lunOffset info.lunIndex + info.writeDataLen ≤
          ptable.backupEntryOffset (ptable.capacity info.lunIndex) ∧
        UsableApart (info.data.behind ptable.ptableData.blockSize) ptable.ptableData.blockSize
          (ptable.backupEntryOffset (ptable.capacity info.lunIndex))
          (ptable.capacity info.lunIndex) ∧
        ptable.SameTable info other ∧
        ChecksumCovers (other.data.behind ptable.ptableData.blockSize) ptable.ptableData.blockSize
          (ptable.backupEntryOffset (ptable.capacity info.lunIndex) /
            ptable.ptableData.blockSize)) := by
  have long : partitionEntriesOffset + 8 ≤ ptable.ptableData.blockSize := by
    simp only [partitionEntriesOffset]
    omega
  have entriesFit : gptEntrysSize ≤ (gptPtableBackupSize - 1) * ptable.ptableData.blockSize := by
    simp only [gptEntrysSize, gptPtableBackupSize]
    omega
  generalize made : device.write (ptable.lunOffset info.lunIndex)
    (info.data.read 0 info.writeDataLen) = lun
  have current : getLlword (ptable.withBackup other (ptable.capacity info.lunIndex) lun)
      (ptable.backupHeaderStart (ptable.capacity info.lunIndex) + gptHeaderOffset) =
      getLlword other.data (ptable.ptableData.blockSize + backupHeaderOffset) := by
    rw [getLlword_withBackup room (by simp only [gptHeaderOffset]; omega),
      patchBackUpGptHeader_current long, getLlword_behind]
  have alternate : getLlword (ptable.withBackup other (ptable.capacity info.lunIndex) lun)
      (ptable.backupHeaderStart (ptable.capacity info.lunIndex) + backupHeaderOffset) =
      getLlword other.data (ptable.ptableData.blockSize + gptHeaderOffset) := by
    rw [getLlword_withBackup room (by simp only [backupHeaderOffset]; omega),
      patchBackUpGptHeader_alternate long, getLlword_behind]
  have entries := @withBackup_entries ptable other lun (ptable.capacity info.lunIndex) _ entriesFit
  have crc : HeaderCrcValidates
      ((ptable.withBackup other (ptable.capacity info.lunIndex) lun).behind
        (ptable.backupHeaderStart (ptable.capacity info.lunIndex))) ptable.ptableData.blockSize ↔
      ChecksumCovers (other.data.behind ptable.ptableData.blockSize) ptable.ptableData.blockSize
        (ptable.backupEntryOffset (ptable.capacity info.lunIndex) / ptable.ptableData.blockSize) :=
    (headerCrcValidates_congr (by simp only [gptHeaderSize]; omega)
      fun _ within => withBackup_header room within).trans (patchBackUpGptHeader_validates long)
  constructor
  · intro agrees
    exact ⟨agrees.apart, agrees.usable,
      ⟨entries.symm.trans agrees.entries, alternate.symm.trans agrees.alternate,
        current.symm.trans agrees.current⟩, crc.mp agrees.crc⟩
  · rintro ⟨apart, usable, same, covers⟩
    refine ⟨room, apart, ?_, entries.trans same.entries, current.trans same.alternate,
      alternate.trans same.current, crc.mpr covers, usable⟩
    have written := device.read_write (ptable.lunOffset info.lunIndex)
      (info.data.read 0 info.writeDataLen)
    rw [Memory.length_read, made] at written
    rw [withBackup_before room apart, written]

end Luns

end UfsPtable

end Updater.PtableParse
