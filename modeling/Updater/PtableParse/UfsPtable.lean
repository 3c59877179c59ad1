import Updater.PtableParse.Gpt

/-! The partition tables of UFS devices, one for each lun: how they are read from an image and from
the devices, and written to the devices. -/

set_option autoImplicit false

namespace Updater.PtableParse

open Updater.Base

def tmpDataSize : Nat := 32 * 1024

def maxLunNumbers : Nat := 26

def ptableMaxLunNumbers : Nat := 32

def gptPtableBackupSize : Nat := 33

def defaultSectorNum : Nat := 4 * 1024 * 1024 * 2 - 1

def imgBlockSize512 : Nat := 512

def deviceBlockSize4096 : Nat := 4096

def defaultEntryOffset : Nat := 2

def slotA : Nat := 1

def slotB : Nat := 2

/-- `PtableData`. With other block sizes the source reads a block behind its end
(`VerifyMbrMagicNum`) or takes the header from behind the buffer of a lun. -/
structure PtableData where
  emmcGptDataLen : Nat
  lbaLen : Nat
  gptHeaderLen : Nat
  blockSize : Nat
  imgLuSize : Nat
  startLunNumber : Nat
  writeDeviceLunSize : Nat
  wholeMbr : blockSize ≠ mbrMagicNumPos + 1
  inBuffer : 2 * blockSize ≤ tmpDataSize

theorem sector_wholeMbr : 512 ≠ mbrMagicNumPos + 1 := by decide

theorem sector_inBuffer : 2 * 512 ≤ tmpDataSize := by decide

/-- `UfsPtable` as it is while tables are read and written, with the answers of the system about
the luns. -/
structure UfsPtable where
  ptableData : PtableData
  hasBackupPtable : Bool
  reservedSize : Nat
  isVabDevice : Bool
  isUpdaterMode : Bool
  lunOffset : Nat → Nat
  updateSlot : Nat
  curSlot : Nat
  nodeExists : Nat → Bool
  removable : Nat → Bool
  /-- `GetDeviceLunCapacity` -/
  capacity : Nat → Nat
  /-- `MemReadWithOffset` of a lun's node: the bytes at the offset, unless the read fails. -/
  memRead : Nat → Nat → Nat → Option Memory

/-- `UfsPartitionDataInfo`; the memory goes on behind the array of the source. -/
structure UfsPartitionDataInfo where
  isGptValid : Bool
  lunIndex : Nat
  lunSize : Nat
  writeDataLen : Nat
  data : Memory
  needWrite : Bool := true

namespace UfsPtable

variable (ptable : UfsPtable)

/-- `SetDeviceLunNum`. -/
def deviceLunNum : Nat :=
  ((List.range maxLunNumbers).takeWhile fun lun =>
    ptable.nodeExists lun && !ptable.removable lun).length

def getPtableExtraOffset : Nat := 0

def getPtableImageUfsLunPmbrStart (lunIndex : Nat) : Nat :=
  (ptable.ptableData.emmcGptDataLen + getPtableExtraOffset +
    lunIndex * ptable.ptableData.imgLuSize) % 2 ^ 32

def getPtableImageUfsLunGptHeaderStart (lunIndex : Nat) : Nat :=
  (ptable.ptableData.emmcGptDataLen + getPtableExtraOffset +
    lunIndex * ptable.ptableData.imgLuSize + ptable.ptableData.lbaLen) % 2 ^ 32

def getPtableImageUfsLunEntryStart (lunIndex : Nat) : Nat :=
  (ptable.ptableData.emmcGptDataLen + getPtableExtraOffset +
    lunIndex * ptable.ptableData.imgLuSize + ptable.ptableData.lbaLen +
    ptable.ptableData.gptHeaderLen) % 2 ^ 32

/-- `MatchSuffix`, `none` where the name is too short for `substr`, which throws. -/
def matchSuffix (suffix : Bytes) (data : Memory) : Option Bool :=
  let dispName := parsePartitionName data
    (2 * ptable.ptableData.blockSize + gptPartitionNameOffset)
  if dispName.length < 2 then none
  else some (decide (dispName.drop (dispName.length - 2) = suffix.map toUpper))

/-- `SetLunPtnDataInfoNeedWrite`. -/
def setLunPtnDataInfoNeedWrite (info : UfsPartitionDataInfo) : Option UfsPartitionDataInfo :=
  if ptable.isVabDevice = false then some { info with needWrite := true }
  else if info.lunIndex < 2 then some { info with needWrite := ptable.isUpdaterMode }
  else if (ptable.updateSlot ≠ slotA ∧ ptable.updateSlot ≠ slotB) ∨
      ptable.curSlot = ptable.updateSlot then
    some { info with needWrite := ptable.isUpdaterMode }
  else if ptable.isUpdaterMode then
    (ptable.matchSuffix (ascii (if ptable.updateSlot = slotA then "_b" else "_a")) info.data).map
      fun found => { info with needWrite := !found }
  else
    (ptable.matchSuffix (ascii (if ptable.updateSlot = slotA then "_a" else "_b")) info.data).map
      fun found => { info with needWrite := found }

/-- The last sector of a lun that `UfsPatchGptHeader` leaves to partitions. -/
def lastUsableSector (cardSizeSector : Nat) : Nat :=
  let last := sub64 cardSizeSector
    (1 + if ptable.hasBackupPtable then gptPtableBackupSize else 0)
  if ptable.reservedSize ≠ 0 ∧ ptable.reservedSize < last then last - ptable.reservedSize else last

/-- The loop of `UfsPatchGptHeader` over the partitions, of the given number at most. -/
def totalPart (data : Memory) (start : Nat) : Nat → Nat → Nat
  | 0, found => found
  | left + 1, found =>
      if data (start + found * partitionEntrySize) ≠ 0 then
        totalPart data start left (found + 1)
      else found

/-- The entry of the last partition, which takes the rest of the lun. -/
def patchLastPartition (data : Memory) (lastPartOffset totalPart lastUsableSector : Nat) : Memory :=
  let lastLba := getLlword data (lastPartOffset + lastLbaOffset)
  let firstLba := getLlword data (lastPartOffset + firstLbaOffset)
  let partitionSize := (sub64 lastLba firstLba + 1) * ptable.ptableData.blockSize % 2 ^ 64
  let partitionName := parsePartitionName data (lastPartOffset + gptPartitionNameOffset)
  if partitionName = userdataPartition ∨ (totalPart = 1 ∧ partitionSize = 0) then
    putLongLong data (lastPartOffset + lastLbaOffset) lastUsableSector
  else data

/-- The checksums of the entries and of the header at an address. -/
def patchCrcs (data : Memory) (header entries : Nat) : Memory :=
  let partCount := getLword data (header + partitionCountOffset)
  let entrySize := getLword data (header + pentrySizeOffset)
  let data := putLong data (header + partitionCrcOffset)
    (calculateCrc32 (data.read entries (partCount * entrySize % 2 ^ 32)))
  let data := putLong data (header + headerCrcOffset) 0
  putLong data (header + headerCrcOffset) (calculateCrc32 (data.read header gptCrcLen))

/-- `UfsPatchGptHeader`. -/
def ufsPatchGptHeader (info : UfsPartitionDataInfo) (blockSize : Nat) : UfsPartitionDataInfo :=
  if blockSize = 0 ∨ info.writeDataLen < 2 * blockSize ∨ info.lunSize = 0 ∨
      ptable.ptableData.blockSize = 0 then info
  else
    let sectors := info.lunSize / ptable.ptableData.blockSize
    let cardSizeSector := if sectors = 0 then defaultSectorNum else sectors
    let lastUsable := ptable.lastUsableSector cardSizeSector
    let data := putLongLong info.data (blockSize + backupHeaderOffset) (sub64 cardSizeSector 1)
    let data := putLongLong data (blockSize + lastUsableLbaOffset) lastUsable
    let total := totalPart data (2 * blockSize)
      ((tmpDataSize - 2 * blockSize + partitionEntrySize - 1) / partitionEntrySize) 0
    if total = 0 then { info with data := data }
    else
      let lastPartOffset := 2 * blockSize + (total - 1) * partitionEntrySize
      let data := ptable.patchLastPartition data lastPartOffset total lastUsable
      { info with data := patchCrcs data blockSize (2 * blockSize) }

/-- `AddUfsPtnDataInfo`, as far as it fills the information of the lun. -/
def addUfsPtnDataInfo (info : UfsPartitionDataInfo) (deviceBlockSize lunIndex : Nat) :
    Option UfsPartitionDataInfo :=
  let lun := (lunIndex + ptable.ptableData.startLunNumber) % 2 ^ 32
  let info := { info with
    writeDataLen := ptable.ptableData.writeDeviceLunSize
    lunIndex := lun
    lunSize := ptable.capacity lun }
  ptable.setLunPtnDataInfoNeedWrite
    { ptable.ufsPatchGptHeader info deviceBlockSize with isGptValid := true }

/-- `GetGptEntryCrc`. -/
def getGptEntryCrc (gptImage : Memory) (len lunNum offset crcLen : Nat) : Nat :=
  if offset = defaultEntryOffset * ptable.ptableData.blockSize then
    if len < (offset + crcLen) % 2 ^ 32 then 0 else calculateCrc32 (gptImage.read offset crcLen)
  else if maxLunNumbers ≤ lunNum then 0
  else
    match ptable.memRead lunNum offset crcLen with
    | none => 0
    | some data => calculateCrc32 (data.read 0 crcLen)

/-- `PartitionCheckGptHeader`. -/
def partitionCheckGptHeader (gptImage : Memory) (len lbaNum lunNum blockSize : Nat)
    (gptHeaderInfo : GptHeaderInfo) : Bool :=
  if len < ptable.ptableData.writeDeviceLunSize ∨ lbaNum = 0 ∨ ptableMaxLunNumbers < lunNum ∨
      len < 2 * blockSize then false
  else
    let buffer := gptImage.behind blockSize
    if checkGptHeader buffer blockSize lbaNum gptHeaderInfo = false then false
    else
      let partition0 := getLlword buffer partitionEntriesOffset % 2 ^ 32
      ptable.getGptEntryCrc gptImage len lunNum (partition0 * blockSize % 2 ^ 32)
          (gptHeaderInfo.maxPartitionCount * gptHeaderInfo.partitionEntrySize % 2 ^ 32) =
        getLword buffer partitionCrcOffset

/-- `ParseGptHeaderByUfsLun`. -/
def parseGptHeaderByUfsLun (gptImage : Memory) (len lun blockSize : Nat) : Bool :=
  match getPartitionGptHeaderInfo (gptImage.behind blockSize) blockSize with
  | none => false
  | some gptHeaderInfo =>
      if ptable.ptableData.blockSize = 0 then false
      else
        let lunLbaNum := ptable.capacity lun / ptable.ptableData.blockSize % 2 ^ 32
        ptable.partitionCheckGptHeader gptImage len lunLbaNum lun blockSize gptHeaderInfo

/-- The offset of an entry: the blocks behind the header hold as many entries as fit. -/
def entryOffset (blockSize k : Nat) : Nat :=
  (defaultEntryOffset + k / (blockSize / partitionEntrySize)) * blockSize +
    k % (blockSize / partitionEntrySize) * partitionEntrySize

/-- The partition of an entry. -/
def partitionAt (gptImage : Memory) (lun blockSize k : Nat) (isTailPart : Bool) : PtnInfo :=
  let offset := entryOffset blockSize k
  let firstLba := getLlword gptImage (offset + firstLbaOffset)
  let lastLba := getLlword gptImage (offset + lastLbaOffset)
  { startAddr := firstLba * ptable.ptableData.blockSize % 2 ^ 64
    partitionSize := (sub64 lastLba firstLba + 1) * ptable.ptableData.blockSize % 2 ^ 64
    partitionTypeGuid := gptImage.read offset 16
    lun := lun
    gptEntryBufOffset := offset - 2 * blockSize
    isTailPart := isTailPart
    dispName := parsePartitionName gptImage (offset + gptPartitionNameOffset) }

/-- `UfsReadGptEntry`: the entries from a number on, up to one without a type. -/
def ufsReadGptEntry (gptImage : Memory) (lun blockSize : Nat) : Nat → Nat → Bool → List PtnInfo
  | 0, _, _ => []
  | left + 1, k, tailPartFlag =>
      let offset := entryOffset blockSize k
      if gptImage offset = 0 ∧ gptImage (offset + 1) = 0 then []
      else
        let info := ptable.partitionAt gptImage lun blockSize k tailPartFlag
        info :: ufsReadGptEntry gptImage lun blockSize left (k + 1)
          (tailPartFlag || info.dispName = userdataPartition)

/-- The partitions read of a lun take the place behind the last one that is removed of it, or
behind all others. -/
def replaceLun (partitionInfo : List PtnInfo) (lun : Nat) (read : List PtnInfo) : List PtnInfo :=
  let behind := (partitionInfo.reverse.takeWhile (·.lun ≠ lun)).reverse
  if behind.length = partitionInfo.length then partitionInfo ++ read
  else
    let before := partitionInfo.take (partitionInfo.length - behind.length)
    before.filter (·.lun ≠ lun) ++ read ++ behind

/-- `UfsReadGpt`, with the partitions known before and after. -/
def ufsReadGpt (gptImage : Memory) (len lun blockSize : Nat) (partitionInfo : List PtnInfo) :
    Option (List PtnInfo) :=
  if len < ptable.ptableData.writeDeviceLunSize ∨ maxLunNumbers ≤ lun ∨ blockSize = 0 ∨
      len < 2 * blockSize then none
  else if ptable.parseGptHeaderByUfsLun gptImage len lun blockSize = false then none
  else
    let partEntryCnt := blockSize / partitionEntrySize
    some (replaceLun partitionInfo lun
      (ptable.ufsReadGptEntry gptImage lun blockSize (maxPartitionNum / partEntryCnt * partEntryCnt)
        0 false))

/-- `memcpy_s` into the buffer of a lun, which leaves zeros where the room is too small. -/
def copyInto (data : Memory) (dest destMax : Nat) (bytes : Bytes) : Memory :=
  if bytes.length ≤ destMax then data.write dest bytes
  else data.write dest (List.replicate destMax 0)

/-- `memset_s` of the buffer of a lun. -/
def clearedData (data : Memory) : Memory :=
  data.write 0 (List.replicate tmpDataSize 0)

/-- The lists that `UfsPtable` fills. -/
structure Tables where
  ufsPtnDataInfo : List UfsPartitionDataInfo
  partitionInfo : List PtnInfo

/-- A turn of the loop of `ParsePartitionFromBuffer`, with the values that the new information of
the lun has before any is set; `none` where the source throws. -/
def parseLun (ptbImgBuffer : Memory) (stale : UfsPartitionDataInfo) (i : Nat) (tables : Tables) :
    Option (Tables × Bool) :=
  let imgBlockSize := ptable.ptableData.lbaLen
  let deviceBlockSize := ptable.ptableData.blockSize
  let lunStart := ptable.getPtableImageUfsLunPmbrStart i
  let gptHeaderStart := ptable.getPtableImageUfsLunGptHeaderStart i
  let data := clearedData stale.data
  if checkProtectiveMbr (ptbImgBuffer.behind lunStart) imgBlockSize = false ∨
      checkIfValidGpt (ptbImgBuffer.behind gptHeaderStart) imgBlockSize = false then
    some ({ tables with ufsPtnDataInfo := tables.ufsPtnDataInfo ++
      [{ stale with data := data, isGptValid := false, needWrite := false }] }, true)
  else
    let data := copyInto data 0 tmpDataSize (ptbImgBuffer.read lunStart imgBlockSize)
    let data := copyInto data deviceBlockSize (tmpDataSize - deviceBlockSize)
      (ptbImgBuffer.read gptHeaderStart imgBlockSize)
    let data := copyInto data (2 * deviceBlockSize) (tmpDataSize - 2 * deviceBlockSize)
      (ptbImgBuffer.read (ptable.getPtableImageUfsLunEntryStart i) gptEntrysSize)
    match ptable.addUfsPtnDataInfo { stale with data := data } deviceBlockSize i with
    | none => none
    | some info =>
        let infos := tables.ufsPtnDataInfo ++ [info]
        match ptable.ufsReadGpt info.data info.writeDataLen info.lunIndex deviceBlockSize
            tables.partitionInfo with
        | none => some ({ tables with ufsPtnDataInfo := infos }, false)
        | some partitionInfo =>
            some ({ ufsPtnDataInfo := infos, partitionInfo := partitionInfo }, true)

def parseLuns (ptbImgBuffer : Memory) (stale : Nat → UfsPartitionDataInfo) :
    List Nat → Tables → Option (Tables × Bool)
  | [], tables => some (tables, true)
  | i :: luns, tables =>
      match ptable.parseLun ptbImgBuffer (stale i) i tables with
      | none => none
      | some (tables, false) => some (tables, false)
      | some (tables, true) => parseLuns ptbImgBuffer stale luns tables

/-- `ParsePartitionFromBuffer`. -/
def parsePartitionFromBuffer (ptbImgBuffer : Memory) (imgBufSize : Nat)
    (stale : Nat → UfsPartitionDataInfo) (tables : Tables) : Option (Tables × Bool) :=
  if imgBufSize < (ptable.ptableData.emmcGptDataLen + ptable.ptableData.imgLuSize +
      getPtableExtraOffset) % 2 ^ 32 then some (tables, false)
  else if ptable.ptableData.blockSize ≠ imgBlockSize512 ∧
      ptable.ptableData.blockSize ≠ deviceBlockSize4096 then some (tables, false)
  else
    ptable.parseLuns ptbImgBuffer stale (List.range ptable.deviceLunNum)
      { tables with ufsPtnDataInfo := [] }

/-- `ReadAndCheckMbr`. -/
def readAndCheckMbr (lunIndex blockSize : Nat) : Bool :=
  if blockSize = 0 ∨ ptable.deviceLunNum < lunIndex then false
  else
    match ptable.memRead lunIndex 0 blockSize with
    | none => false
    | some buffer => checkProtectiveMbr buffer blockSize

/-- `LoadPartitionInfoFromLun`, with the values that the new information has before any is set. -/
def loadPartitionInfoFromLun (lunIndex imgLen : Nat) (stale : UfsPartitionDataInfo)
    (tables : Tables) : Tables × Bool :=
  if imgLen = 0 ∨ ptable.deviceLunNum < lunIndex then (tables, false)
  else
    match ptable.memRead lunIndex (ptable.lunOffset lunIndex) imgLen with
    | none => (tables, false)
    | some buffer =>
        let info : UfsPartitionDataInfo := {
          isGptValid := true
          lunIndex := lunIndex
          lunSize := imgLen
          writeDataLen := imgLen
          data := copyInto (clearedData stale.data) 0 tmpDataSize (buffer.read 0 imgLen) }
        let infos := tables.ufsPtnDataInfo ++ [info]
        match ptable.ufsReadGpt buffer imgLen lunIndex ptable.ptableData.blockSize
            tables.partitionInfo with
        | none => ({ tables with ufsPtnDataInfo := infos }, false)
        | some partitionInfo => ({ ufsPtnDataInfo := infos, partitionInfo := partitionInfo }, true)

/-- `LoadAllLunPartitions`, with the tables instead of the number of luns. -/
def loadAllLunPartitions (stale : Nat → UfsPartitionDataInfo) (tables : Tables) : Tables :=
  (List.range ptable.deviceLunNum).foldl
    (fun tables lunIndex =>
      if ptable.readAndCheckMbr lunIndex ptable.ptableData.blockSize then
        (ptable.loadPartitionInfoFromLun lunIndex ptable.ptableData.writeDeviceLunSize
          (stale lunIndex) tables).1
      else tables)
    tables

end UfsPtable

end Updater.PtableParse
