import Updater.PtableParse.PartitionTable
import Updater.PtableParse.UfsPtable

/-! The partition table of eMMC devices: how its header is checked and patched, and how partitions
are resized in an image of it. -/

set_option autoImplicit false

namespace Updater.PtableParse

open Updater.Base

def gptPartitionSize : Nat := 128 * 1024

def emmcBlockSize : Nat := 512

/-- `EmmcPtable` as far as its configuration and the device are used in the edit of a table. -/
structure EmmcPtable where
  /-- `GetDeviceCapacity` -/
  capacity : Nat
  writeDeviceLunSize : Nat
  emmcGptDataLen : Nat

/-- Some bytes that are read or written, by the place of the first one. -/
structure Access where
  start : Nat
  length : Nat

def Access.end_ (access : Access) : Nat :=
  access.start + access.length

/-- `Ptable::GetGptEntryCrc`. -/
def getGptEntryCrc (gptImage : Memory) (len offset crcLen : Nat) : Nat :=
  if len < (offset + crcLen) % 2 ^ 32 then 0 else calculateCrc32 (gptImage.read offset crcLen)

section Accesses

/-- What the loop of `ChangeGpt` reads and writes, besides the header. -/
def changeGptLoopAccesses (gptSize ptnEntrySize : Nat) (gptInfo : GptParseInfo)
    (modifyInfo : PtnInfo) : Nat → Memory → Nat → Nat → Option Nat → List Access
  | 0, _, _, _, _ => []
  | fuel + 1, memory, ptnInfo, readSize, preLastLba =>
      if gptSize ≤ readSize then []
      else
        let dispName := parsePartitionName memory (ptnInfo + gptPartitionNameOffset)
        let lastPtnLastLba := sub64 (gptInfo.devDensity / gptInfo.devBlockSize) 1
        let name : Access :=
          { start := ptnInfo + gptPartitionNameOffset, length := maxGptNameSize }
        let lbas : Access := { start := ptnInfo + firstLbaOffset, length := 16 }
        if dispName = [] then [name]
        else
          match preLastLba with
          | some preLastLba =>
              match adjustGpt memory ptnInfo dispName preLastLba lastPtnLastLba with
              | none => [name, lbas]
              | some memory =>
                  name :: lbas :: changeGptLoopAccesses gptSize ptnEntrySize gptInfo modifyInfo fuel
                    memory (ptnInfo + ptnEntrySize) (readSize + ptnEntrySize)
                    (some (getLlword memory (ptnInfo + lastLbaOffset)))
          | none =>
              if dispName = modifyInfo.dispName then
                let firstLba := modifyInfo.startAddr / gptInfo.devBlockSize
                let lastLba :=
                  sub64 (firstLba + modifyInfo.partitionSize / gptInfo.devBlockSize) 1
                if dispName = userdataPartition ∧ lastLba ≠ lastPtnLastLba then [name]
                else
                  name :: lbas :: changeGptLoopAccesses gptSize ptnEntrySize gptInfo modifyInfo fuel
                    (putLongLong (putLongLong memory (ptnInfo + firstLbaOffset) firstLba)
                      (ptnInfo + lastLbaOffset) lastLba)
                    (ptnInfo + ptnEntrySize) (readSize + ptnEntrySize) (some lastLba)
              else
                name :: changeGptLoopAccesses gptSize ptnEntrySize gptInfo modifyInfo fuel memory
                  (ptnInfo + ptnEntrySize) (readSize + ptnEntrySize) none

/-- What `ChangeGpt` reads and writes. -/
def changeGptAccesses (fuel : Nat) (memory : Memory) (gptBuf gptSize : Nat) (gptInfo : GptParseInfo)
    (modifyInfo : PtnInfo) : List Access :=
  if gptSize = 0 ∨ gptSize ≤ gptInfo.imgBlockSize ∨ gptInfo.devBlockSize = 0 then []
  else
    let gptHead := gptBuf + gptInfo.imgBlockSize
    let ptnEntrySize := getLlword memory (gptHead + pentrySizeOffset) % 2 ^ 32
    let ptnStart := getLlword memory (gptHead + partitionEntriesOffset)
    let readSize := ptnStart * gptInfo.imgBlockSize % 2 ^ 64
    { start := gptHead + pentrySizeOffset, length := 8 } ::
      { start := gptHead + partitionEntriesOffset, length := 8 } ::
      changeGptLoopAccesses gptSize ptnEntrySize gptInfo modifyInfo fuel memory (gptBuf + readSize)
        readSize none

end Accesses

namespace EmmcPtable

variable (ptable : EmmcPtable)

/-- `PartitionCheckGptHeader`, of the lun 0. -/
def partitionCheckGptHeader (gptImage : Memory) (len lbaNum blockSize : Nat)
    (gptHeaderInfo : GptHeaderInfo) : Bool :=
  if len < ptable.writeDeviceLunSize ∨ lbaNum = 0 ∨ len < 2 * blockSize then false
  else
    let buffer := gptImage.behind blockSize
    if checkGptHeader buffer blockSize lbaNum gptHeaderInfo = false then false
    else
      let partition0 := getLlword buffer partitionEntriesOffset % 2 ^ 32
      getGptEntryCrc gptImage len (partition0 * blockSize % 2 ^ 32)
          (gptHeaderInfo.maxPartitionCount * gptHeaderInfo.partitionEntrySize % 2 ^ 32) =
        getLword buffer partitionCrcOffset

/-- `ParseGptHeaderByEmmc`. -/
def parseGptHeaderByEmmc (gptImage : Memory) (len : Nat) : Bool :=
  match getPartitionGptHeaderInfo (gptImage.behind emmcBlockSize) emmcBlockSize with
  | none => false
  | some gptHeaderInfo =>
      ptable.partitionCheckGptHeader gptImage len (ptable.capacity / emmcBlockSize % 2 ^ 32)
        emmcBlockSize gptHeaderInfo

/-- The last sector of the device. -/
def lastSector : Nat :=
  sub64 (ptable.capacity / emmcBlockSize) 1

/-- The entries up to one that begins with a zero, as far as they are in the buffer. -/
def totalPart (data : Memory) (blockSize : Nat) : Nat :=
  UfsPtable.totalPart data (2 * blockSize)
    ((gptPartitionSize - 2 * blockSize + partitionEntrySize - 1) / partitionEntrySize) 0

/-- The entry of the last partition, which takes the rest of the device. -/
def patchLastPartition (data : Memory) (lastPartOffset totalPart : Nat) : Memory :=
  let lastLba := getLlword data (lastPartOffset + lastLbaOffset)
  let firstLba := getLlword data (lastPartOffset + firstLbaOffset)
  let partitionSize := (sub64 lastLba firstLba + 1) * emmcBlockSize % 2 ^ 64
  let partitionName := parsePartitionName data (lastPartOffset + gptPartitionNameOffset)
  if partitionName = userdataPartition ∨ (totalPart = 1 ∧ partitionSize = 0) then
    putLongLong data (lastPartOffset + lastLbaOffset) ptable.lastSector
  else data

/-- The header at the second block with the fields that depend on the device. -/
def patchFields (data : Memory) (blockSize : Nat) : Memory :=
  putLongLong (putLongLong data (blockSize + backupHeaderOffset) ptable.lastSector)
    (blockSize + lastUsableLbaOffset) ptable.lastSector

/-- `EmmcPatchGptHeader`. -/
def emmcPatchGptHeader (data : Memory) (writeDataLen blockSize : Nat) : Memory :=
  if blockSize = 0 ∨ writeDataLen < 2 * blockSize then data
  else
    let data := ptable.patchFields data blockSize
    let total := totalPart data blockSize
    if total = 0 then data
    else
      let lastPartOffset := 2 * blockSize + (total - 1) * partitionEntrySize
      UfsPtable.patchCrcs (ptable.patchLastPartition data lastPartOffset total) blockSize
        (2 * blockSize)

/-- What `EmmcPatchGptHeader` reads and writes. -/
def emmcPatchGptHeaderAccesses (data : Memory) (writeDataLen blockSize : Nat) : List Access :=
  if blockSize = 0 ∨ writeDataLen < 2 * blockSize then []
  else
    let data := ptable.patchFields data blockSize
    let total := totalPart data blockSize
    let fields : List Access := [{ start := blockSize + backupHeaderOffset, length := 8 },
      { start := blockSize + lastUsableLbaOffset, length := 8 }]
    let firstBytes : List Access := (List.range (min (total + 1)
      ((gptPartitionSize - 2 * blockSize + partitionEntrySize - 1) / partitionEntrySize))).map
        fun k => { start := 2 * blockSize + k * partitionEntrySize, length := 1 }
    if total = 0 then fields ++ firstBytes
    else
      let partCount := getLword data (blockSize + partitionCountOffset)
      let entrySize := getLword data (blockSize + pentrySizeOffset)
      fields ++ firstBytes ++
        [{ start := 2 * blockSize + (total - 1) * partitionEntrySize, length := partitionEntrySize },
          { start := 2 * blockSize, length := partCount * entrySize % 2 ^ 32 },
          { start := blockSize, length := gptCrcLen }]

/-- The size that `EditPartitionBuf` takes the table to have. -/
def gptSize (image : Memory) : Nat :=
  (getLword image (emmcBlockSize + partitionCountOffset) *
    getLword image (emmcBlockSize + pentrySizeOffset) + emmcBlockSize + emmcBlockSize) % 2 ^ 64

/-- The sizes of blocks and of the device. -/
def gptInfo : GptParseInfo where
  imgBlockSize := emmcBlockSize
  devBlockSize := emmcBlockSize
  devDensity := ptable.capacity

/-- The loop of `EditPartitionBuf`, up to the change that fails. -/
def changeAll (size : Nat) : Memory → List PtnInfo → Option Memory
  | image, [] => some image
  | image, modifyInfo :: modifyList =>
      match changeGpt (size + 1) image 0 size ptable.gptInfo modifyInfo with
      | none => none
      | some image => changeAll size image modifyList

def changeAllAccesses (size : Nat) : Memory → List PtnInfo → List Access
  | _, [] => []
  | image, modifyInfo :: modifyList =>
      changeGptAccesses (size + 1) image 0 size ptable.gptInfo modifyInfo ++
        match changeGpt (size + 1) image 0 size ptable.gptInfo modifyInfo with
        | none => []
        | some image => changeAllAccesses size image modifyList

/-- `newEmmcPartitionDataInfo`, with the first block of the image. -/
def scratch (image : Memory) : Memory :=
  Memory.write (fun _ => 0) 0 (image.read 0 emmcBlockSize)

/-- `EditPartitionBuf`: the image, and the data of the local information whose header is patched. -/
def editPartitionBuf (image : Memory) (imgBufSize : Nat) (modifyList : List PtnInfo) :
    Option (Memory × Memory) :=
  if imgBufSize = 0 ∨ modifyList = [] then none
  else if ptable.capacity = 0 then none
  else
    match ptable.changeAll (gptSize image) image modifyList with
    | none => none
    | some image =>
        some (image,
          ptable.emmcPatchGptHeader (scratch image) ptable.emmcGptDataLen emmcBlockSize)

/-- What `EditPartitionBuf` reads and writes of the image. -/
def editAccesses (image : Memory) (modifyList : List PtnInfo) : List Access :=
  { start := emmcBlockSize + partitionCountOffset, length := 4 } ::
    { start := emmcBlockSize + pentrySizeOffset, length := 4 } ::
    { start := 0, length := emmcBlockSize } ::
    ptable.changeAllAccesses (gptSize image) image modifyList

/-- What it reads and writes of the local information. -/
def scratchAccesses (image : Memory) : List Access :=
  { start := 0, length := emmcBlockSize } ::
    ptable.emmcPatchGptHeaderAccesses (scratch image) ptable.emmcGptDataLen emmcBlockSize

end EmmcPtable

end Updater.PtableParse
