import Updater.PtableParse.PatchedHeader

/-! The partition table of an eMMC device and the tables of the packages of an update: when they
differ, and what is written. -/

set_option autoImplicit false

namespace Updater.PtableParse

open Updater.Base

def gptDispNameLen : Nat := 32

/-- What the configuration says of the images in packages. With smaller blocks the buffer would keep
bytes of the image before. -/
structure EmmcImages where
  lbaLen : Nat
  /-- `GetDefaultImageSize` -/
  imgBufSize : Nat
  wholeBlock : lbaLength ≤ lbaLen

/-- `ParsePartitionName` of at most `GPT_DISP_NAME_LEN` characters. -/
def emmcPartitionName (memory : Memory) (start : Nat) : Bytes :=
  ((List.range gptDispNameLen).map fun n => memory (start + 2 * n)).takeWhile (· ≠ 0) |>.map toUpper

/-- The partition of the entry at an offset. -/
def emmcPartitionAt (memory : Memory) (offset : Nat) : PtnInfo :=
  let startLba := getLlword memory (offset + firstLbaOffset)
  let endLba := getLlword memory (offset + lastLbaOffset)
  { startAddr := startLba * lbaLength % 2 ^ 64
    partitionSize := (sub64 endLba startLba + 1) * lbaLength % 2 ^ 64
    partitionTypeGuid := memory.read offset 16
    lun := 0
    gptEntryBufOffset := 0
    isTailPart := false
    dispName := emmcPartitionName memory (offset + gptPartitionNameOffset) }

/-- The loop of `EmmcReadGpt`, up to an entry without a name. -/
def emmcReadEntries (memory : Memory) : Nat → Nat → List PtnInfo
  | 0, _ => []
  | left + 1, offset =>
      let newPtnInfo := emmcPartitionAt memory offset
      if newPtnInfo.dispName = [] then []
      else newPtnInfo :: emmcReadEntries memory left (offset + partitionEntrySize)

namespace EmmcPtable

variable (ptable : EmmcPtable)

/-- `EmmcReadGpt`: the partitions of a table in the layout of the device. -/
def emmcReadGpt (data : Memory) (len : Nat) : Option (List PtnInfo) :=
  if ptable.parseGptHeaderByEmmc data len = false then none
  else
    match emmcReadEntries data maxPartitionNum (2 * emmcBlockSize) with
    | [] => none
    | partitionInfo => some partitionInfo

/-- `UpdateCommInitializeGptPartition`: the image of a package in the layout of the device, and its
partitions. -/
def updateCommInitializeGptPartition (images : EmmcImages) (gptImage : Memory) (len : Nat) :
    Option (Memory × List PtnInfo) :=
  let imgBlockSize := images.lbaLen
  let gptHeaderStart := gptImage.behind imgBlockSize
  if len < gptPartitionSize then none
  else if checkProtectiveMbr gptImage imgBlockSize = false ∨
      checkIfValidGpt gptHeaderStart imgBlockSize = false then none
  else if gptPartitionSize - emmcBlockSize < imgBlockSize then none
  else
    let data := Memory.write (fun _ => 0) 0 (gptImage.read 0 imgBlockSize)
    let data := data.write emmcBlockSize (gptHeaderStart.read 0 imgBlockSize)
    let data := data.write (2 * emmcBlockSize)
      (gptImage.read (lbaLength + lbaLength) (gptPartitionSize - 2 * emmcBlockSize))
    let data := ptable.emmcPatchGptHeader data len emmcBlockSize
    (ptable.emmcReadGpt data len).map fun partitionInfo => (data, partitionInfo)

/-- `LoadPtableFromDevice`, with nothing loaded before. -/
def loadPtableFromDevice (device : Memory) : Option (List PtnInfo) :=
  if checkProtectiveMbr device emmcBlockSize = false ∨
      checkIfValidGpt (device.behind emmcBlockSize) emmcBlockSize = false then none
  else ptable.emmcReadGpt device gptPartitionSize

end EmmcPtable

/-- `GetPartitionInfoIndexByName`. -/
def getPartitionInfoIndexByName (ptnInfo : List PtnInfo) (name : Bytes) : Option Nat :=
  if ptnInfo = [] ∨ name = [] then none else ptnInfo.findIdx? (·.dispName = name)

/-- `ComparePartitionInfo`. -/
def comparePartitionInfo (lhs rhs : PtnInfo) : Bool :=
  lhs.startAddr ≠ rhs.startAddr || lhs.partitionSize ≠ rhs.partitionSize

/-- `IsPartitionChanged`. -/
def isPartitionChanged (devicePtnInfo pkgPtnInfo : List PtnInfo) (partitionName : Bytes) : Bool :=
  if pkgPtnInfo = [] then false
  else if devicePtnInfo = [] then true
  else
    match getPartitionInfoIndexByName devicePtnInfo partitionName,
        getPartitionInfoIndexByName pkgPtnInfo partitionName with
    | some deviceIndex, some updateIndex =>
        match devicePtnInfo[deviceIndex]?, pkgPtnInfo[updateIndex]? with
        | some device, some update => comparePartitionInfo device update
        | _, _ => true
    | _, _ => true

/-- `IsPtableChanged`. -/
def isPtableChanged (devicePtnInfo pkgPtnInfo : List PtnInfo) : Bool :=
  if pkgPtnInfo = [] then false
  else if devicePtnInfo = [] ∨ pkgPtnInfo.length ≠ devicePtnInfo.length then true
  else (devicePtnInfo.zip pkgPtnInfo).any fun both =>
    both.1.dispName ≠ both.2.dispName || comparePartitionInfo both.1 both.2

/-- A package: the image of its table, unless it cannot be loaded or has none, and the bytes that
reach the device when the write fails. -/
structure PtablePackage where
  image : Option Memory
  failing : Option Nat

namespace EmmcPtable

variable (ptable : EmmcPtable)

/-- `WritePartitionTable`. -/
def writePartitionTable (failing : Option Nat) (data device : Memory) : Memory × Bool :=
  writeBufferToPath failing.isSome (failing.getD 0) device 0 (data.read 0 gptPartitionSize)

/-- The loop body of `PtableProcess`, where the table of the device is loaded anew; `false` leaves
the loop. -/
def ptableProcessPackage (images : EmmcImages) (sdcard : Bool) (device : Memory)
    (package : PtablePackage) : Memory × Bool :=
  match package.image, ptable.loadPtableFromDevice device with
  | some image, some devicePtb =>
      match ptable.updateCommInitializeGptPartition images image images.imgBufSize with
      | none => (device, false)
      | some (data, packagePtb) =>
          if isPtableChanged devicePtb packagePtb = false then (device, true)
          else if sdcard = false ∧ isPartitionChanged devicePtb packagePtb userdataPartition then
            (device, false)
          else writePartitionTable package.failing data device
  | _, _ => (device, false)

/-- `PtableProcess`. -/
def ptableProcess (images : EmmcImages) (sdcard : Bool) (device : Memory) :
    List PtablePackage → Memory × Bool
  | [] => (device, true)
  | package :: later =>
      match ptable.ptableProcessPackage images sdcard device package with
      | (device, false) => (device, false)
      | (device, true) => ptableProcess images sdcard device later

end EmmcPtable

end Updater.PtableParse
