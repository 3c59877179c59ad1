import Mathlib.Data.List.Infix
import Updater.Base.Bytes
import Updater.Base.Traced

/-! The partitions of a disk: how they are read from sysfs, compared with a list of new
ones, and removed from and added to the kernel's table. -/

set_option autoImplicit false

namespace Updater.FsManager

open Updater.Base

inductive PartitionChangeType where
  | normalChange
  | notChange
  | newPartition
  | startChange
  | lengthChange
  deriving DecidableEq, Repr

structure Partition where
  start : Nat
  length : Nat
  partNum : Int
  devName : Bytes
  partName : Bytes
  fsType : Bytes
  changeType : PartitionChangeType
  deriving DecidableEq, Repr

def bufferSize : Nat := 256

def defaultPartsum : Nat := 16

def sectorSizeDefault : Nat := 512

def blkpgNameLength : Nat := 64

def userdataPartname : Bytes := ascii "userdata"

def updaterPartname : Bytes := ascii "updater"

def mmcDev : Bytes := ascii "mmcblk0"

/-- `snprintf_s` with `"%sp%d"`. -/
def mmcPartition (partNum : Int) : Bytes :=
  mmcDev ++ ascii "p" ++ ascii (toString partNum)

inductive SysFile where
  | start
  | size
  | uevent
  deriving DecidableEq, Repr

/-- A command to the kernel that changes its partition table. -/
inductive BlkpgCommand where
  | del (pno : Int)
  | add (pno start length : Int) (devname volname : Bytes)
  deriving DecidableEq, Repr

/-- What the disk's files in sysfs hold, by partition number. -/
abbrev Sysfs : Type := Nat → SysFile → Option Bytes

/-- The answers of the system: the device and its node can be opened, a path is unmounted,
a command to the kernel succeeds. -/
structure System where
  diskAlloc : Bool
  blockDiskOpen : Bool
  umountForPath : Bytes → Bool
  ioctl : BlkpgCommand → Bool

/-- `static_cast<size_t>` of an `int`. -/
def sizeOfInt (value : Int) : Nat :=
  (value % 2 ^ 64).toNat

def atoi (text : Bytes) : Int :=
  let number := text.dropWhile fun char => char = 32 || (9 ≤ char && char ≤ 13)
  let magnitude (digits : Bytes) : Nat :=
    (digits.takeWhile fun char => 48 ≤ char && char ≤ 57).foldl
      (fun value char => value * 10 + (char.toNat - 48)) 0
  let value : Int :=
    match number with
    | 43 :: digits => magnitude digits
    | 45 :: digits => - magnitude digits
    | digits => magnitude digits
  value.bmod (2 ^ 32)

/-- What one `fgets` after the other reads into a buffer with `room` bytes for them. -/
def fgetsLines (room : Nat) : Nat → Bytes → Bytes → List Bytes
  | _, line, [] => if line = [] then [] else [line]
  | left, line, byte :: rest =>
      if byte = 10 ∨ left ≤ 1 then (line ++ [byte]) :: fgetsLines room room [] rest
      else fgetsLines room (left - 1) (line ++ [byte]) rest

/-- `ReadPartitionFromSys`; the text goes on to the end of the buffer. -/
def readPartitionFromSys (file : Option Bytes) (type : SysFile) (table : Bytes) : Bytes :=
  match file with
  | none => []
  | some contents =>
      let lines := fgetsLines (bufferSize - 1) (bufferSize - 1) [] contents
      let buf (line : Bytes) : Bytes := line ++ List.replicate (bufferSize - line.length) 0
      match type with
      | .uevent =>
          match lines.find? fun line => decide (table <:+: cString line) with
          | none => []
          | some line => ((buf line).drop table.length).dropLast
      | _ =>
          match lines.head? with
          | none => []
          | some line => (buf line).take (bufferSize - 1)

/-- `NewPartition`, of the eMMC disk. -/
def newPartition (sysfs : Sysfs) (partn : Nat) : Option Partition :=
  let partName := mmcPartition partn
  let strstart := readPartitionFromSys (sysfs partn .start) .start []
  if strstart = [] then none
  else
    let strsize := readPartitionFromSys (sysfs partn .size) .size []
    if strsize = [] then none
    else
      let strdevname := readPartitionFromSys (sysfs partn .uevent) .uevent (ascii "DEVNAME=")
      let strpartname := readPartitionFromSys (sysfs partn .uevent) .uevent (ascii "PARTNAME=")
      some {
        start := sizeOfInt (atoi strstart)
        length := sizeOfInt (atoi strsize)
        partNum := partn
        devName := if strdevname = [] then partName else strdevname
        partName := if strpartname = [] then partName else strpartname
        fsType := []
        changeType := .normalChange }

/-- `count` rounds of the loop of `ProbeAllPartitions`, from partition number `i` on. -/
def probePartitions (sysfs : Sysfs) : Nat → Nat → List Partition
  | 0, _ => []
  | count + 1, i =>
      match newPartition sysfs i with
      | none => []
      | some part => part :: probePartitions sysfs count (i + 1)

def probeAllPartitions (sysfs : Sysfs) : List Partition :=
  probePartitions sysfs (defaultPartsum - 1) 1

def getPartition (partList : List Partition) (partn : Int) : Option Partition :=
  if partn = 0 then none
  else partList.find? fun part => part.partNum = partn

def getPartitionNumByPartName (partname : Bytes) (plist : List Partition) : Int :=
  match plist.find? fun part => part.partName = partname with
  | none => 0
  | some part => part.partNum

/-- `strcmp` of the names says that they are equal. -/
def SameName (old new : Partition) : Prop :=
  cString old.partName = cString new.partName

instance (old new : Partition) : Decidable (SameName old new) :=
  inferInstanceAs (Decidable (cString old.partName = cString new.partName))

/-- The change of a partition that has a namesake in the new list. -/
def changeOf (oldp newp : Partition) : PartitionChangeType :=
  if oldp.start ≠ newp.start then .startChange
  else if oldp.length ≠ newp.length then .lengthChange
  else .notChange

/-- `ComparePartition`: the change, and the old partitions with it. -/
def comparePartition (newp : Partition) : List Partition → PartitionChangeType × List Partition
  | [] => (.newPartition, [])
  | p :: plist =>
      if SameName p newp then (changeOf p newp, { p with changeType := changeOf p newp } :: plist)
      else
        let (change, plist) := comparePartition newp plist
        (change, p :: plist)

/-- `TraversePartitionList`: the old partitions with their changes, and the new ones that
are to be added. -/
def traversePartitionList : List Partition → List Partition → List Partition × List Partition
  | [], olist => (olist, [])
  | p :: nlist, olist =>
      let (change, olist) := comparePartition p olist
      let (olist, ulist) := traversePartitionList nlist olist
      (olist, if change ≠ .notChange then p :: ulist else ulist)

namespace System

variable (system : System)

def blkpgPartCommand (command : BlkpgCommand) : Traced BlkpgCommand Unit := do
  Traced.emit [command]
  if system.ioctl command then pure () else Traced.reject

def doRmPartition (partList : List Partition) (partn : Int) : Traced BlkpgCommand Unit :=
  match getPartition partList partn with
  | none => Traced.reject
  | some part => system.blkpgPartCommand (.del part.partNum)

def doUmountDiskPartition (part : Partition) : Bool :=
  system.umountForPath (cString (ascii "/" ++ part.partName))

/-- `RemovePartitions`, its loop; counts the partitions removed. -/
def removePartitions (partList : List Partition) : List Partition → Nat → Traced BlkpgCommand Nat
  | [], counter => pure counter
  | it :: pList, counter =>
      if it.changeType = .notChange then removePartitions partList pList counter
      else if it.partName = updaterPartname then removePartitions partList pList counter
      else if it.partName = userdataPartname then removePartitions partList pList counter
      else if system.doUmountDiskPartition it = false then removePartitions partList pList counter
      else do
        system.doRmPartition partList it.partNum
        removePartitions partList pList (counter + 1)

/-- `static_cast<long long>` of a number of sectors in bytes. -/
def sectorBytes (sectors : Nat) : Int :=
  Int.bmod (sectors * sectorSizeDefault : Nat) (2 ^ 64)

/-- `DoAddPartition` with `BlkpgAddPartition`; a name has to fit its field. -/
def doAddPartition (part : Partition) : Traced BlkpgCommand Unit :=
  if blkpgNameLength ≤ (cString part.devName).length then Traced.reject
  else if blkpgNameLength ≤ (cString part.partName).length then Traced.reject
  else
    system.blkpgPartCommand (.add part.partNum (sectorBytes part.start) (sectorBytes part.length)
      (cString part.devName) (cString part.partName))

/-- `AddPartitions`, its loop. -/
def addPartitions (userNum : Int) : List Partition → Nat → Nat → Traced BlkpgCommand Nat
  | [], _, counter => pure counter
  | p2 :: ulist, step, counter =>
      if p2.partName = userdataPartname then addPartitions userNum ulist step counter
      else if p2.partName = updaterPartname then addPartitions userNum ulist step counter
      else do
        let partNum := userNum + step
        system.doAddPartition { p2 with partNum, devName := mmcPartition partNum }
        addPartitions userNum ulist (step + 1) (counter + 1)

def adjustPartitions (partList ulist : List Partition) (counter : Nat) : Traced BlkpgCommand Nat :=
  if system.blockDiskOpen = false then Traced.reject
  else do
    let counter ← system.removePartitions partList partList counter
    system.addPartitions (getPartitionNumByPartName userdataPartname partList) ulist 1 counter

/-- `DoPartitions`; its result is the counter of the changes, from one, or nothing. -/
def doPartitions (sysfs : Sysfs) (nlist : List Partition) : Traced BlkpgCommand Nat :=
  if nlist = [] then Traced.reject
  else if system.diskAlloc = false then Traced.reject
  else
    let olist := probeAllPartitions sysfs
    if olist = [] then Traced.reject
    else
      let (partList, ulist) := traversePartitionList nlist olist
      system.adjustPartitions partList ulist 1

end System

end Updater.FsManager
