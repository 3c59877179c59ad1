import Updater.Base.Memory

/-! GUID partition tables: the fields of headers and entries, their checksums, and what `Ptable`
changes in them. -/

set_option autoImplicit false

namespace Updater.PtableParse

open Updater.Base

def partitionEntrySize : Nat := 128

def maxPartitionNum : Nat := 128

def firstLbaOffset : Nat := 32

def lastLbaOffset : Nat := 40

def gptPartitionNameOffset : Nat := 56

def maxGptNameSize : Nat := 72

def partitionEntriesOffset : Nat := 72

def partitionCrcOffset : Nat := 88

def gptHeaderOffset : Nat := 24

def backupHeaderOffset : Nat := 32

def firstUsableLbaOffset : Nat := 40

def lastUsableLbaOffset : Nat := 48

def partitionCountOffset : Nat := 80

def pentrySizeOffset : Nat := 84

def headerSizeOffset : Nat := 12

def headerCrcOffset : Nat := 16

def gptCrcLen : Nat := 92

def gptHeaderSize : Nat := 92

def gptEntrysSize : Nat := 128 * 128

def minPartitionArraySize : Nat := 0x4000

def lbaLength : Nat := 512

def efiMagicNumber : Nat := 0x5452415020494645

/-- `Ptable::Reflect`. -/
def reflect (length : Nat) (data : UInt32) : UInt32 :=
  (List.range length).foldl
    (fun ref i =>
      if (data >>> i.toUInt32) &&& 1 = 1 then ref ||| (1 <<< (length - 1 - i).toUInt32) else ref) 0

/-- A bit of a byte in `CalculateCrc32`, the most significant one of the reflected byte first. -/
def crcBit (dataByte : UInt32) (regs : UInt32) (j : Nat) : UInt32 :=
  if (regs >>> 31) &&& 1 = (dataByte >>> (7 - j).toUInt32) &&& 1 then regs <<< 1
  else (regs <<< 1) ^^^ 0x04C11DB7

def crcByte (regs : UInt32) (byte : UInt8) : UInt32 :=
  (List.range 8).foldl (crcBit (reflect 8 byte.toUInt32)) regs

def calculateCrc32 (buffer : Bytes) : Nat :=
  if buffer = [] then 0
  else (reflect 32 (buffer.foldl crcByte 0xFFFFFFFF) ^^^ 0xFFFFFFFF).toNat

example : calculateCrc32 [0x31, 0x32, 0x33, 0x34, 0x35, 0x36, 0x37, 0x38, 0x39] = 0xCBF43926 := by
  decide +kernel

/-- `GET_LWORD_FROM_BYTE`. -/
def getLword (memory : Memory) (start : Nat) : Nat :=
  leValue (memory.read start 4)

/-- `GET_LLWORD_FROM_BYTE`. -/
def getLlword (memory : Memory) (start : Nat) : Nat :=
  leValue (memory.read start 8)

/-- `PUT_LONG`. -/
def putLong (memory : Memory) (start value : Nat) : Memory :=
  memory.write start (leBytes 4 value)

/-- `PUT_LONG_LONG`. -/
def putLongLong (memory : Memory) (start value : Nat) : Memory :=
  memory.write start (leBytes 8 value)

section Fields

variable (memory : Memory) {start at_ value : Nat}

theorem getLword_lt (start : Nat) : getLword memory start < 2 ^ 32 := by
  have bound := leValue_lt (memory.read start 4)
  rwa [Memory.length_read] at bound

theorem getLlword_lt (start : Nat) : getLlword memory start < 2 ^ 64 := by
  have bound := leValue_lt (memory.read start 8)
  rwa [Memory.length_read] at bound

theorem getLword_putLong (fits : value < 2 ^ 32) :
    getLword (putLong memory start value) start = value := by
  have written := memory.read_write start (leBytes 4 value)
  rw [length_leBytes] at written
  exact (congrArg leValue written).trans (leValue_leBytes_of_lt fits)

theorem getLlword_putLongLong (fits : value < 2 ^ 64) :
    getLlword (putLongLong memory start value) start = value := by
  have written := memory.read_write start (leBytes 8 value)
  rw [length_leBytes] at written
  exact (congrArg leValue written).trans (leValue_leBytes_of_lt fits)

theorem getLword_putLong_apart (apart : at_ + 4 ≤ start ∨ start + 4 ≤ at_) :
    getLword (putLong memory start value) at_ = getLword memory at_ :=
  congrArg leValue (memory.read_write_disjoint (by rwa [length_leBytes]))

theorem getLword_putLongLong_apart (apart : at_ + 4 ≤ start ∨ start + 8 ≤ at_) :
    getLword (putLongLong memory start value) at_ = getLword memory at_ :=
  congrArg leValue (memory.read_write_disjoint (by rwa [length_leBytes]))

theorem getLlword_putLong_apart (apart : at_ + 8 ≤ start ∨ start + 4 ≤ at_) :
    getLlword (putLong memory start value) at_ = getLlword memory at_ :=
  congrArg leValue (memory.read_write_disjoint (by rwa [length_leBytes]))

theorem getLlword_putLongLong_apart (apart : at_ + 8 ≤ start ∨ start + 8 ≤ at_) :
    getLlword (putLongLong memory start value) at_ = getLlword memory at_ :=
  congrArg leValue (memory.read_write_disjoint (by rwa [length_leBytes]))

@[simp] theorem putLong_putLong (start first second : Nat) :
    putLong (putLong memory start first) start second = putLong memory start second :=
  memory.write_write (by rw [length_leBytes, length_leBytes])

theorem getLword_behind (start at_ : Nat) :
    getLword (memory.behind start) at_ = getLword memory (start + at_) :=
  congrArg leValue (memory.read_behind start at_ 4)

theorem getLlword_behind (start at_ : Nat) :
    getLlword (memory.behind start) at_ = getLlword memory (start + at_) :=
  congrArg leValue (memory.read_behind start at_ 8)

end Fields

/-- A difference in `uint64_t`. -/
def sub64 (left right : Nat) : Nat :=
  (left + 2 ^ 64 - right % 2 ^ 64) % 2 ^ 64

def toUpper (byte : UInt8) : UInt8 :=
  if 97 ≤ byte ∧ byte ≤ 122 then byte - 32 else byte

/-- `ParsePartitionName`: every second byte up to a zero. -/
def parsePartitionName (memory : Memory) (start : Nat) : Bytes :=
  ((List.range (maxGptNameSize / 2)).map fun n => memory (start + 2 * n)).takeWhile (· ≠ 0)
    |>.map toUpper

/-- The name of the partition that takes the rest of a lun. -/
def userdataPartition : Bytes := ascii "USERDATA"

def mbrMagicNumPos : Nat := 0x1FE

/-- `CheckProtectiveMbr`, with the magic number and an entry of the type 0xEE. -/
def checkProtectiveMbr (memory : Memory) (imgLen : Nat) : Bool :=
  decide (mbrMagicNumPos + 1 ≤ imgLen) && memory mbrMagicNumPos = 0x55 &&
    memory (mbrMagicNumPos + 1) = 0xAA &&
    (List.range 4).any fun i =>
      decide (0x1BE + i * 0x10 + 4 < imgLen) && memory (0x1BE + i * 0x10 + 4) = 0xEE

/-- `CheckIfValidGpt`. -/
def checkIfValidGpt (memory : Memory) (gptImageLen : Nat) : Bool :=
  decide (8 ≤ gptImageLen) && getLlword memory 0 = efiMagicNumber

/-- `GPTHeaderInfo`. -/
structure GptHeaderInfo where
  headerSize : Nat
  partitionEntrySize : Nat
  maxPartitionCount : Nat
  firstUsableLba : Nat

/-- `GetPartitionGptHeaderInfo`. -/
def getPartitionGptHeaderInfo (buffer : Memory) (bufferLen : Nat) : Option GptHeaderInfo :=
  if bufferLen < lbaLength ∨ checkIfValidGpt buffer bufferLen = false then none
  else if getLword buffer partitionCountOffset = 0 ∨ getLword buffer pentrySizeOffset = 0 then none
  else some {
    headerSize := getLword buffer headerSizeOffset
    partitionEntrySize := getLword buffer pentrySizeOffset
    maxPartitionCount := getLword buffer partitionCountOffset
    firstUsableLba := getLlword buffer firstUsableLbaOffset }

theorem calculateCrc32_lt (buffer : Bytes) : calculateCrc32 buffer < 2 ^ 32 := by
  rw [calculateCrc32]
  split
  · decide
  · exact UInt32.toNat_lt _

/-- The header with a checksum over its first bytes. -/
def withHeaderCrc (header : Memory) : Memory :=
  let cleared := putLong header headerCrcOffset 0
  putLong cleared headerCrcOffset (calculateCrc32 (cleared.read 0 gptCrcLen))

/-- `PatchBackUpGptHeader`. -/
def patchBackUpGptHeader (gptHeader : Memory) (len backGptEntryStart : Nat) : Memory :=
  if partitionEntriesOffset + 8 > len ∨ headerCrcOffset + 4 > len then gptHeader
  else
    let headerOffset := getLlword gptHeader gptHeaderOffset
    let backHeaderOffset := getLlword gptHeader backupHeaderOffset
    let gptHeader := putLongLong gptHeader gptHeaderOffset backHeaderOffset
    let gptHeader := putLongLong gptHeader backupHeaderOffset headerOffset
    withHeaderCrc (putLongLong gptHeader partitionEntriesOffset backGptEntryStart)

/-- `CheckGptHeader`: the checksum over the whole header, and its values. -/
def checkGptHeader (buffer : Memory) (bufferLen lbaNum : Nat) (info : GptHeaderInfo) : Bool :=
  decide (lbaLength ≤ bufferLen) && lbaNum ≠ 0 &&
    decide (gptHeaderSize ≤ info.headerSize) && decide (info.headerSize ≤ bufferLen) &&
    calculateCrc32 ((putLong buffer headerCrcOffset 0).read 0 info.headerSize) =
      getLword buffer headerCrcOffset &&
    decide (info.firstUsableLba ≤ lbaNum) &&
    decide (getLlword buffer lastUsableLbaOffset % 2 ^ 32 ≤ lbaNum) &&
    info.partitionEntrySize = partitionEntrySize &&
    decide (info.maxPartitionCount ≤ minPartitionArraySize / partitionEntrySize) &&
    getLlword buffer gptHeaderOffset % 2 ^ 32 = 1

/-- `AdjustGpt`, of the entry at an address. -/
def adjustGpt (memory : Memory) (ptnInfo : Nat) (ptnName : Bytes) (preLastLba lastPtnLastLba : Nat) :
    Option Memory :=
  if ptnName = [] then none
  else if ptnName ≠ userdataPartition then
    let firstLba := getLlword memory (ptnInfo + firstLbaOffset)
    let lastLba := getLlword memory (ptnInfo + lastLbaOffset)
    let lastLba := (sub64 lastLba firstLba + preLastLba + 1) % 2 ^ 64
    let firstLba := (preLastLba + 1) % 2 ^ 64
    some (putLongLong (putLongLong memory (ptnInfo + firstLbaOffset) firstLba)
      (ptnInfo + lastLbaOffset) lastLba)
  else
    let firstLba := (preLastLba + 1) % 2 ^ 64
    if lastPtnLastLba < firstLba then none
    else
      some (putLongLong (putLongLong memory (ptnInfo + firstLbaOffset) firstLba)
        (ptnInfo + lastLbaOffset) lastPtnLastLba)

/-- `GptParseInfo`. -/
structure GptParseInfo where
  imgBlockSize : Nat
  devBlockSize : Nat
  devDensity : Nat

/-- `PtnInfo`, as far as partitions are read from the table and written into it. -/
structure PtnInfo where
  startAddr : Nat
  partitionSize : Nat
  partitionTypeGuid : Bytes
  lun : Nat
  gptEntryBufOffset : Nat
  isTailPart : Bool
  dispName : Bytes
  deriving DecidableEq

/-- The loop of `ChangeGpt`: before the entry of the name (`none`), and behind it, with the last
LBA of the partition before. Every turn takes an entry of the table. -/
def changeGptLoop (gptSize ptnEntrySize : Nat) (gptInfo : GptParseInfo) (modifyInfo : PtnInfo) :
    Nat → Memory → Nat → Nat → Option Nat → Option Memory
  | 0, _, _, _, _ => none
  | fuel + 1, memory, ptnInfo, readSize, preLastLba =>
      if gptSize ≤ readSize then some memory
      else
        let dispName := parsePartitionName memory (ptnInfo + gptPartitionNameOffset)
        let lastPtnLastLba := sub64 (gptInfo.devDensity / gptInfo.devBlockSize) 1
        if dispName = [] then some memory
        else
          match preLastLba with
          | some preLastLba =>
              match adjustGpt memory ptnInfo dispName preLastLba lastPtnLastLba with
              | none => none
              | some memory =>
                  changeGptLoop gptSize ptnEntrySize gptInfo modifyInfo fuel memory
                    (ptnInfo + ptnEntrySize) (readSize + ptnEntrySize)
                    (some (getLlword memory (ptnInfo + lastLbaOffset)))
          | none =>
              if dispName = modifyInfo.dispName then
                let firstLba := modifyInfo.startAddr / gptInfo.devBlockSize
                let lastLba :=
                  sub64 (firstLba + modifyInfo.partitionSize / gptInfo.devBlockSize) 1
                if dispName = userdataPartition ∧ lastLba ≠ lastPtnLastLba then none
                else
                  changeGptLoop gptSize ptnEntrySize gptInfo modifyInfo fuel
                    (putLongLong (putLongLong memory (ptnInfo + firstLbaOffset) firstLba)
                      (ptnInfo + lastLbaOffset) lastLba)
                    (ptnInfo + ptnEntrySize) (readSize + ptnEntrySize) (some lastLba)
              else
                changeGptLoop gptSize ptnEntrySize gptInfo modifyInfo fuel memory
                  (ptnInfo + ptnEntrySize) (readSize + ptnEntrySize) none

/-- `ChangeGpt`, of the table at an address. -/
def changeGpt (fuel : Nat) (memory : Memory) (gptBuf gptSize : Nat) (gptInfo : GptParseInfo)
    (modifyInfo : PtnInfo) : Option Memory :=
  if gptSize = 0 ∨ gptSize ≤ gptInfo.imgBlockSize ∨ gptInfo.devBlockSize = 0 then none
  else
    let gptHead := gptBuf + gptInfo.imgBlockSize
    let ptnEntrySize := getLlword memory (gptHead + pentrySizeOffset) % 2 ^ 32
    let ptnStart := getLlword memory (gptHead + partitionEntriesOffset)
    let readSize := ptnStart * gptInfo.imgBlockSize % 2 ^ 64
    changeGptLoop gptSize ptnEntrySize gptInfo modifyInfo fuel memory (gptBuf + readSize) readSize
      none

end Updater.PtableParse
