import Updater.Package.ZipPkgParse

/-! `ZipPkgFile::LoadPackage`: the record at the end of the central directory, its entries
and their local headers. -/

set_option autoImplicit false

namespace Updater.Package

open Updater.Base

def localHeaderSignature : Nat := 0x04034b50

def centralSignature : Nat := 0x02014b50

def endCentralSignature : Nat := 0x06054b50

def dataDescSignature : Nat := 0x08074b50

def gpbddFlagMask : Nat := 0x0008

def maxFileName : Nat := 256

def bigSizeHeader : Nat := 20

/-- `sizeof(LocalFileHeader)`. -/
def localFileHeaderLen : Nat := 30

/-- `sizeof(DataDescriptor)`. -/
def dataDescriptorLen : Nat := 16

/-- `sizeof(CentralDirEntry)`. -/
def centralDirEntryLen : Nat := 46

/-- `sizeof(EndCentralDir)`. -/
def endCentralDirLen : Nat := 22

/-- `sizeof(Zip64EndCentralDirRecord)`. -/
def zip64EndCentralDirRecordLen : Nat := 56

/-- `sizeof(Zip64EndCentralDirLocator)`. -/
def zip64EndCentralDirLocatorLen : Nat := 20

def uintMax : Nat := 2 ^ 32 - 1

/-- The buffer of `ParseFileEntries`. -/
def zipBuffLen : Nat :=
  maxFileName + localFileHeaderLen + dataDescriptorLen + centralDirEntryLen + bigSizeHeader

/-- What is decoded of an entry. -/
structure ZipEntry where
  identity : Bytes
  method : Nat
  modifiedTime : Nat
  modifiedDate : Nat
  crc32 : Nat
  packedSize : Nat
  unpackedSize : Nat
  headerOffset : Nat
  dataOffset : Nat
  deriving DecidableEq, Repr

structure EndCentralDir where
  signature : Nat
  numDisk : Nat
  startDiskOfCentralDir : Nat
  totalEntriesInThisDisk : Nat
  totalEntries : Nat
  sizeOfCentralDir : Nat
  offset : Nat
  commentLen : Nat
  deriving DecidableEq, Repr

/-- A file, and the memory behind the buffers that it is read into. -/
structure ZipInput where
  file : Bytes
  heap : Nat → UInt8

/-- A read of at most `needRead` bytes to the front of a buffer. -/
def readFront (file buffer : Bytes) (start needRead : Nat) : Option Bytes :=
  (fileRead file start needRead).map fun bytes => bytes ++ buffer.drop bytes.length

/-- `DoDecodeCentralDirEntry`; `data` gives the bytes at an offset of the buffer. -/
def doDecodeCentralDirEntry (data : Nat → Nat → Bytes) (identity : Bytes)
    (nameSize extraSize : Nat) : ZipEntry :=
  let packedSize := leValue (data 20 4)
  let unpackedSize := leValue (data 24 4)
  let headerOffset := leValue (data 42 4)
  let entry : ZipEntry := {
    identity
    method := leValue (data 10 2)
    modifiedTime := leValue (data 12 2)
    modifiedDate := leValue (data 14 2)
    crc32 := leValue (data 16 4)
    packedSize
    unpackedSize
    headerOffset
    dataOffset := 0 }
  let extraData := nameSize + centralDirEntryLen
  if extraSize = 0 ∨ leValue (data extraData 2) ≠ 1 then entry
  else
    let first := leValue (data (extraData + 4) 8)
    let second := leValue (data (extraData + 12) 8)
    let third := leValue (data (extraData + bigSizeHeader) 8)
    if packedSize = uintMax ∨ unpackedSize = uintMax then
      { entry with
        unpackedSize := (if unpackedSize = uintMax then first else unpackedSize)
        packedSize := (if packedSize = uintMax then second else packedSize)
        headerOffset := (if headerOffset = uintMax then third else headerOffset) }
    else if headerOffset = uintMax then { entry with headerOffset := first }
    else entry

/-- The length of a name that is kept. -/
def fileNameLength (nameSize : Nat) : Nat :=
  if nameSize ≥ maxFileName then maxFileName - 1 else nameSize

/-- The length of an entry of the central directory, with all its variable fields. -/
def centralDirLen (data : Nat → Nat → Bytes) : Nat :=
  centralDirEntryLen + leValue (data 28 2) + leValue (data 30 2) + leValue (data 32 2)

/-- `DecodeCentralDirEntry`; gives the length of the entry as well. -/
def decodeCentralDirEntry (data : Nat → Nat → Bytes) (readLen currentPos : Nat) :
    Option (ZipEntry × Nat) :=
  let nameSize := leValue (data 28 2)
  let extraSize := leValue (data 30 2)
  let currLen := centralDirLen data
  if readLen < centralDirEntryLen then none
  else if leValue (data 0 4) ≠ centralSignature then none
  else if currentPos ≥ 2 ^ 64 - 1 - currLen then none
  else if readLen < centralDirEntryLen + fileNameLength nameSize then none
  else
    let identity := data centralDirEntryLen (fileNameLength nameSize)
    some (doDecodeCentralDirEntry data identity nameSize extraSize, currLen)

/-- The fields of the record at the end of the directory. -/
def readEndDir (data : Nat → Nat → Bytes) : EndCentralDir :=
  { signature := leValue (data 0 4)
    numDisk := leValue (data 4 2)
    startDiskOfCentralDir := leValue (data 6 2)
    totalEntriesInThisDisk := leValue (data 8 2)
    totalEntries := leValue (data 10 2)
    sizeOfCentralDir := leValue (data 12 4)
    offset := leValue (data 16 4)
    commentLen := leValue (data 20 2) }

namespace ZipInput

variable (input : ZipInput)

/-- Memory at a buffer. -/
def memory (buffer : Bytes) (start count : Nat) : Bytes :=
  (List.range count).map fun i => buffer.getD (start + i) (input.heap (start + i))

/-- A read into all of a buffer, and how many bytes it gave. -/
def readAll (buffer : Bytes) (start : Nat) : Option (Bytes × Nat) :=
  (readInto input.file buffer start).map fun next =>
    (next, (slice input.file start buffer.length).length)

/-- `DecodeLocalFileHeaderCheck`; leaves the buffer with what was read last. -/
def decodeLocalFileHeaderCheck (entry : ZipEntry) (buffer : Bytes) (currentPos : Nat) :
    Option Bytes :=
  let data := input.memory buffer
  if leValue (data 6 2) &&& gpbddFlagMask = gpbddFlagMask then do
    let (buffer, readLen) ← input.readAll buffer ((currentPos + entry.packedSize) % 2 ^ 64)
    let data := input.memory buffer
    if readLen < dataDescriptorLen then none
    else if leValue (data 0 4) ≠ dataDescSignature then none
    else if entry.crc32 ≠ leValue (data 4 4) then none
    else pure buffer
  else if entry.crc32 ≠ leValue (data 14 4) then none
  else some buffer

/-- `DecodeLocalFileHeader`; gives the method and the length of the header. -/
def decodeLocalFileHeader (entry : ZipEntry) (buffer : Bytes) (currentPos : Nat) :
    Option (Nat × Nat × Bytes) := do
  let (buffer, readLen) ← input.readAll buffer currentPos
  let data := input.memory buffer
  if readLen < localFileHeaderLen then none
  else if leValue (data 0 4) ≠ localHeaderSignature then none
  else do
    let nameSize := leValue (data 26 2)
    let currLen := localFileHeaderLen + nameSize + leValue (data 28 2)
    if currentPos ≥ 2 ^ 64 - 1 - currLen then none
    else if readLen < localFileHeaderLen + fileNameLength nameSize then none
    else if entry.identity ≠ data localFileHeaderLen (fileNameLength nameSize) then none
    else do
      let method := leValue (data 8 2)
      let buffer ← input.decodeLocalFileHeaderCheck entry buffer (currentPos + currLen)
      pure (method, currLen, buffer)

/-- `ZipFileEntry::DecodeHeader`; gives the length of the entry in the directory. -/
def decodeHeader (buffer : Bytes) (headerOffset : Nat) : Option (ZipEntry × Nat × Bytes) :=
  if headerOffset ≥ 2 ^ 64 - 1 - buffer.length then none
  else do
    let (buffer, readLen) ← input.readAll buffer headerOffset
    let (entry, decodeLen) ← decodeCentralDirEntry (input.memory buffer) readLen headerOffset
    let (method, headerLen, buffer) ← input.decodeLocalFileHeader entry buffer entry.headerOffset
    pure ({ entry with method, dataOffset := entry.headerOffset + headerLen }, decodeLen, buffer)

/-- The loop of `ParseFileEntries`. -/
def parseFileEntries : Nat → Nat → Bytes → Option (List ZipEntry)
  | 0, _, _ => some []
  | count + 1, currentPos, buffer =>
      if input.file.length ≤ currentPos then none
      else do
        let (entry, decodeLen, buffer) ← input.decodeHeader buffer currentPos
        let entries ← parseFileEntries count (currentPos + decodeLen) buffer
        pure (entry :: entries)

/-- Where the directory begins: for `UINT_MAX` where the record of zip64 says. -/
def directoryStart (buffer : Bytes) (endDir : EndCentralDir) (endDirPos : Nat) : Nat :=
  if endDir.offset ≠ uintMax ∨ endDirPos < zip64EndCentralDirLocatorLen then endDir.offset
  else
    match readFront input.file buffer (endDirPos - zip64EndCentralDirLocatorLen)
        zip64EndCentralDirLocatorLen with
    | none => endDir.offset
    | some buffer =>
        if leValue (input.memory buffer 0 4) ≠ 0x07064b50 then endDir.offset
        else
          let currentPos := leValue (input.memory buffer 8 8)
          match readFront input.file buffer currentPos zip64EndCentralDirRecordLen with
          | none => currentPos
          | some buffer =>
              if leValue (input.memory buffer 0 4) = 0x06064b50 then
                leValue (input.memory buffer 48 8)
              else currentPos

/-- The format of the record; the sums are of 32 bits. -/
def endDirAccepted (endDir : EndCentralDir) : Bool :=
  endDir.numDisk = 0 && endDir.signature = endCentralSignature &&
    endDir.startDiskOfCentralDir = 0 && endDir.offset < input.file.length &&
    endDir.totalEntriesInThisDisk = endDir.totalEntries &&
    (endDir.offset + endDir.sizeOfCentralDir + endCentralDirLen) % 2 ^ 32 ≤ input.file.length

/-- `LoadPackage` from the record at the end of the directory on. -/
def loadDirectory (buffer : Bytes) (endDirPos : Nat) : Option (List ZipEntry) :=
  let endDir := readEndDir (input.memory buffer)
  if input.endDirAccepted endDir then
    input.parseFileEntries endDir.totalEntries (input.directoryStart buffer endDir endDirPos)
      (List.replicate zipBuffLen 0)
  else none

/-- `LoadPackage`: what does not end with the record is taken as signed. -/
def loadPackage : Option (List ZipEntry) :=
  if input.file.length < endCentralDirLen then none
  else do
    let endDirPos := input.file.length - endCentralDirLen
    let buffer ← readFront input.file (List.replicate zip64EndCentralDirRecordLen 0) endDirPos
      endCentralDirLen
    if leValue (input.memory buffer 0 4) ≠ endCentralSignature then do
      let sign ← parsePkg input.file
      let endDirPos := endDirPos - sign.signCommentTotalLen
      let buffer ← readFront input.file buffer endDirPos endCentralDirLen
      input.loadDirectory buffer endDirPos
    else input.loadDirectory buffer endDirPos

end ZipInput

end Updater.Package
