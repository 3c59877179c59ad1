import Updater.Base.Bytes

/-! `UpgradePkgFile::LoadPackage`: the header, components, chunk information, image
hashes and signature of an upgrade package, and what the digest is fed with. -/

set_option autoImplicit false

namespace Updater.Package

open Updater.Base

/-- `sizeof(PkgTlv)`. -/
def pkgTlvLen : Nat := 4

/-- `sizeof(UpgradePkgHeader)`. -/
def upgradePkgHeaderLen : Nat := 136

/-- `sizeof(UpgradePkgTime)`. -/
def upgradePkgTimeLen : Nat := 32

/-- `sizeof(UpgradeCompInfo)`. -/
def upgradeCompInfoLen : Nat := 87

/-- `UPGRADE_FILE_HEADER_LEN`. -/
def upgradeFileHeaderLen : Nat := 3 * pkgTlvLen + upgradePkgHeaderLen + upgradePkgTimeLen

/-- `UPGRADE_FILE_BASIC_LEN`. -/
def upgradeFileBasicLen : Nat := 2 * pkgTlvLen + upgradePkgHeaderLen + upgradePkgTimeLen

def upgradeReserveLen : Nat := 16

def hashTlvSize : Nat := 6

def signSha256Len : Nat := 256

def signSha384Len : Nat := 384

/-- `GetUpgradeSignatureLen`. -/
def upgradeSignatureLen : Nat := signSha256Len + signSha384Len

inductive DigestMethod where
  | sha256
  | sha384
  deriving DecidableEq, Repr

/-- A component: what its entry of the header says and where it lies. -/
structure UpgradeEntry where
  identity : Bytes
  version : Bytes
  digest : Bytes
  id : Nat
  resType : Nat
  compFlags : Nat
  type : Nat
  packedSize : Nat
  originalSize : Nat
  headerOffset : Nat
  dataOffset : Nat
  deriving DecidableEq, Repr

structure UpgradeChunkInfo where
  chunkListCount : Nat := 0
  chunkListSize : Nat := 0
  partitionNum : Nat := 0
  imageSizeMap : List (Bytes × Nat) := []
  imageHashMap : List (Bytes × Bytes) := []
  deriving DecidableEq, Repr

/-- Members of the package while it is loaded, `parsedLen`, and the bytes that went
into the digest; `none` is one from behind the end of a buffer. -/
structure UpgradeState where
  digestMethod : DigestMethod := .sha256
  updateFileVersion : Nat := 0
  updateFileType : Nat := 0
  productUpdateId : Bytes := []
  softwareVersion : Bytes := []
  date : Bytes := []
  time : Bytes := []
  descriptPackageId : Bytes := []
  entries : List UpgradeEntry := []
  chunkInfo : UpgradeChunkInfo := {}
  parsedLen : Nat := 0
  fed : List (Option UInt8) := []
  deriving DecidableEq, Repr

/-- `ConvertBufferToString`: up to the first byte that is not printable. -/
def convertBufferToString (buffer : Bytes) : Bytes :=
  buffer.takeWhile fun byte => 32 ≤ byte.toNat ∧ byte.toNat < 127

/-- `FileStream::Read`: fewer bytes at the end of the file, but not none. -/
def fileRead (file : Bytes) (start needRead : Nat) : Option Bytes :=
  if start > file.length ∨ slice file start needRead = [] then none
  else some (slice file start needRead)

/-- A read over the contents of a buffer. -/
def readInto (file buffer : Bytes) (start : Nat) : Option Bytes :=
  (fileRead file start buffer.length).map fun bytes => bytes ++ buffer.drop bytes.length

/-- A read into a new buffer. -/
def readBuffer (file : Bytes) (start size : Nat) : Option Bytes :=
  readInto file (List.replicate size 0) start

/-- The first bytes at a buffer that `Update` gets. -/
def fedBytes (buffer : Bytes) (count : Nat) : List (Option UInt8) :=
  (List.range count).map fun i => buffer[i]?

namespace UpgradeState

/-- `Update` of the digest. -/
def update (st : UpgradeState) (buffer : Bytes) (count : Nat) : UpgradeState :=
  { st with fed := st.fed ++ fedBytes buffer count }

/-- `AddDataOffset` of all entries, in 64 bits. -/
def addDataOffset (st : UpgradeState) (offset : Nat) : UpgradeState :=
  { st with entries := st.entries.map fun entry =>
      { entry with dataOffset := (entry.dataOffset + offset) % 2 ^ 64 } }

end UpgradeState

/-- What a run depends on: the file, the memory behind its buffers, whether the update
mode asks for the image hashes, and whether their data is accepted. -/
structure UpgradeInput where
  file : Bytes
  heap : Nat → UInt8
  checksImgHash : Bool
  parsesImgHash : Nat → Bytes → Bool

namespace UpgradeInput

variable (input : UpgradeInput)

/-- Memory at a buffer. -/
def memory (buffer : Bytes) (start count : Nat) : Bytes :=
  (List.range count).map fun i => buffer.getD (start + i) (input.heap (start + i))

/-- `TLV_CHECK_AND_RETURN` with the file's length. -/
def tlvChecked (type length tlvType least : Nat) : Bool :=
  length < input.file.length && least ≤ length && type = tlvType &&
    length + pkgTlvLen < input.file.length

/-- `ReadUpgradePkgHeader`, with `ParsePkgHeaderToTlv`. -/
def readUpgradePkgHeader : Option UpgradeState := do
  let buffer ← readBuffer input.file 0 upgradeFileBasicLen
  let readLen := (slice input.file 0 upgradeFileBasicLen).length
  let tlvType := leValue (input.memory buffer 0 2)
  let tlvLength := leValue (input.memory buffer 2 2)
  let st : UpgradeState := {
    digestMethod := if tlvType = 0x11 then .sha384 else .sha256
    updateFileVersion := leValue (input.memory buffer 8 2)
    updateFileType := leValue (input.memory buffer 10 2)
    productUpdateId := convertBufferToString (input.memory buffer 12 64)
    softwareVersion := convertBufferToString (input.memory buffer 76 64) }
  -- an extra long first TLV is digested from the buffer, and the buffer read anew behind it
  let (st, buffer, currLen) ← (
    if pkgTlvLen + tlvLength ≥ readLen then
      (readInto input.file buffer (pkgTlvLen + tlvLength)).map fun next =>
        ({ st.update buffer (pkgTlvLen + tlvLength) with parsedLen := pkgTlvLen + tlvLength },
          next, 0)
    else some (st, buffer, pkgTlvLen + tlvLength))
  let timeType := leValue (input.memory buffer currLen 2)
  let timeLength := leValue (input.memory buffer (currLen + 2) 2)
  if input.tlvChecked timeType timeLength 2 upgradePkgTimeLen then
    let data := currLen + pkgTlvLen
    pure ({ st with
      date := convertBufferToString (input.memory buffer data 16)
      time := convertBufferToString (input.memory buffer (data + 16) 16)
      parsedLen := st.parsedLen + (data + timeLength) }.update buffer (data + timeLength))
  else none

/-- `UpgradeFileEntry::DecodeHeader`. -/
def decodeHeader (updateFileVersion : Nat) (buffer : Bytes) (headerOffset dataOffset : Nat) :
    Option UpgradeEntry :=
  if buffer.length < upgradeCompInfoLen then none
  else some {
    identity := convertBufferToString (slice buffer 0 32)
    id := leValue (slice buffer 32 2)
    resType := leValue (slice buffer 34 1)
    compFlags := leValue (slice buffer 35 1)
    type := leValue (slice buffer 36 1)
    version := convertBufferToString (slice buffer 37 10)
    packedSize :=
      if updateFileVersion ≥ 3 then leValue (slice buffer 47 8) else leValue (slice buffer 47 4)
    originalSize := if updateFileVersion ≥ 3 then 0 else leValue (slice buffer 51 4)
    digest := slice buffer 55 32
    headerOffset
    dataOffset }

/-- `UpgradeParam`, with the buffer it is about. -/
structure UpgradeParam where
  compBuffer : Bytes
  readLen : Nat
  dataOffset : Nat
  srcOffset : Nat
  currLen : Nat
  deriving DecidableEq, Repr

/-- `SaveEntry`. -/
def saveEntry (st : UpgradeState) (info : UpgradeParam) : Option (UpgradeState × UpgradeParam) := do
  let headerBuff := slice info.compBuffer info.currLen (info.readLen - info.currLen)
  let entry ← decodeHeader st.updateFileVersion headerBuff (st.parsedLen + info.srcOffset)
    info.dataOffset
  pure ({ st.update (info.compBuffer.drop info.currLen) upgradeCompInfoLen with
      entries := st.entries ++ [entry] },
    { info with
      currLen := info.currLen + upgradeCompInfoLen
      srcOffset := info.srcOffset + upgradeCompInfoLen
      dataOffset := (info.dataOffset + entry.packedSize) % 2 ^ 64 })

/-- The read at the head of the loop of `ReadComponents`. -/
def nextComponent (st : UpgradeState) (info : UpgradeParam) : Option UpgradeParam :=
  if info.currLen + upgradeCompInfoLen > info.readLen then
    (readInto input.file info.compBuffer (st.parsedLen + info.srcOffset)).map fun compBuffer =>
      { info with
        compBuffer
        readLen := (slice input.file (st.parsedLen + info.srcOffset) info.compBuffer.length).length
        currLen := 0 }
  else some info

theorem nextComponent_srcOffset {input : UpgradeInput} {st : UpgradeState}
    {info next : UpgradeParam} (read : input.nextComponent st info = some next) :
    next.srcOffset = info.srcOffset := by
  unfold nextComponent at read
  split at read
  · obtain ⟨_, _, rfl⟩ := Option.map_eq_some_iff.mp read
    rfl
  · cases read
    rfl

theorem saveEntry_srcOffset {st st' : UpgradeState} {info next : UpgradeParam}
    (saved : saveEntry st info = some (st', next)) :
    next.srcOffset = info.srcOffset + upgradeCompInfoLen := by
  simp only [saveEntry, Option.bind_eq_bind] at saved
  obtain ⟨_, _, saved⟩ := Option.bind_eq_some_iff.mp saved
  cases saved
  rfl

/-- The loop of `ReadComponents`; gives how much was consumed. -/
def componentLoop (tlvLength : Nat) (st : UpgradeState) (info : UpgradeParam) :
    Option (UpgradeState × Nat) :=
  if _more : info.srcOffset < tlvLength then
    match _read : input.nextComponent st info with
    | none => none
    | some ready =>
        match _saved : saveEntry st ready with
        | none => none
        | some (st, next) => componentLoop tlvLength st next
  else some (st, info.srcOffset)
termination_by tlvLength - info.srcOffset
decreasing_by
  have saved := saveEntry_srcOffset _saved
  have read := nextComponent_srcOffset _read
  have size : upgradeCompInfoLen = 87 := rfl
  omega

/-- The TLV at the head of `ReadComponents`; gives the length it declares. -/
def componentTlv (st : UpgradeState) : Option (UpgradeState × Nat) := do
  let buffer ← readBuffer input.file st.parsedLen pkgTlvLen
  let tlvType := leValue (slice buffer 0 2)
  let tlvLength := leValue (slice buffer 2 2)
  if input.tlvChecked tlvType tlvLength 5 upgradeCompInfoLen then
    pure ({ st.update buffer pkgTlvLen with parsedLen := st.parsedLen + pkgTlvLen }, tlvLength)
  else none

/-- `ReadComponents`. -/
def readComponents (st : UpgradeState) : Option UpgradeState := do
  let readLen := (slice input.file st.parsedLen pkgTlvLen).length
  let (st, tlvLength) ← input.componentTlv st
  let (st, consumed) ← input.componentLoop tlvLength st {
    compBuffer := List.replicate upgradeCompInfoLen 0
    readLen
    dataOffset := st.parsedLen + tlvLength + upgradeReserveLen
    srcOffset := 0
    currLen := pkgTlvLen }
  pure { st with parsedLen := st.parsedLen + consumed }

/-- A TLV whose type and length fields take `lenOffset` and `size - lenOffset` bytes:
its head and then its value are read and digested. `ReadChunkTlv` and `ReadImgHashTLV`
are of this kind. -/
def readTlv (size expectedType : Nat) (st : UpgradeState) : Option (Bytes × Bytes × UpgradeState) := do
  let head ← readBuffer input.file st.parsedLen size
  let st := { st.update head size with parsedLen := st.parsedLen + size }
  if leValue (slice head 0 2) = expectedType then do
    let length := leValue (slice head 2 (size - 2))
    let value ← readBuffer input.file st.parsedLen length
    pure (head, value, { st.update value length with parsedLen := st.parsedLen + length })
  else none

/-- `ReadChunkListInfo`. -/
def readChunkListInfo (st : UpgradeState) : Option UpgradeState := do
  let (_, value, st) ← input.readTlv hashTlvSize 0x10 st
  pure { st with chunkInfo := { st.chunkInfo with
    chunkListCount := leValue (input.memory value 0 4)
    chunkListSize := leValue (input.memory value 4 8) } }

/-- `ReadPartitionNumChunk`. -/
def readPartitionNumChunk (st : UpgradeState) : Option UpgradeState := do
  let (_, value, st) ← input.readTlv pkgTlvLen 0x16 st
  if value.length ≠ 2 then none
  else pure { st with chunkInfo := { st.chunkInfo with partitionNum := leValue value } }

/-- The chunks of one partition in the first loop of `ReadChunkInfo`. -/
def readImageSize (st : UpgradeState) : Option UpgradeState := do
  let (_, name, st) ← input.readTlv pkgTlvLen 0x20 st
  let (_, size, st) ← input.readTlv pkgTlvLen 0x19 st
  if size.length ≠ 8 then none
  else
    let name := 47 :: convertBufferToString name
    if name ∈ st.chunkInfo.imageSizeMap.map Prod.fst then none
    else pure { st with chunkInfo := { st.chunkInfo with
      imageSizeMap := st.chunkInfo.imageSizeMap ++ [(name, leValue size)] } }

/-- Those in the second loop. -/
def readImageHash (st : UpgradeState) : Option UpgradeState := do
  let (_, name, st) ← input.readTlv pkgTlvLen 0x17 st
  let (_, hash, st) ← input.readTlv pkgTlvLen 0x18 st
  let name := 47 :: convertBufferToString name
  if name ∈ st.chunkInfo.imageHashMap.map Prod.fst then none
  else pure { st with chunkInfo := { st.chunkInfo with
    imageHashMap := st.chunkInfo.imageHashMap ++ [(name, convertBufferToString hash)] } }

/-- A loop that calls a reader so many times. -/
def repeatRead (read : UpgradeState → Option UpgradeState) : Nat → UpgradeState → Option UpgradeState
  | 0, st => some st
  | count + 1, st => (read st).bind (repeatRead read count)

/-- `ReadChunkInfo`. -/
def readChunkInfo (st : UpgradeState) : Option UpgradeState :=
  if st.updateFileVersion < 5 ∨ st.updateFileType ≠ 1 then some st
  else do
    let beginParsedLen := st.parsedLen
    let st ← input.readChunkListInfo st
    let st ← input.readPartitionNumChunk st
    let st ← repeatRead input.readImageSize st.chunkInfo.partitionNum st
    let st ← repeatRead input.readImageHash st.chunkInfo.partitionNum st
    pure (st.addDataOffset (st.parsedLen - beginParsedLen))

/-- `ReadReserveData`. -/
def readReserveData (st : UpgradeState) : Option UpgradeState := do
  let buffer ← readBuffer input.file st.parsedLen upgradeReserveLen
  pure ({ st with
    descriptPackageId := convertBufferToString buffer
    parsedLen := st.parsedLen + upgradeReserveLen }.update buffer upgradeReserveLen)

/-- `ReadImgHashData`. -/
def readImgHashData (st : UpgradeState) : Option UpgradeState :=
  if ¬ input.checksImgHash ∨ st.updateFileVersion < 2 then some st
  else do
    let (infoHead, info, st) ← input.readTlv hashTlvSize 6 st
    let (dataHead, data, st) ← input.readTlv hashTlvSize 7 st
    let imgHashBuf := infoHead ++ info ++ (dataHead ++ data)
    let st := st.addDataOffset imgHashBuf.length
    if input.parsesImgHash st.updateFileVersion imgHashBuf then pure st else none

/-- `ReadSignData`, whose TLV is not digested. -/
def readSignData (st : UpgradeState) : Option (Bytes × UpgradeState) := do
  let head ← readBuffer input.file st.parsedLen hashTlvSize
  if leValue (slice head 0 2) = 8 then do
    let length := leValue (slice head 2 4)
    let signData ← readBuffer input.file (st.parsedLen + hashTlvSize) length
    pure (signData, { st with parsedLen := st.parsedLen + (hashTlvSize + length) }.addDataOffset
      (hashTlvSize + length))
  else none

/-- `ReadPackageInfo`: the signatures are digested as zeros. -/
def readPackageInfo (st : UpgradeState) : Option (Bytes × UpgradeState) := do
  let buffer ← readBuffer input.file st.parsedLen (upgradeReserveLen + upgradeSignatureLen)
  let signData :=
    match st.digestMethod with
    | .sha384 => slice buffer (upgradeReserveLen + signSha256Len) signSha384Len
    | .sha256 => slice buffer upgradeReserveLen signSha256Len
  let cleared := buffer.take upgradeReserveLen ++ List.replicate upgradeSignatureLen 0
  pure (signData, { (st.addDataOffset upgradeSignatureLen).update cleared
      (upgradeReserveLen + upgradeSignatureLen) with
    descriptPackageId := convertBufferToString (buffer.take upgradeReserveLen)
    parsedLen := st.parsedLen + (upgradeReserveLen + upgradeSignatureLen) })

/-- The loop of `Verify`, which digests the rest of the file. -/
def feedRest (st : UpgradeState) : UpgradeState :=
  { st with fed := st.fed ++ (input.file.drop st.parsedLen).map some }

/-- `LoadPackage` up to `VerifyFile`. -/
def readHeaders : Option UpgradeState :=
  if input.file.length < upgradeFileHeaderLen + upgradeCompInfoLen + upgradeSignatureLen +
      upgradeReserveLen then none
  else do
    let st ← input.readUpgradePkgHeader
    let st ← input.readComponents st
    input.readChunkInfo st

/-- `VerifyFileV2` up to `ReadSignData`. -/
def readBeforeSign (st : UpgradeState) : Option UpgradeState :=
  (input.readReserveData st).bind input.readImgHashData

/-- A run of `LoadPackage` up to `VerifyHeader`: where the signature TLV stands, and
what the digest was fed with. -/
def verifyHeaderInput : Option (Nat × List (Option UInt8)) := do
  let st ← input.readHeaders
  if st.updateFileVersion ≥ 2 then do
    let before ← input.readBeforeSign st
    let (_, st) ← input.readSignData before
    pure (before.parsedLen, st.fed)
  else none

/-- What a successful load leaves. -/
structure LoadedPackage where
  st : UpgradeState
  updateFileHeadLen : Nat
  deriving DecidableEq, Repr

/-- `LoadPackage`; `verifier` decides on what was digested and the signature, and
`VerifySign` does from version 4 on. -/
def loadPackage (verifier verifySign : List (Option UInt8) → Bytes → Bool) :
    Option LoadedPackage := do
  let st ← input.readHeaders
  let (accepted, st) ← (
    if st.updateFileVersion ≥ 2 then do
      let st ← input.readBeforeSign st
      let (signData, st) ← input.readSignData st
      pure ((if st.updateFileVersion ≥ 4 then verifySign else verifier) st.fed signData, st)
    else do
      let (signData, st) ← input.readPackageInfo st
      pure (verifier (input.feedRest st).fed signData, st))
  if accepted then pure ⟨st, st.parsedLen % 2 ^ 32⟩ else none

end UpgradeInput

end Updater.Package
