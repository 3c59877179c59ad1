import Updater.DiffPatch.ImageDiff

/-! `ZipImageDiff`: the entries of a new zip package become raw and deflate blocks
against the entries of the same names in an old one. -/

set_option autoImplicit false

namespace Updater.DiffPatch

open Updater.Base

def zipMaxLevel : Nat := 9

/-- `Z_DEFLATED`. -/
def zDeflated : Int := 8

/-- `Z_STORED`. -/
def zStored : Int := 0

def localHeaderSignature : Nat := 0x04034b50

def dataDescSignature : Nat := 0x08074b50

/-- `sizeof(LocalFileHeader)`. -/
def localFileHeaderSize : Nat := 30

/-- File information of an entry as `ZipFileEntry::DecodeHeader` leaves it;
`hasDataDesc` is the flag in its local header. -/
structure ZipEntry where
  identity : String
  headerOffset : Nat
  headerLen : Nat
  packedSize : Nat
  unpackedSize : Nat
  method : Int
  crc : Nat
  hasDataDesc : Bool
  deriving DecidableEq, Repr

def ZipEntry.dataOffset (info : ZipEntry) : Nat :=
  info.headerOffset + info.headerLen

/-- `GET_REAL_DATA_LEN`. -/
def ZipEntry.realDataLen (info : ZipEntry) : Nat :=
  info.packedSize + info.dataOffset - info.headerOffset

/-- The compression fields, which `DecodeLocalFileHeader` sets but for the method. -/
def ZipEntry.config (info : ZipEntry) : ZipConfig where
  level := 9
  method := info.method
  windowBits := -15
  memLevel := 8
  strategy := 0

/-- What `DecodeLocalFileHeader` has checked of an entry. -/
structure ZipEntry.Decoded (buffer : Bytes) (info : ZipEntry) : Prop where
  signature : slice buffer info.headerOffset 4 = leBytes 4 localHeaderSignature
  headerLen : localFileHeaderSize ≤ info.headerLen
  dataDesc : info.hasDataDesc = true →
    slice buffer (info.dataOffset + info.packedSize) 4 = leBytes 4 dataDescSignature
  sized : info.unpackedSize < 2 ^ 64

/-- A parsed package; its directory counts the entries in 16 bits. -/
structure ZipPackage where
  buffer : Bytes
  entries : List ZipEntry
  counted : entries.length < 2 ^ 16
  decoded : ∀ info ∈ entries, info.Decoded buffer

namespace ZipPackage

variable (codec : Codec) (package : ZipPackage)

def fileIds : List String :=
  package.entries.map ZipEntry.identity

def getFileInfo (fileName : String) : Option ZipEntry :=
  package.entries.find? fun info => info.identity = fileName

/-- `ZipFileEntry::Unpack`. -/
def unpack (info : ZipEntry) : Option Bytes := do
  let packed ← readRange package.buffer info.dataOffset info.packedSize
  let data ←
    (if info.method = zStored then some packed
    else if info.method = zDeflated then
      codec.decompress (.zip info.config) packed info.unpackedSize
    else none)
  if info.crc ≠ 0 ∧ codec.crc32 data ≠ info.crc then none else pure data

/-- `ImageParser::Extract`. -/
def extract (fileName : String) : Option Bytes := do
  let info ← package.getFileInfo fileName
  let data ← package.unpack codec info
  if info.unpackedSize ≠ data.length then none else pure data

end ZipPackage

/-- `CompressData`, which refuses an empty buffer. -/
def compressData (codec : Codec) (config : ZipConfig) (data : Bytes) : Option Bytes :=
  if data = [] then none else codec.compress (.zip config) data

/-- The loop of `TestAndSetConfig` over the levels below `count`, from the highest. -/
def testLevels (codec : Codec) (config : ZipConfig) (data packed : Bytes) : Nat → Option ZipConfig
  | 0 => none
  | level + 1 => do
      let out ← compressData codec { config with level := level } data
      if out = packed then some { config with level := level }
      else testLevels codec config data packed level

/-- Members of a `ZipImageDiff` while it goes through the entries. -/
structure ZipDiffState where
  updateBlocks : List ImageBlock
  oldOffset : Nat
  newOffset : Nat
  config : ZipConfig
  deriving DecidableEq, Repr

section

variable (codec : Codec) (new old : ZipPackage)

/-- `TestAndSetConfig`: the highest level that gives the packed data of the entry. -/
def testAndSetConfig (info : ZipEntry) (data : Bytes) : Option ZipConfig := do
  let packed ← readRange new.buffer info.dataOffset info.packedSize
  testLevels codec info.config data packed (zipMaxLevel + 1)

/-- `UpdateBlocks`: the local header as a raw block, and the packed data. -/
def updateBlocks (newFileInfo oldFileInfo : ZipEntry) (oldBuffer newBuffer : Bytes) :
    List ImageBlock :=
  (if newFileInfo.dataOffset > newFileInfo.headerOffset then [{
    type := .raw
    newInfo := ⟨newFileInfo.headerOffset, newFileInfo.dataOffset - newFileInfo.headerOffset⟩
    oldInfo := ⟨oldFileInfo.headerOffset, oldFileInfo.dataOffset - oldFileInfo.headerOffset⟩ }]
  else []) ++ [{
    type := .deflate
    newInfo := ⟨newFileInfo.dataOffset, newFileInfo.packedSize⟩
    oldInfo := ⟨oldFileInfo.dataOffset, oldFileInfo.packedSize⟩
    srcOriginalData := oldBuffer
    destOriginalData := newBuffer }]

/-- `DiffFile`; `none` makes `MakePatch` fall back on the whole images. -/
def diffFile (limit : Nat) (st : ZipDiffState) (fileName : String) : Option ZipDiffState := do
  let newBuffer ← new.extract codec fileName
  let newFileInfo ← new.getFileInfo fileName
  let newOffset := st.newOffset + newFileInfo.realDataLen
  if limit ≠ 0 ∧ newFileInfo.unpackedSize ≥ limit then none
  else
    match old.extract codec fileName with
    | none =>
        pure { st with
          newOffset
          updateBlocks := st.updateBlocks ++ [{
            type := .raw
            newInfo := ⟨newFileInfo.headerOffset, newFileInfo.realDataLen⟩
            oldInfo := ⟨0, old.buffer.length⟩ }] }
    | some oldBuffer => do
        let oldFileInfo ← old.getFileInfo fileName
        let config ← testAndSetConfig codec new newFileInfo newBuffer
        pure {
          updateBlocks := st.updateBlocks ++ updateBlocks newFileInfo oldFileInfo oldBuffer newBuffer
          oldOffset := st.oldOffset + oldFileInfo.realDataLen
          newOffset
          config }

/-- The members before the first entry. -/
def ZipDiffState.start : ZipDiffState where
  updateBlocks := []
  oldOffset := 0
  newOffset := 0
  config := { level := 0, method := 0, windowBits := 0, memLevel := 0, strategy := 0 }

def ZipPackage.images : Images :=
  { new := new.buffer, old := old.buffer }

/-- What lies behind the entries, by their lengths, is one more raw block. -/
def trailingBlock (st : ZipDiffState) : List ImageBlock :=
  if st.newOffset < new.buffer.length then [{
    type := .raw
    newInfo := ⟨st.newOffset, new.buffer.length - st.newOffset⟩
    oldInfo := ⟨st.oldOffset, old.buffer.length - st.oldOffset⟩ }]
  else []

/-- The blocks of `CompressedImageDiff::MakePatch`, and the members at its end. -/
def zipBlocks (limit : Nat) : ZipConfig × List ImageBlock :=
  if limit ≠ 0 ∧ new.buffer.length ≥ limit then
    (ZipDiffState.start.config, splitImage limit old.buffer.length new.buffer.length)
  else
    match new.fileIds.foldlM (diffFile codec new old limit) .start with
    | none => (ZipDiffState.start.config, imageBlocks (new.images old) limit)
    | some st => (st.config, st.updateBlocks ++ trailingBlock new old st)

end

/-- `ZipImageDiff::WriteHeader`, with the members of the whole diff. -/
def zipWriteHeader (blockPatch : BlockPatch) (images : Images) (config : ZipConfig)
    (usePatchFile : Bool) (files : DiffFiles) (block : ImageBlock) :
    Option (DiffFiles × ImageBlock) :=
  if block.type = .deflate then do
    let (files, block, patchSize) ←
      makeBlockPatch blockPatch usePatchFile files block block.destOriginalData
        block.srcOriginalData
    pure ({ files with
      patchFile := files.patchFile ++ leBytes 8 block.oldInfo.start ++
        leBytes 8 block.oldInfo.length ++ leBytes 8 files.dataOffset ++
        leBytes 8 block.srcOriginalData.length ++ leBytes 8 block.destOriginalData.length ++
        leInt32 config.level ++ leInt32 config.method ++ leInt32 config.windowBits ++
        leInt32 config.memLevel ++ leInt32 config.strategy
      dataOffset := files.dataOffset + patchSize }, block)
  else imageWriteHeader blockPatch images usePatchFile files block

/-- `CompressedImageDiff::MakePatch` for zip packages. -/
def zipMakePatch (blockPatch : BlockPatch) (codec : Codec) (new old : ZipPackage) (limit : Nat) :
    Option Bytes :=
  let (config, blocks) := zipBlocks codec new old limit
  diffImage (zipWriteHeader blockPatch (new.images old) config) blocks

end Updater.DiffPatch
