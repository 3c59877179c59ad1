import Updater.Package.ZipPkgPack
import Updater.Package.ZipPkgUnpack

/-! `GZipPkgFile`: a package of one entry, written, loaded and unpacked. -/

set_option autoImplicit false

namespace Updater.Package

open Updater.Base

def headerCrc : Nat := 0x02

def extraField : Nat := 0x04

def origName : Nat := 0x08

def comment : Nat := 0x10

def encrypted : Nat := 0x20

def gzipMagic : Nat := 0x8b1f

/-- `BUFFER_SIZE`. -/
def gzipBufferSize : Nat := 1024

/-- `BLOCK_SIZE`, of the CRC and the size behind the data. -/
def gzipBlockSize : Nat := 8

/-- `sizeof(GZipHeader)`, whose time is a `time_t`. -/
def gzipHeaderLen : Nat := 14

/-- `SIGN_SHA256_LEN + SIGN_SHA384_LEN`. -/
def signDataLen : Nat := 256 + 384

/-- What `AddEntry` is given: the `FileInfo`, whose time is the current one if there is none, and
the contents of the stream. -/
structure GZipFileInfo where
  identity : Bytes
  unpackedSize : Nat
  modifiedTime : Nat
  stream : Bytes

/-- What `Unpack` of an algorithm leaves: the result, what it wrote, and the sizes and the CRC of
the context. -/
structure GZipUnpacked where
  ret : Int
  bytes : Bytes
  packedSize : Nat
  unpackedSize : Nat
  crc : UInt32

/-- The algorithm of an entry. `unpack` is given the file and the range of the data. -/
structure GZipAlgorithm where
  pack : Bytes → Option ZipPacked
  unpack : Bytes → Nat → Nat → GZipUnpacked

structure GZipEntry where
  identity : Bytes
  headerOffset : Nat
  dataOffset : Nat
  packedSize : Nat
  unpackedSize : Nat
  deriving DecidableEq, Repr

/-- An entry that was written. -/
structure GZipAdded where
  info : GZipFileInfo
  packed : ZipPacked
  dataOffset : Nat

namespace GZipFileInfo

variable (info : GZipFileInfo)

/-- The size that `Init` takes; zero stands for the whole stream. -/
def initSize : Nat :=
  if info.unpackedSize = 0 then info.stream.length else info.unpackedSize

/-- The part of the stream that is packed. -/
def content : Bytes :=
  info.stream.take info.initSize

/-- The name in the header. `ConvertStringToBuffer` writes nothing of one that is too long, and its
error is not looked at. -/
def headerName : Bytes :=
  if gzipBufferSize - gzipHeaderLen < info.identity.length then [] else info.identity

/-- `GetUpGradeCompInfo`. The zero behind a name that fills the buffer lies behind it. -/
def getUpGradeCompInfo : Bytes :=
  leBytes 2 gzipMagic ++ (leBytes 1 zDeflated.toNat ++ (leBytes 1 origName ++
    (leBytes 8 info.modifiedTime ++ (leBytes 2 0 ++ (info.headerName ++ [0])))))

end GZipFileInfo

/-- What `Pack` writes behind the data. -/
def gzipTrailer (crc : UInt32) (unpackedSize : Nat) : Bytes :=
  leBytes 4 crc.toNat ++ leBytes 4 unpackedSize

/-- `GZipPkgFile::AddEntry`, which a package has only one of: the entry, and the file. -/
def gzipAddEntry (algorithm : GZipAlgorithm) (info : GZipFileInfo) : Option (GZipAdded × Bytes) :=
  if info.initSize = 0 then none
  else do
    let header := info.getUpGradeCompInfo
    let file ← streamWrite [] 0 header
    if info.stream.length < info.initSize then none
    else do
      let packed ← algorithm.pack info.content
      let file ← streamWrite file header.length packed.data
      let file ← streamWrite file (header.length + packed.data.length)
        (gzipTrailer packed.crc info.initSize)
      pure ({ info, packed, dataOffset := header.length }, file)

/-- `SavePackage`. `AddSignData` does not tell of a write that is refused, which may leave a part of
the data. -/
def gzipSavePackage (refused : Option Nat) (file : Bytes) : Bytes :=
  match refused with
  | none => file ++ List.replicate signDataLen 0
  | some left => file ++ (List.replicate signDataLen 0).take left

/-- `DecodeHeaderCalOffset`: the offset, and the name if there is one. -/
def decodeHeaderCalOffset (flags : Nat) (buffer : Bytes) (offset : Nat) : Nat × Bytes :=
  let offset :=
    if flags &&& extraField ≠ 0 then offset + 2 + leValue (slice buffer offset 2) else offset
  let named := decide (buffer.length > offset) && decide (flags &&& origName ≠ 0)
  let fileName := if named then convertBufferToString (buffer.drop offset) else []
  let offset := if named then offset + (fileName.length + 1) else offset
  let offset :=
    if buffer.length > offset ∧ flags &&& comment ≠ 0 then
      offset + ((convertBufferToString (buffer.drop offset)).length + 1)
    else offset
  (if flags &&& headerCrc ≠ 0 then offset + 2 else offset, fileName)

/-- `GZipFileEntry::DecodeHeader`, for the first node. -/
def gzipDecodeHeader (file buffer : Bytes) (headerOffset : Nat) : Option GZipEntry :=
  let flags := leValue (slice buffer 3 1)
  let (offset, fileName) := decodeHeaderCalOffset flags buffer gzipHeaderLen
  let dataOffset := headerOffset + offset
  let blockOffset := (file.length + 2 ^ 64 - gzipBlockSize) % 2 ^ 64
  (readFront file buffer blockOffset buffer.length).map fun buffer =>
    { identity := if fileName = [] then ascii "gzip_0" else fileName
      headerOffset
      dataOffset
      packedSize := (blockOffset + 2 ^ 64 - dataOffset) % 2 ^ 64
      unpackedSize := leValue (slice buffer 4 4) }

/-- `GZipPkgFile::LoadPackage`: its entry, if it succeeds. -/
def gzipLoadPackage (file : Bytes) : Option GZipEntry := do
  let buffer ← readFront file (List.replicate gzipBufferSize 0) 0 gzipBufferSize
  if leValue (slice buffer 0 2) ≠ gzipMagic then none
  else if leValue (slice buffer 3 1) &&& encrypted ≠ 0 then none
  else gzipDecodeHeader file buffer 0

/-- `GZipFileEntry::Unpack` with `CheckFileInfo`: the result, what is written, and the entry with
the CRC that was read. -/
def gzipUnpack (algorithm : GZipAlgorithm) (file : Bytes) (entry : GZipEntry) :
    Int × Bytes × GZipEntry × Nat :=
  let unpacked := algorithm.unpack file entry.dataOffset entry.packedSize
  if unpacked.ret ≠ pkgSuccess then (unpacked.ret, unpacked.bytes, entry, 0)
  else
    let entry := { entry with packedSize := unpacked.packedSize }
    match readFront file (List.replicate gzipBlockSize 0)
        (unpacked.packedSize + entry.dataOffset) gzipBlockSize with
    | none => (pkgInvalidStream, unpacked.bytes, entry, 0)
    | some buffer =>
        let crc32 := leValue (slice buffer 0 4)
        let entry := { entry with unpackedSize := leValue (slice buffer 4 4) }
        if crc32 ≠ unpacked.crc.toNat then (pkgVerifyFail, unpacked.bytes, entry, crc32)
        else if entry.unpackedSize ≠ unpacked.unpackedSize then
          (pkgVerifyFail, unpacked.bytes, entry, crc32)
        else (pkgSuccess, unpacked.bytes, entry, crc32)

end Updater.Package
