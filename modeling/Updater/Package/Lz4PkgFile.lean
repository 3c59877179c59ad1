import Updater.Package.GZipPkgFile
import Updater.Package.PkgAlgoLz4
import Updater.Package.PkgManagerLoad

/-! `Lz4PkgFile`: a package of one entry, written, loaded and unpacked. -/

set_option autoImplicit false

namespace Updater.Package

open Updater.Base

def lz4sMagicNumber : Nat := 0x184D2204

def pkgLz4Finish : Int := 204

/-- `PKG_COMPRESS_METHOD_LZ4` and `PKG_COMPRESS_METHOD_LZ4_BLOCK`. -/
inductive Lz4Method where
  | lz4
  | lz4Block
  deriving DecidableEq, Repr

/-- What `AddEntry` is given for an entry of blocks. -/
structure Lz4FileInfo where
  packedSize : Nat
  unpackedSize : Nat
  digestMethod : Nat
  blockSizeID : BlockSizeID

/-- The sizes that `Init` takes; zero stands for the length of the stream. -/
def Lz4FileInfo.init (info : Lz4FileInfo) (fileLength : Nat) : Lz4FileInfo :=
  { info with
    packedSize := if info.packedSize = 0 then fileLength else info.packedSize
    unpackedSize := if info.unpackedSize = 0 then fileLength else info.unpackedSize }

theorem size64_lt (value : Nat) : size64 value < 2 ^ 64 :=
  Nat.mod_lt _ zero_small

/-- The context of an entry, whose offsets and sizes are of 64 bits. -/
def lz4Context (srcOffset destOffset packedSize unpackedSize digestMethod : Nat) :
    PkgAlgorithmContext where
  srcOffset := size64 srcOffset
  destOffset := size64 destOffset
  packedSize := size64 packedSize
  unpackedSize := size64 unpackedSize
  crc := 0
  digestMethod
  digest := []
  srcSmall := size64_lt srcOffset
  destSmall := size64_lt destOffset
  packedSmall := size64_lt packedSize
  unpackedSmall := size64_lt unpackedSize

/-- The context of `Lz4FileEntry::Pack`. -/
def Lz4FileInfo.context (info : Lz4FileInfo) (startOffset : Nat) : PkgAlgorithmContext :=
  lz4Context 0 startOffset info.packedSize info.unpackedSize info.digestMethod

/-- `Lz4PkgFile::AddEntry`, which a package has only one of, for an entry of blocks: what `Pack`
leaves, for so many turns at most. Its header is empty. -/
def lz4AddEntry (lz4 : Lz4) (accepts : Accepts) (fuel : Nat) (info : Lz4FileInfo)
    (inStream : SourceStream) (fileLength : Nat) : Option Lz4Packed :=
  let info := info.init fileLength
  if info.unpackedSize = 0 then some ⟨pkgInvalidParam, info.context 0, [], []⟩
  else lz4Pack lz4 info.blockSizeID accepts fuel inStream (info.context 0)

/-- `Lz4PkgFile::SavePackage`: sign data from the size on that `Pack` has left, if there is a digest.
A write that is refused may have left some of it. -/
def lz4SavePackage (digestMethod : Nat) (refused : Option Nat) (currentOffset : Nat) (file : Bytes) :
    Bytes :=
  if digestMethod = 0 then file
  else fileWrite file currentOffset
    ((List.replicate signDataLen 0).take (refused.getD signDataLen))

structure Lz4Entry where
  identity : Bytes
  packMethod : Lz4Method
  headerOffset : Nat
  dataOffset : Nat
  packedSize : Nat
  unpackedSize : Nat
  deriving DecidableEq, Repr

/-- `Lz4FileEntry::DecodeHeader`, for the first node. -/
def lz4DecodeHeader (packMethod : Lz4Method) (fileLength headerOffset dataOffset : Nat) :
    Lz4Entry where
  identity := ascii "lz4_0"
  packMethod
  headerOffset
  dataOffset
  packedSize := fileLength
  unpackedSize := fileLength

/-- `Lz4PkgFile::LoadPackage`, if its read returns: its entry, or what it fails with. -/
def lz4LoadPackage (pkgStream : SourceStream) (fileLength : Nat) : Option (Except Int Lz4Entry) :=
  match pkgStream.read 0 4 with
  | .blocked => none
  | .failed => some (.error pkgInvalidStream)
  | .given buffer _ =>
      if buffer.length ≠ 4 then some (.error pkgLz4Finish)
      else if leValue buffer = lz4sMagicNumber then
        some (.ok (lz4DecodeHeader .lz4 fileLength 0 4))
      else if leValue buffer = lz4bMagicNumber then
        some (.ok (lz4DecodeHeader .lz4Block fileLength 0 4))
      else some (.error pkgInvalidFile)

/-- The context of `Lz4FileEntry::Unpack`. -/
def Lz4Entry.context (entry : Lz4Entry) : PkgAlgorithmContext :=
  lz4Context entry.dataOffset 0 entry.packedSize entry.unpackedSize 0

/-- `Lz4FileEntry::Unpack`, for so many turns at most, with the entry that it leaves; `frames`
unpacks what is not in blocks. -/
def lz4UnpackEntry (lz4 : Lz4) (frames : SourceStream → PkgAlgorithmContext → Option Lz4Unpacked)
    (accepts : Accepts) (fuel : Nat) (pkgStream : SourceStream) (entry : Lz4Entry) :
    Option (Lz4Unpacked × Lz4Entry) :=
  let unpacked :=
    match entry.packMethod with
    | .lz4 => frames pkgStream entry.context
    | .lz4Block => lz4Unpack lz4 accepts fuel pkgStream entry.context
  unpacked.map fun unpacked =>
    if unpacked.ret ≠ pkgSuccess then (unpacked, entry)
    else (unpacked, { entry with
      packedSize := unpacked.context.packedSize
      unpackedSize := unpacked.context.unpackedSize })

end Updater.Package
