import Updater.Base.Crc32
import Updater.Package.ZipPkgFile
import Updater.Package.ZipPkgPack

/-! `ZipFileEntry::Unpack`, and which entries it gives back as the directory describes
them. -/

set_option autoImplicit false

namespace Updater.Package

open Updater.Base

def pkgSuccess : Int := 0

def pkgInvalidParam : Int := 102

def pkgInvalidPkgFormat : Int := 105

def pkgInvalidDigest : Int := 107

def pkgInvalidStream : Int := 108

def pkgVerifyFail : Int := 114

def pkgNotExistAlgorithm : Int := 201

def zStored : Int := 0

def zOk : Int := 0

def zStreamEnd : Int := 1

/-- `MAX_BUFFER_SIZE`. -/
def maxBufferSize : Nat := 4 * 1024 * 1024

theorem maxBufferSize_pos : 0 < maxBufferSize := by decide

def inflateInBufferSize : Nat := 100 * 1024 * 1024

def inflateInBufferSizeNormalMode : Nat := 512 * 1024

def inflateOutBufferSize : Nat := 1024 * 1024

/-- A call of `inflate`: how much of the input it used, and what it put into the output. -/
structure InflateCall (Stream : Type) where
  ret : Int
  used : Nat
  produced : Bytes
  stream : Stream

/-- The decompression of zlib: `inflateInit2`, and `inflate` for the input at hand and the
room in the output, which it keeps to. -/
structure Inflater where
  Stream : Type
  inflateInit : Option Stream
  inflate : Stream → Bytes → Nat → InflateCall Stream
  fits : ∀ stream next room, (inflate stream next room).produced.length ≤ room

/-- How the stream that is written answers: a refused write may leave a part of the data. -/
structure OutStream where
  refused : Nat → Option Nat
  flushed : Bool

/-- What was written. -/
structure Output where
  bytes : Bytes
  writes : Nat

namespace OutStream

variable (out : OutStream)

/-- `Write` behind what was written. -/
def write (output : Output) (data : Bytes) : Bool × Output :=
  match out.refused output.writes with
  | none => (true, { bytes := output.bytes ++ data, writes := output.writes + 1 })
  | some left => (false, { bytes := output.bytes ++ data.take left, writes := output.writes + 1 })

end OutStream

/-- `PkgAlgorithm::ReadData` of at most `length` bytes: what is read, and what remains. -/
def readData (file : Bytes) (offset length remainSize : Nat) : Option (Bytes × Nat) :=
  if min remainSize length = 0 then some ([], remainSize)
  else (fileRead file offset (min remainSize length)).map fun bytes =>
    (bytes, remainSize - bytes.length)

section Stored

variable (file : Bytes) (out : OutStream)

/-- The loop of `PkgAlgorithm::Unpack`; each turn takes a byte at least. -/
def unpackLoop : Nat → Nat → Nat → Output → Nat → Output × Nat
  | 0, _, _, output, destOffset => (output, destOffset)
  | fuel + 1, srcOffset, remainSize, output, destOffset =>
      if remainSize = 0 then (output, destOffset)
      else
        match readData file srcOffset maxBufferSize remainSize with
        | none => (output, destOffset)
        | some (bytes, remainSize) =>
            match out.write output bytes with
            | (false, output) => (output, destOffset)
            | (true, output) =>
                unpackLoop fuel (srcOffset + bytes.length) remainSize output
                  (destOffset + bytes.length)

/-- `PkgAlgorithm::Unpack`. `FinalDigest` compares nothing for `PKG_DIGEST_TYPE_CRC`, and its
result replaces that of the loop. -/
def unpackStored (entry : ZipEntry) : Int × Bytes :=
  let (output, destOffset) :=
    unpackLoop file out entry.packedSize entry.dataOffset entry.packedSize ⟨[], 0⟩ 0
  if destOffset ≠ entry.packedSize then (pkgInvalidDigest, output.bytes)
  else (pkgSuccess, output.bytes)

end Stored

/-- The `z_stream` with its buffers, what is left to read of the entry, and `unpackRet`. -/
structure Inflating (z : Inflater) where
  srcOffset : Nat
  packedSize : Nat
  stream : z.Stream
  next : Bytes
  held : Bytes
  ret : Int

/-- The loop of `ReadFully`; each turn takes a byte at least. -/
def readFully (file : Bytes) : Nat → Nat → Nat → Option Bytes
  | 0, _, _ => some []
  | fuel + 1, offset, remaining =>
      if remaining = 0 then some []
      else do
        let (bytes, remaining) ← readData file offset inflateInBufferSizeNormalMode remaining
        let rest ← readFully file fuel (offset + bytes.length) remaining
        pure (bytes ++ rest)

namespace Inflating

variable {z : Inflater} (updaterMode : Bool) (file : Bytes)

/-- `ReadUnpackData`. -/
def readUnpackData (state : Inflating z) : Option (Inflating z) :=
  if state.next ≠ [] then some state
  else if updaterMode then
    (readData file state.srcOffset inflateInBufferSize state.packedSize).map
      fun (bytes, packedSize) =>
        { state with
          srcOffset := state.srcOffset + bytes.length
          packedSize
          next := bytes }
  else
    let expectedLen := min inflateInBufferSizeNormalMode state.packedSize
    (readFully file expectedLen state.srcOffset expectedLen).map fun bytes =>
      { state with
        srcOffset := state.srcOffset + bytes.length
        packedSize := state.packedSize - bytes.length
        next := bytes }

def inflate (state : Inflating z) : Inflating z :=
  let call := z.inflate state.stream state.next (inflateOutBufferSize - state.held.length)
  { state with
    stream := call.stream
    next := state.next.drop call.used
    held := state.held ++ call.produced
    ret := call.ret }

/-- Whether the loop of `UnpackCalculate` goes on. -/
def goesOn (state : Inflating z) : Bool :=
  0 < state.packedSize || state.ret ≠ zStreamEnd

/-- Whether the buffer is written: when it is full, or the last one. -/
def due (state : Inflating z) : Bool :=
  state.held.length = inflateOutBufferSize || (state.ret = zStreamEnd && state.held ≠ [])

def emptied (state : Inflating z) : Inflating z :=
  { state with held := [] }

end Inflating

section Deflated

variable (z : Inflater) (crc32 : Crc32) (updaterMode : Bool) (file : Bytes) (out : OutStream)

/-- The loop of `UnpackCalculate`, for as many turns as `fuel`. -/
def inflateLoop : Nat → Inflating z → Output → UInt32 → Option (Int × Output × UInt32)
  | 0, _, _, _ => none
  | fuel + 1, state, output, crc =>
      if state.goesOn then
        match state.readUnpackData updaterMode file with
        | none => some (state.ret, output, crc)
        | some state =>
            let state := state.inflate
            if state.ret < zOk then some (state.ret, output, crc)
            else if state.due then
              match out.write output state.held with
              | (false, output) => some (state.ret, output, crc)
              | (true, output) =>
                  inflateLoop fuel state.emptied output (crc32.update crc state.held)
            else inflateLoop fuel state output crc
      else some (state.ret, output, crc)

/-- `CalculateUnpackData`. -/
def calculateUnpackData (entry : ZipEntry) (crc : UInt32) (ret : Int) : Int :=
  if entry.crc32 ≠ 0 ∧ entry.crc32 ≠ crc.toNat then pkgVerifyFail
  else if ret = zStreamEnd then pkgSuccess
  else ret

/-- The stream as `UnpackCalculate` begins with it. -/
def inflateStart (entry : ZipEntry) (stream : z.Stream) : Inflating z where
  srcOffset := entry.dataOffset
  packedSize := entry.packedSize
  stream
  next := []
  held := []
  ret := zOk

/-- `PkgAlgoDeflate::Unpack`. -/
def unpackDeflated (fuel : Nat) (entry : ZipEntry) : Option (Int × Bytes) :=
  match z.inflateInit with
  | none => some (pkgNotExistAlgorithm, [])
  | some stream =>
      (inflateLoop z crc32 updaterMode file out fuel (inflateStart z entry stream) ⟨[], 0⟩ 0).map
        fun (ret, output, crc) => (calculateUnpackData entry crc ret, output.bytes)

/-- `ZipFileEntry::Unpack`: the result and what the stream holds. -/
def ZipEntry.unpack (fuel : Nat) (entry : ZipEntry) : Option (Int × Bytes) :=
  (if entry.method = zStored then some (unpackStored file out entry)
    else if entry.method = zDeflated then unpackDeflated z crc32 updaterMode file out fuel entry
    else some (pkgInvalidParam, [])).map fun (ret, bytes) =>
      if ret ≠ pkgSuccess then (ret, bytes)
      else if out.flushed then (pkgSuccess, bytes)
      else (pkgInvalidStream, bytes)

end Deflated

end Updater.Package
