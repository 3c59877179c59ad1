import Updater.Base.Records
import Updater.Package.PkgAlgoDeflate

/-! `PkgAlgorithmBlockLz4`: packing and unpacking a stream as blocks that are compressed each
for itself. -/

set_option autoImplicit false

namespace Updater.Package

open Updater.Base

def lz4bMagicNumber : Nat := 0x184C2102

/-- `LZ4B_BLOCK_SIZE`. -/
def lz4bBlockSize : Nat := 1 <<< 22

/-- `LZ4B_REVERSED_LEN`. -/
def lz4bReversedLen : Nat := 4

/-- `LZ4_MAX_INPUT_SIZE`. -/
def lz4MaxInputSize : Nat := 0x7E000000

/-- `LZ4_compressBound`. -/
def compressBound (size : Nat) : Nat :=
  if size > lz4MaxInputSize then 0 else size + size / 255 + 16

/-- The block compression of LZ4, for a capacity of the output; `none` where the result is not
positive. -/
structure Lz4 where
  compress : Bytes → Nat → Option Bytes
  decompress : Bytes → Nat → Option Bytes
  compress_bound : ∀ block capacity, block.length ≤ lz4MaxInputSize →
    compressBound block.length ≤ capacity → compress block capacity ≠ none
  compress_fits : ∀ block capacity packed, compress block capacity = some packed →
    packed ≠ [] ∧ packed.length ≤ capacity
  decompress_fits : ∀ packed capacity block, decompress packed capacity = some block →
    block ≠ [] ∧ block.length ≤ capacity
  decompress_compress : ∀ block capacity packed room, compress block capacity = some packed →
    block ≠ [] → block.length ≤ room → decompress packed room = some block

/-- `blockSizeID_`, for which the shift of `GetBlockSizeFromBlockId` is defined. -/
structure BlockSizeID where
  id : Int
  defined : -4 ≤ id ∧ id ≤ 11

def getBlockSizeFromBlockId (blockSizeID : BlockSizeID) : Nat :=
  1 <<< (8 + 2 * blockSizeID.id).toNat

/-- The size of the blocks that `Pack` makes. -/
def BlockSizeID.blockSize (blockSizeID : BlockSizeID) : Nat :=
  min (getBlockSizeFromBlockId blockSizeID) lz4bBlockSize

theorem BlockSizeID.blockSize_pos (blockSizeID : BlockSizeID) : 0 < blockSizeID.blockSize := by
  rw [blockSize, getBlockSizeFromBlockId, lz4bBlockSize, Nat.shiftLeft_eq, Nat.shiftLeft_eq]
  have power : 0 < 2 ^ (8 + 2 * blockSizeID.id).toNat := Nat.two_pow_pos _
  omega

/-- The room for a compressed block, behind its size in the output buffer. -/
def BlockSizeID.capacity (blockSizeID : BlockSizeID) : Nat :=
  compressBound blockSizeID.blockSize - lz4bReversedLen

section Pack

variable (lz4 : Lz4) (blockSizeID : BlockSizeID) (accepts : Accepts)

/-- The variables of `PackCalculate`; `blocks` are those that it has written. -/
structure Lz4PackRun where
  source : SourceStream
  srcOffset : Nat
  destOffset : Nat
  remainSize : Nat
  ret : Int
  blocks : List Bytes
  log : List CopyEvent

namespace Lz4PackRun

def goesOn (st : Lz4PackRun) : Bool :=
  0 < st.remainSize

/-- A turn of the loop of `PackCalculate`. A block that does not compress leaves `ret` as the
read has set it. -/
def turn (st : Lz4PackRun) : Turn Lz4PackRun :=
  let needRead := min st.remainSize blockSizeID.blockSize
  match st.source.readData st.srcOffset blockSizeID.blockSize st.remainSize with
  | .blocked => .blocked
  | .failed => .broke { st with
      ret := pkgInvalidStream
      log := st.log ++ [.read st.srcOffset needRead none] }
  | .given block source =>
      let st := { st with
        source
        remainSize := st.remainSize - block.length
        ret := pkgSuccess
        log := st.log ++ [.read st.srcOffset needRead (some block)] }
      match lz4.compress block blockSizeID.capacity with
      | none => .broke st
      | some packed =>
          let written := record lz4bReversedLen packed
          let accepted := accepts st.log.length written st.destOffset
          let log := st.log ++ [.write written st.destOffset accepted]
          if accepted then
            .went { st with
              srcOffset := size64 (st.srcOffset + block.length)
              destOffset := size64 (st.destOffset + packed.length + lz4bReversedLen)
              blocks := st.blocks ++ [block]
              log }
          else .broke { st with ret := pkgInvalidStream, log }

end Lz4PackRun

/-- What `Pack` returns, the context it leaves, the blocks it has written and its calls. -/
structure Lz4Packed where
  ret : Int
  context : PkgAlgorithmContext
  blocks : List Bytes
  log : List CopyEvent

/-- `PackCalculate` behind its loop. -/
def Lz4PackRun.finish (context : PkgAlgorithmContext) (last : Lz4PackRun) : Lz4Packed :=
  if sub64 last.srcOffset context.srcOffset ≠ context.unpackedSize then
    ⟨last.ret, context, last.blocks, last.log⟩
  else
    ⟨pkgSuccess, { context with
      packedSize := sub64 last.destOffset context.destOffset
      packedSmall := Nat.mod_lt _ (by decide) }, last.blocks, last.log⟩

/-- `PackCalculate` behind the write of the magic number. -/
def lz4PackStart (source : SourceStream) (context : PkgAlgorithmContext) : Lz4PackRun where
  source
  srcOffset := context.srcOffset
  destOffset := size64 (context.destOffset + 4)
  remainSize := context.unpackedSize
  ret := pkgSuccess
  blocks := []
  log := [.write (leBytes 4 lz4bMagicNumber) context.destOffset true]

/-- `PkgAlgorithmBlockLz4::Pack`, for so many turns at most. -/
def lz4Pack (fuel : Nat) (source : SourceStream) (context : PkgAlgorithmContext) :
    Option Lz4Packed :=
  let magic := leBytes 4 lz4bMagicNumber
  if accepts 0 magic context.destOffset then
    (TurnLoop.run Lz4PackRun.goesOn (Lz4PackRun.turn lz4 blockSizeID accepts) fuel
      (lz4PackStart source context)).map (Lz4PackRun.finish context)
  else some ⟨pkgInvalidStream, context, [], [.write magic context.destOffset false]⟩

end Pack

section Unpack

variable (lz4 : Lz4) (accepts : Accepts)

/-- `inBuffSize`. -/
def lz4InBuffSize : Nat :=
  compressBound lz4bBlockSize

/-- A record as it was read: what the read of its size gave, its block, and what that gave. -/
structure Lz4Record where
  size : Bytes
  block : Bytes
  decoded : Bytes

/-- The record was read whole. -/
def Lz4Record.Whole (entry : Lz4Record) : Prop :=
  entry.size = leBytes 4 entry.block.length

/-- The variables of `UnpackCalculate`; `front` are the first four bytes of its input buffer,
`entries` the records that it has decoded and written. -/
structure Lz4UnpackRun where
  source : SourceStream
  srcOffset : Nat
  destOffset : Nat
  packedSize : Nat
  front : Bytes
  entries : List Lz4Record
  log : List CopyEvent

namespace Lz4UnpackRun

/-- Reads into the input buffer, of which so many bytes are asked for. -/
def readBuffer (st : Lz4UnpackRun) (length : Nat) : ReadResult SourceStream :=
  st.source.readData st.srcOffset length st.packedSize

/-- The buffer and the stream behind a read. -/
def filled (st : Lz4UnpackRun) (length : Nat) (bytes : Bytes) (source : SourceStream) :
    Lz4UnpackRun :=
  { st with
    source
    packedSize := st.packedSize - bytes.length
    front := (bytes ++ st.front.drop bytes.length).take 4
    log := st.log ++ [.read st.srcOffset (min st.packedSize length) (some bytes)] }

def noteFailed (st : Lz4UnpackRun) (length : Nat) : Lz4UnpackRun :=
  { st with log := st.log ++ [.read st.srcOffset (min st.packedSize length) none] }

/-- The run behind the read of a size. -/
def sized (st : Lz4UnpackRun) (size : Bytes) (source : SourceStream) : Lz4UnpackRun :=
  { st.filled 4 size source with srcOffset := size64 (st.srcOffset + 4) }

/-- A turn behind the read of a size: the block is read, decoded and written. -/
def turnBlock (st : Lz4UnpackRun) (size : Bytes) (blockSize : Nat) : Turn Lz4UnpackRun :=
  match st.readBuffer blockSize with
  | .blocked => .blocked
  | .failed => .broke (st.noteFailed blockSize)
  | .given block source =>
      let st := st.filled blockSize block source
      match lz4.decompress block lz4bBlockSize with
      | none => .broke st
      | some decoded =>
          let accepted := accepts st.log.length decoded st.destOffset
          let log := st.log ++ [.write decoded st.destOffset accepted]
          if accepted then
            .went { st with
              srcOffset := size64 (st.srcOffset + block.length)
              destOffset := size64 (st.destOffset + decoded.length)
              entries := st.entries ++ [⟨size, block, decoded⟩]
              log }
          else .broke { st with log }

/-- A turn of the main loop. -/
def turn (st : Lz4UnpackRun) : Turn Lz4UnpackRun :=
  match st.readBuffer 4 with
  | .blocked => .blocked
  | .failed => .broke (st.noteFailed 4)
  | .given size source =>
      let blockSize := leValue (st.filled 4 size source).front
      if size = [] ∨ blockSize > lz4InBuffSize then .broke (st.filled 4 size source)
      else (st.sized size source).turnBlock lz4 accepts size blockSize

end Lz4UnpackRun

/-- What `Unpack` returns, the context it leaves, the records it has written and its calls. -/
structure Lz4Unpacked where
  ret : Int
  context : PkgAlgorithmContext
  entries : List Lz4Record
  log : List CopyEvent

def lz4UnpackStart (source : SourceStream) (context : PkgAlgorithmContext) : Lz4UnpackRun where
  source
  srcOffset := context.srcOffset
  destOffset := context.destOffset
  packedSize := context.packedSize
  front := [0, 0, 0, 0]
  entries := []
  log := []

/-- `UnpackCalculate` behind its loop, which every failure leaves as well. -/
def Lz4UnpackRun.finish (context : PkgAlgorithmContext) (last : Lz4UnpackRun) : Lz4Unpacked where
  ret := pkgSuccess
  context := { context with
    packedSize := sub64 last.srcOffset context.srcOffset
    unpackedSize := sub64 last.destOffset context.destOffset
    packedSmall := Nat.mod_lt _ (by decide)
    unpackedSmall := Nat.mod_lt _ (by decide) }
  entries := last.entries
  log := last.log

/-- `PkgAlgorithmBlockLz4::Unpack`, for so many turns at most. -/
def lz4Unpack (fuel : Nat) (source : SourceStream) (context : PkgAlgorithmContext) :
    Option Lz4Unpacked :=
  (TurnLoop.run (fun _ => true) (Lz4UnpackRun.turn lz4 accepts) fuel
    (lz4UnpackStart source context)).map (Lz4UnpackRun.finish context)

end Unpack

end Updater.Package
