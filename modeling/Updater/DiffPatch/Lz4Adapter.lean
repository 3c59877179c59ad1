import Updater.Base.Bytes
import Updater.Base.ConsecutiveBlocks

/-! The LZ4 adapters: what is written to them is compressed in blocks, through a buffer for the data
that does not fill one yet. -/

set_option autoImplicit false

namespace Updater.DiffPatch.Lz4

open Updater.Base

/-- `LZ4B_BLOCK_SIZE` -/
def lz4bBlockSize : Nat := 2 ^ 22

def lz4bReversedLen : Nat := 4

def lz4hcClevelMin : Int := 3

/-- What an adapter is configured with; a shift of an `int` by more is not defined. -/
structure Lz4Adapter where
  compressionLevel : Int
  blockSizeID : Nat
  shifts : 8 + 2 * blockSizeID < 31

/-- `LZ4_BLOCK_SIZE` of the configured id. -/
def Lz4Adapter.blockSize (adapter : Lz4Adapter) : Nat :=
  2 ^ (8 + 2 * adapter.blockSizeID)

/-- The size that `Open` gives `inData_`. -/
def Lz4Adapter.inSize (adapter : Lz4Adapter) : Nat :=
  if lz4bBlockSize < adapter.blockSize then lz4bBlockSize else adapter.blockSize

/-- How a call ends early: with an error, or with an access outside of a buffer. -/
inductive Stop where
  | failed
  | outOfBounds
  deriving DecidableEq, Repr

/-- `memcpy_s` to a place of a buffer. -/
def memcpyS (buffer : Bytes) (start destMax : Nat) (source : Bytes) : Except Stop Bytes :=
  if destMax = 0 ∨ destMax < source.length then .error .failed
  else if buffer.length < start + source.length then .error .outOfBounds
  else .ok (writeAt buffer start source)

/-- The data that waits for the rest of its block, what the compressor and the stream behind it have
come to, and the blocks that were passed to the compressor so far. -/
structure Buffered (Sink : Type) where
  inData : Bytes
  currDataSize : Nat
  sink : Sink
  passed : List Bytes

section Writes

variable {Sink : Type} (adapter : Lz4Adapter) (compress : Sink → Bytes → Sink × Bool)

/-- A call of `CompressData`. -/
def compressData (st : Buffered Sink) (srcData : Bytes) : Except Stop Unit × Buffered Sink :=
  let (sink, done) := compress st.sink srcData
  (if done then .ok () else .error .failed, { st with
    sink := sink
    passed := st.passed ++ [srcData] })

/-- The loop of `WriteData` over data that needs no buffer, with what remains of it. No turn is
without data, as no block is empty. -/
def compressDirectly (st : Buffered Sink) (remain : Bytes) : Except Stop Bytes × Buffered Sink :=
  if st.inData.length ≤ remain.length ∧ remain ≠ [] then
    let length := if adapter.blockSize ≤ remain.length then adapter.blockSize else remain.length
    match compressData compress st (remain.take length) with
    | (.error stop, st) => (.error stop, st)
    | (.ok (), st) => compressDirectly st (remain.drop length)
  else (.ok remain, st)
termination_by remain.length
decreasing_by
  rename_i inside
  have positive : 0 < adapter.blockSize := Nat.pow_pos Nat.two_pos
  have some_ := List.length_pos_of_ne_nil inside.2
  rw [List.length_drop]
  split
  · omega
  · omega

/-- `WriteData` behind a buffer that was full. -/
def writeRemain (st : Buffered Sink) (remain : Bytes) : Except Stop Unit × Buffered Sink :=
  match compressDirectly adapter compress { st with currDataSize := 0 } remain with
  | (.error stop, st) => (.error stop, st)
  | (.ok remain, st) =>
      if remain = [] then (.ok (), st)
      else
        match memcpyS st.inData 0 st.inData.length remain with
        | .error stop => (.error stop, st)
        | .ok inData => (.ok (), { st with
            inData := inData
            currDataSize := remain.length })

/-- `WriteData`. -/
def writeData (st : Buffered Sink) (srcData : Bytes) : Except Stop Unit × Buffered Sink :=
  if st.currDataSize < st.inData.length ∧
      srcData.length < st.inData.length - st.currDataSize then
    match memcpyS st.inData st.currDataSize (st.inData.length - st.currDataSize) srcData with
    | .error stop => (.error stop, st)
    | .ok inData =>
        (.ok (), { st with
          inData := inData
          currDataSize := st.currDataSize + srcData.length })
  else if st.inData.length < st.currDataSize then (.error .failed, st)
  else
    let hasCopyLen := st.inData.length - st.currDataSize
    match memcpyS st.inData st.currDataSize hasCopyLen (srcData.take hasCopyLen) with
    | .error stop => (.error stop, st)
    | .ok inData =>
        match compressData compress { st with inData := inData } inData with
        | (.error stop, st) => (.error stop, st)
        | (.ok (), st) => writeRemain adapter compress st (srcData.drop hasCopyLen)

def writeAll : Buffered Sink → List Bytes → Except Stop Unit × Buffered Sink
  | st, [] => (.ok (), st)
  | st, srcData :: rest =>
      match writeData adapter compress st srcData with
      | (.error stop, st) => (.error stop, st)
      | (.ok (), st) => writeAll st rest

/-- `FlushData`, with what it does behind the last block. -/
def flushData (compressEnd : Sink → Sink × Bool) (st : Buffered Sink) :
    Except Stop Unit × Buffered Sink :=
  let (flushed, st) :=
    if 0 < st.currDataSize then compressData compress st (st.inData.take st.currDataSize)
    else (.ok (), st)
  match flushed with
  | .error stop => (.error stop, st)
  | .ok () =>
      let (sink, done) := compressEnd st.sink
      (if done then .ok () else .error .failed, { st with sink := sink })

/-- The buffer behind `Open`. -/
def opened (sink : Sink) : Buffered Sink where
  inData := List.replicate adapter.inSize 0
  currDataSize := 0
  sink := sink
  passed := []

/-- What comes of writing data piece by piece and a flush: how the calls end, what the compressor and
the stream come to, and the blocks that were passed. -/
def recompress (compressEnd : Sink → Sink × Bool) (sink : Sink) (pieces : List Bytes) :
    Except Stop Unit × Sink × List Bytes :=
  let (written, st) := writeAll adapter compress (opened adapter sink) pieces
  match written with
  | .error stop => (.error stop, st.sink, st.passed)
  | .ok () =>
      let (flushed, st) := flushData compress compressEnd st
      (flushed, st.sink, st.passed)

end Writes

/-- The library and the stream that an adapter writes to, `none` where a call fails. -/
structure Lz4Library where
  Context : Type
  Stream : Type
  /-- `LZ4F_compressUpdate` into a buffer of a size -/
  compressUpdate : Context → Bytes → Nat → Option (Context × Bytes)
  compressEnd : Context → Nat → Option Bytes
  frameBound : Nat → Nat
  compressBound : Nat → Nat
  compressDefault : Bytes → Nat → Option Bytes
  compressHC : Bytes → Nat → Int → Option Bytes
  /-- `UpdatePatchWriter::Write` at an offset -/
  write : Stream → Nat → Bytes → Option Stream

/-- The members of an adapter that `CompressData` changes. -/
structure Output (library : Lz4Library) where
  context : library.Context
  outStream : library.Stream
  offset : Nat

namespace Output

variable {library : Lz4Library} (output : Output library)

/-- The bytes go to the stream at the offset, which moves behind them. -/
def append (data : Bytes) : Output library × Bool :=
  match library.write output.outStream output.offset data with
  | none => (output, false)
  | some outStream => ({ output with
      outStream := outStream
      offset := output.offset + data.length }, true)

end Output

section Adapters

variable (adapter : Lz4Adapter) {library : Lz4Library} (output : Output library)

/-- `Lz4FrameAdapter::CompressData`. -/
def frameCompressData (srcData : Bytes) : Output library × Bool :=
  match library.compressUpdate output.context srcData (library.frameBound adapter.inSize) with
  | none => (output, false)
  | some (context, data) =>
      if data = [] then ({ output with context := context }, true)
      else { output with context := context }.append data

/-- The end of `Lz4FrameAdapter::FlushData`. -/
def frameCompressEnd : Output library × Bool :=
  match library.compressEnd output.context (library.frameBound adapter.inSize) with
  | none => (output, false)
  | some data => output.append data

/-- `Lz4BlockAdapter::CompressData`. -/
def blockCompressData (srcData : Bytes) : Output library × Bool :=
  let room := library.compressBound adapter.blockSize - lz4bReversedLen
  let compressed :=
    if adapter.compressionLevel < lz4hcClevelMin then library.compressDefault srcData room
    else library.compressHC srcData room adapter.compressionLevel
  match compressed with
  | none => (output, false)
  | some data => output.append (leBytes 4 data.length ++ data)

/-- The end of `Lz4BlockAdapter::FlushData`. -/
def blockCompressEnd : Output library × Bool :=
  (output, true)

end Adapters

end Updater.DiffPatch.Lz4
