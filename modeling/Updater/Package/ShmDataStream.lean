import Updater.Utils.Securec

/-! `ShmDataStream`: a producer calling `Write` and a consumer calling `Read` over a
ring of blocks in shared memory, interleaved at their semaphore operations. -/

set_option autoImplicit false

namespace Updater.Package

open Updater.Base Updater.Utils

/-- `BLOCK_NUM`. -/
def blockNum : Nat := 32

/-- `SINGLE_BLOCK_SIZE`. -/
def singleBlockSize : Nat := 50 * 1024

/-- The shared memory; of a block, the bytes that were ever written to it. -/
structure ShmRingBuffer where
  semEmpty : Nat
  semFull : Nat
  head : Nat
  tail : Nat
  buffer : List Bytes
  efficientLen : List Nat
  reserved : Bytes
  currLen : Nat
  currOffset : Nat
  deriving DecidableEq, Repr

/-- `CreateShmRingBuffer`. -/
def ShmRingBuffer.create : ShmRingBuffer where
  semEmpty := blockNum
  semFull := 0
  head := 0
  tail := 0
  buffer := List.replicate blockNum []
  efficientLen := List.replicate blockNum 0
  reserved := []
  currLen := 0
  currOffset := 0

/-- The loop of `Write` between its wait and its post. -/
def ShmRingBuffer.fill (ring : ShmRingBuffer) (bytes : Bytes) : Option ShmRingBuffer :=
  (memcpyS (ring.buffer.getD ring.tail []) bytes.length bytes).map fun block => { ring with
    buffer := ring.buffer.set ring.tail block
    efficientLen := ring.efficientLen.set ring.tail bytes.length
    tail := (ring.tail + 1) % blockNum }

/-- The loop of `ReadFully` between its wait and its post: the bytes for the caller,
what else is in the block goes to the reserved buffer. -/
def ShmRingBuffer.drain (ring : ShmRingBuffer) (needReadLen : Nat) :
    Option (Bytes × ShmRingBuffer) :=
  let len := ring.efficientLen.getD ring.head 0
  let block := ring.buffer.getD ring.head []
  let next := { ring with
    efficientLen := ring.efficientLen.set ring.head 0
    head := (ring.head + 1) % blockNum }
  if len = 0 then none
  else if needReadLen ≥ len then
    (memcpyS [] len (block.take len)).map fun bytes => (bytes, next)
  else do
    let bytes ← memcpyS [] needReadLen (block.take needReadLen)
    let reserved ← memcpyS ring.reserved (len - needReadLen)
      (slice block needReadLen (len - needReadLen))
    pure (bytes, { next with reserved, currLen := len - needReadLen, currOffset := 0 })

/-- Where a call stands in its loop: before its wait, behind it, before its post. -/
inductive SemStage where
  | wait
  | move
  | post
  deriving DecidableEq, Repr

structure WriteCall where
  start : Nat
  data : Bytes
  size : Nat
  needWriteLen : Nat
  writedLen : Nat
  stage : SemStage
  deriving DecidableEq, Repr

/-- `data` is what the caller's buffer was filled with, `readLen` bytes. -/
structure ReadCall where
  start : Nat
  needRead : Nat
  needReadLen : Nat
  data : Bytes
  stage : SemStage
  deriving DecidableEq, Repr

/-- What a finished call was asked for, and the bytes it moved if it succeeded. -/
structure StreamReturn where
  start : Nat
  size : Nat
  result : Option Bytes
  deriving DecidableEq, Repr

/-- The shared memory, and of each side its `offset_`, its call and its past calls. -/
structure ShmState where
  ring : ShmRingBuffer
  writeOffset : Nat
  readOffset : Nat
  write : Option WriteCall
  read : Option ReadCall
  writeReturns : List StreamReturn
  readReturns : List StreamReturn
  deriving DecidableEq, Repr

namespace ShmState

/-- Both sides are opened at the same offset. -/
def start (base : Nat) : ShmState where
  ring := .create
  writeOffset := base
  readOffset := base
  write := none
  read := none
  writeReturns := []
  readReturns := []

def returnWrite (st : ShmState) (returned : StreamReturn) : ShmState :=
  { st with write := none, writeReturns := st.writeReturns ++ [returned] }

def returnRead (st : ShmState) (returned : StreamReturn) : ShmState :=
  { st with read := none, readReturns := st.readReturns ++ [returned] }

/-- The head of the loop of `Write`. -/
def loopWrite (st : ShmState) (call : WriteCall) : ShmState :=
  if call.needWriteLen > 0 then { st with write := some { call with stage := .wait } }
  else
    { st with writeOffset := st.writeOffset + call.size }.returnWrite
      ⟨call.start, call.size, some (call.data.take call.size)⟩

/-- The head of the loop of `ReadFully`. -/
def loopRead (st : ShmState) (call : ReadCall) : ShmState :=
  if call.needReadLen > 0 then { st with read := some { call with stage := .wait } }
  else
    { st with readOffset := st.readOffset + call.data.length }.returnRead
      ⟨call.start, call.needRead, some call.data⟩

/-- `Write` up to its loop. -/
def callWrite (st : ShmState) (data : Bytes) (size start : Nat) : ShmState :=
  if start ≠ st.writeOffset ∨ data.length < size then st.returnWrite ⟨start, size, none⟩
  else st.loopWrite ⟨start, data, size, size, 0, .wait⟩

/-- `Read` into a buffer of `capacity` bytes, up to `ReadFully`. -/
def callRead (st : ShmState) (capacity start needRead : Nat) : ShmState :=
  let ring := st.ring
  if start ≠ st.readOffset ∨ capacity < needRead then st.returnRead ⟨start, needRead, none⟩
  else if ring.currLen > 0 then
    if ring.currLen ≥ needRead then
      match memcpyS [] needRead (slice ring.reserved ring.currOffset needRead) with
      | none => st.returnRead ⟨start, needRead, none⟩
      | some bytes =>
          { st with
            ring := { ring with
              currOffset := ring.currOffset + needRead
              currLen := ring.currLen - needRead }
            readOffset := st.readOffset + needRead }.returnRead ⟨start, needRead, some bytes⟩
    else
      match memcpyS [] ring.currLen (slice ring.reserved ring.currOffset ring.currLen) with
      | none => st.returnRead ⟨start, needRead, none⟩
      | some bytes =>
          { st with ring := { ring with currLen := 0, currOffset := 0 } }.loopRead
            ⟨start, needRead, needRead - ring.currLen, bytes, .wait⟩
  else st.loopRead ⟨start, needRead, needRead, [], .wait⟩

/-- The next step of a `Write`, whose wait succeeds. -/
def writeStep (st : ShmState) (call : WriteCall) : Option ShmState :=
  match call.stage with
  | .wait =>
      if st.ring.semEmpty = 0 then none
      else some { st with
        ring := { st.ring with semEmpty := st.ring.semEmpty - 1 }
        write := some { call with stage := .move } }
  | .move =>
      let len := if call.needWriteLen < singleBlockSize then call.needWriteLen else singleBlockSize
      match st.ring.fill (slice call.data call.writedLen len) with
      | none => some (st.returnWrite ⟨call.start, call.size, none⟩)
      | some ring => some { st with
          ring
          write := some { call with
            needWriteLen := call.needWriteLen - len
            writedLen := call.writedLen + len
            stage := .post } }
  | .post =>
      some ({ st with ring := { st.ring with semFull := st.ring.semFull + 1 } }.loopWrite call)

/-- The next step of a `Read`, whose wait succeeds. -/
def readStep (st : ShmState) (call : ReadCall) : Option ShmState :=
  match call.stage with
  | .wait =>
      if st.ring.semFull = 0 then none
      else some { st with
        ring := { st.ring with semFull := st.ring.semFull - 1 }
        read := some { call with stage := .move } }
  | .move =>
      match st.ring.drain call.needReadLen with
      | none => some (st.returnRead ⟨call.start, call.needRead, none⟩)
      | some (bytes, ring) => some { st with
          ring
          read := some { call with
            needReadLen := call.needReadLen - bytes.length
            data := call.data ++ bytes
            stage := .post } }
  | .post =>
      some ({ st with ring := { st.ring with semEmpty := st.ring.semEmpty + 1 } }.loopRead call)

end ShmState

/-- Calls of both sides, their next steps, and waits that time out. -/
inductive ShmAction where
  | write (data : Bytes) (size start : Nat)
  | writeStep
  | writeTimeout
  | read (capacity start needRead : Nat)
  | readStep
  | readTimeout
  deriving DecidableEq, Repr

namespace ShmState

/-- One atomic step; `none` when it cannot be taken now. -/
def step (st : ShmState) : ShmAction → Option ShmState
  | .write data size start =>
      match st.write with
      | none => some (st.callWrite data size start)
      | some _ => none
  | .writeStep => st.write.bind st.writeStep
  | .writeTimeout => do
      let call ← st.write
      if call.stage = .wait then some (st.returnWrite ⟨call.start, call.size, none⟩) else none
  | .read capacity start needRead =>
      match st.read with
      | none => some (st.callRead capacity start needRead)
      | some _ => none
  | .readStep => st.read.bind st.readStep
  | .readTimeout => do
      let call ← st.read
      if call.stage = .wait then some (st.returnRead ⟨call.start, call.needRead, none⟩) else none

def run (st : ShmState) (actions : List ShmAction) : Option ShmState :=
  actions.foldlM step st

/-- What the calls so far moved, one after another. -/
def moved (returns : List StreamReturn) : Bytes :=
  (returns.filterMap StreamReturn.result).flatten

/-- The bytes written, those of the current call up to its last block. -/
def written (st : ShmState) : Bytes :=
  moved st.writeReturns ++ (st.write.elim [] fun call => call.data.take call.writedLen)

/-- The bytes that `Read` has returned. -/
def returned (st : ShmState) : Bytes :=
  moved st.readReturns

/-- How many blocks are filled and not yet emptied, posted or not. -/
def filledBlocks (st : ShmState) : Nat :=
  st.ring.semFull + (st.read.elim 0 fun call => if call.stage = .move then 1 else 0) +
    (st.write.elim 0 fun call => if call.stage = .post then 1 else 0)

/-- What is on its way: taken by the current call, kept in the reserved buffer, in the
blocks of the ring. -/
def pending (st : ShmState) : Bytes :=
  (st.read.elim [] ReadCall.data) ++ slice st.ring.reserved st.ring.currOffset st.ring.currLen ++
    (List.range st.filledBlocks).flatMap fun i =>
      let index := (st.ring.head + i) % blockNum
      (st.ring.buffer.getD index []).take (st.ring.efficientLen.getD index 0)

end ShmState

end Updater.Package
