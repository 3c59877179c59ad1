import Updater.Utils.Securec
import Updater.StreamUpdate.TlvReaders

/-! `BinChunkUpdate`: installs a stream package from chunks, through a buffer that keeps the record
that a chunk ends in. -/

set_option autoImplicit false

namespace Updater.StreamUpdate

open Updater.Base Updater.Utils

inductive UpdateResultCode where
  | success
  | failure
  | complete
  deriving DecidableEq, Repr

inductive ChunkInstallStep where
  | pre
  | do_
  | post
  deriving DecidableEq, Repr

/-- What the parser calls: the package manager, the devices and the verification. -/
structure Services (World : Type) where
  /-- `CreatePkgStream`, `LoadPackageWithStream` and `GetPackageInfo`: the length of the header. -/
  loadHead : World → Bytes → Option Nat × World
  /-- `OpenDevPath` and `InitTransferParams`. -/
  openPartition : World → Bytes → Bool × World
  /-- `ExecuteCmdLine`, of a partition, a command line and the data. -/
  execute : World → Bytes → Bytes → Bytes → Bool × World
  /-- The syncs, the closes and `DoFreeSpace` of `ChunkInstallPostWrite`. -/
  close : World → World
  /-- `VerifySignature`, of the bytes that the digest is of. -/
  verifySignature : World → Bytes → Bytes → Bool × World
  verifyPartitionHashes : World → List PartitionHash → Bool × World

/-- What the parser does to its buffer, and what it finds in it. -/
inductive Event where
  | access (access : Access)
  /-- `curlen_` is set. -/
  | fill (maxBufSize curlen : Nat)
  /-- The rest of a chunk is kept behind the part that is skipped. -/
  | skipped (maxBufSize rest : Nat)
  /-- The loop over the chunk takes a turn, in this state. -/
  | turn (maxBufSize : Nat) (buffer : Memory) (curlen : Nat) (needNewData : Bool)
  /-- A record begins. -/
  | record (buffer : Memory) (curlen offset : Nat)
  /-- A header was loaded. -/
  | head (offset updateFileHeadLen : Nat)

/-- The parser, with all that it did so far. -/
structure BinChunkUpdate (World : Type) where
  maxBufSize : Nat
  buffer : Memory
  curlen : Nat
  offset : Nat
  skipLength : Nat
  firstBuffer : Bool
  needNewData : Bool
  updateStep : ChunkInstallStep
  curPartition : Bytes
  world : World
  events : List Event

/-- A chunk, with the memory behind it. -/
structure Chunk where
  data : Memory
  len : Nat
  short : len < uint32Count

namespace BinChunkUpdate

variable {World : Type} (services : Services World) (st : BinChunkUpdate World)

def create (maxBufSize : UInt32) (buffer : Memory) (world : World) : BinChunkUpdate World where
  maxBufSize := maxBufSize.toNat
  buffer := buffer
  curlen := 0
  offset := 0
  skipLength := 0
  firstBuffer := true
  needNewData := false
  updateStep := .pre
  curPartition := []
  world := world
  events := []

def emit (events : List Event) : BinChunkUpdate World :=
  { st with events := st.events ++ events }

/-- The reads of a reader. -/
def traced {α : Type} (reader : Reader α) : BinChunkUpdate World :=
  st.emit (reader.events.map .access)

/-- `UpdateBinHead`. -/
def updateBinHead : UpdateResultCode × BinChunkUpdate World :=
  let (loaded, world) := services.loadHead st.world (st.buffer.read 0 st.curlen)
  let st := { st with world }
  match loaded with
  | none => (.failure, st)
  | some updateFileHeadLen =>
      if updateFileHeadLen = 0 ∨ st.curlen < updateFileHeadLen then (.failure, st)
      else
        (.success, { st.emit [.head st.offset updateFileHeadLen] with offset := updateFileHeadLen })

/-- `ChunkInstallPreWrite`. -/
def chunkInstallPreWrite : UpdateResultCode × BinChunkUpdate World :=
  let reader := readPartitionData st.buffer st.curlen st.offset
  let st := st.traced reader
  match reader.result with
  | none => (.success, { st with needNewData := true })
  | some curPartition =>
      let (opened, world) := services.openPartition st.world curPartition
      let st := { st with curPartition, world }
      if opened then (.success, { st with updateStep := .do_ }) else (.failure, st)

/-- `ChunkInstallDoWrite`. -/
def chunkInstallDoWrite : UpdateResultCode × BinChunkUpdate World :=
  let reader := readInstall st.buffer st.curlen st.curPartition st.offset
  let st := st.traced reader
  match reader.result with
  | none => (.success, { st with needNewData := true })
  | some none => (.success, { st with updateStep := .post })
  | some (some install) =>
      let (executed, world) :=
        services.execute st.world st.curPartition install.cmdLine install.data
      if executed then (.success, { st with world, offset := install.next })
      else (.failure, { st with world })

/-- `ChunkInstallPostWrite`. -/
def chunkInstallPostWrite : UpdateResultCode × BinChunkUpdate World :=
  (.success, { st with world := services.close st.world, updateStep := .pre })

/-- The entry of `chunkInstallProcess_` for the step. -/
def chunkInstallProcess : UpdateResultCode × BinChunkUpdate World :=
  match st.updateStep with
  | .pre => st.chunkInstallPreWrite services
  | .do_ => st.chunkInstallDoWrite services
  | .post => st.chunkInstallPostWrite services

/-- `UpdateBinData`; nothing is returned when the turns do not suffice. -/
def updateBinData : Nat → BinChunkUpdate World → Option UpdateResultCode × BinChunkUpdate World
  | 0, st => (none, st)
  | turns + 1, st =>
      let (ret, st) := st.chunkInstallProcess services
      if st.needNewData = true ∨ ret = .failure ∨ st.updateStep = .pre then (some ret, st)
      else updateBinData turns st

/-- `UpdateBinHash`. -/
def updateBinHash : UpdateResultCode × BinChunkUpdate World :=
  let reader := readHashSection st.buffer st.curlen st.offset
  let st := st.traced reader
  match reader.result with
  | none => (.success, { st with needNewData := true })
  | some section_ =>
      let (signed, world) := services.verifySignature st.world section_.digest section_.signData
      let st := { st with world, offset := section_.next }
      if signed then
        let (verified, world) := services.verifyPartitionHashes st.world section_.hashInfos
        if verified then (.complete, { st with world }) else (.failure, { st with world })
      else (.failure, st)

/-- The switch of `ProcessBufferData` over the type of a record. -/
def processRecord (turns type : Nat) : Option UpdateResultCode × BinChunkUpdate World :=
  if type = binUpdateHeadTip then
    let (ret, st) := st.updateBinHead services
    (some ret, st)
  else if type = binUpdateDataTip then updateBinData services turns st
  else if type = binUpdateHashTip then
    let (ret, st) := st.updateBinHash services
    (some ret, st)
  else (some .failure, st)

/-- A turn of the loop of `ProcessBufferData`, which reads the type of the next record. -/
def nextRecord (turns : Nat) : Option UpdateResultCode × BinChunkUpdate World :=
  let type := leValue (st.buffer.read st.offset 2)
  let st := (st.emit [.record st.buffer st.curlen st.offset]).traced
    (readLE st.buffer st.curlen 2 st.offset)
  st.processRecord services turns type

/-- `ProcessBufferData`, with the result so far. -/
def processBufferData (turns : Nat) :
    Nat → UpdateResultCode → BinChunkUpdate World →
      Option UpdateResultCode × BinChunkUpdate World
  | 0, _, st => (none, st)
  | left + 1, ret, st =>
      if 0 < remaining st.curlen st.offset ∧ st.needNewData = false then
        match st.nextRecord services turns with
        | (none, st) => (none, st)
        | (some .failure, st) => (some .failure, st)
        | (some ret, st) => processBufferData turns left ret st
      else (some ret, st)

/-- `memcpy_s` and its like refuse these. -/
def refused (destMax count : Nat) : Bool :=
  destMax = 0 || decide (securecMemMaxLen < destMax) || decide (destMax < count)

/-- `MoveRemainingData`. -/
def moveRemainingData : Bool × BinChunkUpdate World :=
  let rest := remaining st.curlen st.offset
  if 0 < rest then
    if refused st.curlen rest then (false, st)
    else
      (true, { st.emit [.fill st.maxBufSize rest] with
        buffer := st.buffer.write 0 (st.buffer.read st.offset rest)
        curlen := rest })
  else if refused st.maxBufSize st.maxBufSize then (false, st)
  else
    (true, { st.emit [.fill st.maxBufSize 0] with
      buffer := st.buffer.write 0 (List.replicate st.maxBufSize 0)
      curlen := 0 })

/-- How much of a chunk `AddRemainData` takes. -/
def copySize (remainLen : Nat) : Nat :=
  min remainLen (remaining st.maxBufSize st.curlen)

/-- `AddRemainData`, of the memory that the rest of the chunk begins. -/
def addRemainData (data : Memory) (remainLen : Nat) : Bool × BinChunkUpdate World :=
  if refused st.maxBufSize (st.copySize remainLen) then (false, st)
  else
    let curlen := advance st.curlen (st.copySize remainLen)
    (true, { st.emit [.fill st.maxBufSize curlen] with
      buffer := st.buffer.write st.curlen (data.read 0 (st.copySize remainLen))
      curlen
      offset := 0 })

/-- The loop of `StartBinChunkUpdate`, with the result so far. -/
def processChunk (turns : Nat) (chunk : Chunk) :
    Nat → Nat → UpdateResultCode → BinChunkUpdate World →
      Option UpdateResultCode × BinChunkUpdate World
  | 0, _, _, st => (none, st)
  | left + 1, remainLen, ret, st =>
      if 0 < remainLen then
        let st := st.emit [.turn st.maxBufSize st.buffer st.curlen st.needNewData]
        match st.addRemainData (chunk.data.behind (chunk.len - remainLen)) remainLen with
        | (false, st) => (some .failure, st)
        | (true, filled) =>
            match processBufferData services turns turns .success
                { filled with needNewData := false } with
            | (none, st) => (none, st)
            | (some .failure, st) => (some .failure, st)
            | (some ret, processed) =>
                match processed.moveRemainingData with
                | (false, st) => (some .failure, st)
                | (true, moved) =>
                    processChunk turns chunk left (remainLen - st.copySize remainLen) ret moved
      else (some ret, st)

/-- `ProcessHeader`. -/
def processHeader (data : Memory) : BinChunkUpdate World :=
  if st.firstBuffer then
    if leValue (data.read 0 2) = 0xaa then
      { st with firstBuffer := false, skipLength := advance (leValue (data.read 2 4)) 6 }
    else { st with firstBuffer := false, skipLength := 0 }
  else st

/-- `SkipTargetData`, with `dealLen` when it succeeds. -/
def skipTargetData (chunk : Chunk) : Option Nat × BinChunkUpdate World :=
  if st.skipLength = 0 then (none, st)
  else if st.skipLength < chunk.len then
    let rest := chunk.len - st.skipLength
    if refused rest rest then (none, { st with skipLength := 0 })
    else
      (some st.skipLength, { st.emit [.skipped st.maxBufSize rest, .fill st.maxBufSize rest] with
        buffer := st.buffer.write 0 (chunk.data.read st.skipLength rest)
        curlen := rest
        skipLength := 0 })
  else (some chunk.len, { st with skipLength := st.skipLength - chunk.len })

/-- `StartBinChunkUpdate`, with `dealLen`. -/
def startBinChunkUpdate (turns : Nat) (chunk : Chunk) :
    Option (UpdateResultCode × Nat) × BinChunkUpdate World :=
  if chunk.len = 0 then (some (.failure, 0), st)
  else
    match (st.processHeader chunk.data).skipTargetData chunk with
    | (some dealLen, st) => (some (.success, dealLen), st)
    | (none, skipped) =>
        match processChunk services turns chunk turns chunk.len .success skipped with
        | (none, st) => (none, st)
        | (some .failure, st) => (some (.failure, 0), st)
        | (some ret, processed) =>
            (some (ret, remaining (advance chunk.len st.curlen) processed.curlen), processed)

/-- The parser behind calls with chunks, up to one that does not return. -/
def feed (turns : Nat) : List Chunk → BinChunkUpdate World → BinChunkUpdate World
  | [], st => st
  | chunk :: chunks, st =>
      match st.startBinChunkUpdate services turns chunk with
      | (none, st) => st
      | (some _, st) => feed turns chunks st

end BinChunkUpdate

end Updater.StreamUpdate
