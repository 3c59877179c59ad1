import Updater.Base.Durability

/-! The secure erase: how partitions are overwritten one behind the other, and the offset that a
restart goes on from. -/

set_option autoImplicit false

namespace Updater.FactoryReset

open Updater.Base

/-- `OVERWRITE_SZIE`. -/
def overwriteSize : Nat := 1024 * 1024 * 1024

/-- `PartInfo`; partitions of one path are one device. -/
structure PartInfo where
  partSize : Nat
  devPath : Nat

/-- What the erase does to the devices and to misc. -/
inductive Action where
  | write (devPath offset length : Nat)
  | fsync (devPath : Nat)
  | syncOffsetInMisc (offset : Nat)
  deriving DecidableEq

/-- The calls that fail in a run, by the offset that is reached and the pass; a write that fails
stops behind some bytes. -/
structure Fate where
  opens : Nat → Bool
  seeks : Nat → Nat → Bool
  writeStops : Nat → Nat → Option Nat

/-- The passes over a chunk in `OverWritePartition` of a descriptor, with whether all succeed. -/
def overWriteChunk (fate : Fate) (devPath currentOffset overwriteOffset writeSize : Nat) :
    Nat → List Action × Bool
  | 0 => ([], true)
  | number + 1 =>
      if fate.seeks overwriteOffset number = false then ([], false)
      else
        match fate.writeStops overwriteOffset number with
        | some stop => ([.write devPath currentOffset (min stop writeSize)], false)
        | none =>
            let (actions, success) :=
              overWriteChunk fate devPath currentOffset overwriteOffset writeSize number
            (.write devPath currentOffset writeSize :: actions, success)

/-- The size of the chunk at an offset. -/
def chunkSize (partSize currentOffset : Nat) : Nat :=
  if partSize < currentOffset + overwriteSize then partSize - currentOffset else overwriteSize

theorem chunkSize_pos {partSize currentOffset : Nat} (left : currentOffset < partSize) :
    0 < chunkSize partSize currentOffset := by
  rw [chunkSize]
  split
  · exact Nat.sub_pos_of_lt left
  · decide

theorem chunkSize_le {partSize currentOffset : Nat} (left : currentOffset < partSize) :
    currentOffset + chunkSize partSize currentOffset ≤ partSize := by
  rw [chunkSize]
  split
  · omega
  · omega

/-- `OverwriteSinglePartition`: what is done, the offset in the list behind it, and the result.
Every turn of its loop takes a chunk. -/
def overwriteSinglePartition (fate : Fate) (number : Nat) (partInfo : PartInfo) :
    Nat → Nat → Nat → List Action × Nat × Bool
  | 0, currentOffset, overwriteOffset => ([], overwriteOffset, currentOffset ≠ 0)
  | turns + 1, currentOffset, overwriteOffset =>
      if currentOffset < partInfo.partSize then
        let writeSize := chunkSize partInfo.partSize currentOffset
        match overWriteChunk fate partInfo.devPath currentOffset overwriteOffset writeSize number with
        | (actions, false) => (actions, overwriteOffset, false)
        | (actions, true) =>
            let (later, reached, success) := overwriteSinglePartition fate number partInfo turns
              (currentOffset + writeSize) (overwriteOffset + writeSize)
            (actions ++ .syncOffsetInMisc (overwriteOffset + writeSize) :: later, reached, success)
      else ([], overwriteOffset, currentOffset ≠ 0)

/-- The loop of `OverWritePartition` over the partitions. -/
def overWritePartitions (fate : Fate) (number : Nat) :
    List PartInfo → Nat → Nat → List Action × Bool
  | [], _, _ => ([], true)
  | partInfo :: rest, currentOffset, overwriteOffset =>
      if partInfo.partSize ≤ currentOffset then
        overWritePartitions fate number rest (currentOffset - partInfo.partSize) overwriteOffset
      else if fate.opens overwriteOffset = false then ([], false)
      else
        match overwriteSinglePartition fate number partInfo (partInfo.partSize - currentOffset)
            currentOffset overwriteOffset with
        | (actions, _, false) => (actions ++ [.fsync partInfo.devPath], false)
        | (actions, reached, true) =>
            let (later, success) := overWritePartitions fate number rest 0 reached
            (actions ++ .fsync partInfo.devPath :: later, success)

/-- `OverWritePartition`, of the list of a type of erase, from a loaded offset. -/
def overWritePartition (fate : Fate) (eraseDataAndOs : Bool) (eraseTimes : Nat)
    (overwritePartInfos : List PartInfo) (overwriteOffset : Nat) : List Action × Bool :=
  if overwritePartInfos = [] then ([], false)
  else
    overWritePartitions fate (if eraseDataAndOs then 3 else eraseTimes) overwritePartInfos
      overwriteOffset overwriteOffset

/-- The devices, with the bytes that hold the pattern, and the offset in misc. -/
structure System where
  bytes : Durability
  stored : Nat

namespace System

/-- Before the first erase. -/
def initial : System where
  bytes := Durability.fresh
  stored := 0

def perform (system : System) : Action → System
  | .write devPath offset length => { system with bytes := system.bytes.write devPath offset length }
  | .fsync devPath => { system with bytes := system.bytes.sync devPath }
  | .syncOffsetInMisc offset => { system with stored := offset }

def performAll (system : System) (actions : List Action) : System :=
  actions.foldl perform system

end System

/-- A run that a power loss ends: the calls that fail in it, how many actions it comes to, and
which bytes the loss keeps of those not durable yet. A write that the loss cuts short is one of
which it drops the rest. -/
structure Attempt where
  fate : Fate
  actions : Nat
  kept : Nat → Nat → Bool

/-- What the erase is asked for. -/
structure Request where
  eraseDataAndOs : Bool
  eraseTimes : Nat
  partInfos : List PartInfo
  counted : 1 ≤ eraseTimes
  positive : ∀ partInfo ∈ partInfos, 0 < partInfo.partSize

namespace Request

variable (request : Request)

/-- The actions of a call behind a restart, which loads the offset from misc. -/
def call (fate : Fate) (system : System) : List Action × Bool :=
  overWritePartition fate request.eraseDataAndOs request.eraseTimes request.partInfos system.stored

/-- The system when the power is lost. -/
def reach (attempt : Attempt) (system : System) : System :=
  system.performAll ((request.call attempt.fate system).1.take attempt.actions)

/-- The system behind the loss. -/
def restart (attempt : Attempt) (system : System) : System :=
  { request.reach attempt system with
    bytes := (request.reach attempt system).bytes.lose attempt.kept }

/-- The system behind a call that is not cut short. -/
def finish (fate : Fate) (system : System) : System :=
  system.performAll (request.call fate system).1

end Request

end Updater.FactoryReset
