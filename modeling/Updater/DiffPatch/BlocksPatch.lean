import Updater.Base.Traced
import Updater.DiffPatch.Bzip2Adapter
import Updater.DiffPatch.Control

/-! `BlocksPatch::ApplyPatch`, into a buffer and through a writer. The trace lists
the accesses to `newData_`, the moves of `newOffset_` and the signed additions. -/

set_option autoImplicit false

namespace Updater.DiffPatch

open Updater.Base

/-- The macro `PATCH_MIN`. -/
def patchMin : Nat := bsdiffMagic.length + 8 * 3

inductive PatchEvent where
  | newData (start length : Int)
  | newOffset (before after : Int)
  | add (left right : Int)
  deriving DecidableEq, Repr

/-- Members of a patch that is being applied; `sink` is `newData_` or the writer. -/
structure PatchState (Reader Sink : Type) where
  newSize : Int
  oldOffset : Int
  newOffset : Int
  diffDataReader : Option Reader
  extraDataReader : Option Reader
  sink : Sink

section

variable (bzip2 : Bzip2)

/-- What `ReadHeader` finds: the sizes, and the three readers. -/
structure PatchHeader where
  newSize : Int
  controlDataReader : Option bzip2.Reader
  diffDataReader : Option bzip2.Reader
  extraDataReader : Option bzip2.Reader

def readHeader (patch : Bytes) (start : Nat) : Option (PatchHeader bzip2) :=
  if patch.length < start ∨ patch.length - start ≤ patchMin then none
  else
    let header := patch.drop start
    if header.take bsdiffMagic.length ≠ bsdiffMagic then none
    else
      let controlDataSize := readLE64 (header.drop 8)
      let diffDataSize := readLE64 (header.drop 16)
      let newSize := readLE64 (header.drop 24)
      if controlDataSize < 0 then none
      else if newSize < 0 then none
      -- the sum is taken in 64 bits and may come out negative
      else if diffDataSize < 0 ∨ (patch.length : Int) < (diffDataSize + controlDataSize).bmod (2 ^ 64)
      then none
      else
        let diffOffset := (32 + controlDataSize.toNat) % 2 ^ 64
        let extraOffset := (diffOffset + diffDataSize.toNat) % 2 ^ 64
        let extraSize := (patch.length - start + 2 ^ 64 - extraOffset) % 2 ^ 64
        some {
          newSize
          controlDataReader := bzip2.openRead header 32 controlDataSize.toNat
          diffDataReader := bzip2.openRead header diffOffset diffDataSize.toNat
          extraDataReader := bzip2.openRead header extraOffset extraSize }

def readControlData (reader : bzip2.Reader) : Option (ControlData × bzip2.Reader) := do
  let (diffLength, reader) ← bzip2.readData reader 8
  let (extraLength, reader) ← bzip2.readData reader 8
  let (offsetIncrement, reader) ← bzip2.readData reader 8
  pure ({
    diffLength := readLE64 diffLength
    extraLength := readLE64 extraLength
    offsetIncrement := readLE64 offsetIncrement }, reader)

theorem left_readControlData {reader reader' : bzip2.Reader} {ctrlData : ControlData}
    (read : readControlData bzip2 reader = some (ctrlData, reader')) :
    bzip2.left reader' < bzip2.left reader := by
  simp only [readControlData, Option.bind_eq_bind, Option.bind_eq_some_iff] at read
  obtain ⟨⟨_, first⟩, readFirst, ⟨_, second⟩, readSecond, ⟨_, third⟩, readThird, same⟩ := read
  have usedFirst : bzip2.left first + 8 ≤ bzip2.left reader :=
    bzip2.left_read (by decide) readFirst
  have usedSecond : bzip2.left second + 8 ≤ bzip2.left first :=
    bzip2.left_read (by decide) readSecond
  have usedThird : bzip2.left third + 8 ≤ bzip2.left second :=
    bzip2.left_read (by decide) readThird
  cases same
  change bzip2.left third < bzip2.left reader
  omega

variable {Sink : Type}

/-- `RestoreDiffData` or `RestoreExtraData`. -/
abbrev Restore (bzip2 : Bzip2) (Sink : Type) : Type :=
  ControlData → PatchState bzip2.Reader Sink → Traced PatchEvent (PatchState bzip2.Reader Sink)

variable (restoreDiffData restoreExtraData : Restore bzip2 Sink)

/-- First half of the loop body: the diff data of a triple. -/
def applyDiff (ctrlData : ControlData) (st : PatchState bzip2.Reader Sink) :
    Traced PatchEvent (PatchState bzip2.Reader Sink) := do
  Traced.emit [.add st.newOffset ctrlData.diffLength]
  if st.newOffset + ctrlData.diffLength > st.newSize then Traced.reject
  else
    let st ← restoreDiffData ctrlData st
    Traced.emit [.add st.oldOffset ctrlData.diffLength, .add st.newOffset ctrlData.diffLength,
      .newOffset st.newOffset (st.newOffset + ctrlData.diffLength)]
    pure { st with
      oldOffset := st.oldOffset + ctrlData.diffLength
      newOffset := st.newOffset + ctrlData.diffLength }

/-- Second half: the extra data, and the move in the old file. -/
def applyExtra (ctrlData : ControlData) (st : PatchState bzip2.Reader Sink) :
    Traced PatchEvent (PatchState bzip2.Reader Sink) := do
  Traced.emit [.add st.newOffset ctrlData.extraLength]
  if st.newOffset + ctrlData.extraLength > st.newSize then Traced.reject
  else
    let st ← restoreExtraData ctrlData st
    Traced.emit [.add st.newOffset ctrlData.extraLength,
      .newOffset st.newOffset (st.newOffset + ctrlData.extraLength),
      .add st.oldOffset ctrlData.offsetIncrement]
    pure { st with
      newOffset := st.newOffset + ctrlData.extraLength
      oldOffset := st.oldOffset + ctrlData.offsetIncrement }

def applyControl (ctrlData : ControlData) (st : PatchState bzip2.Reader Sink) :
    Traced PatchEvent (PatchState bzip2.Reader Sink) := do
  let st ← applyDiff bzip2 restoreDiffData ctrlData st
  applyExtra bzip2 restoreExtraData ctrlData st

/-- The loop of `ApplyPatch`; every turn uses up 24 bytes of control data. -/
def applyLoop (control : bzip2.Reader) (st : PatchState bzip2.Reader Sink) :
    Traced PatchEvent (PatchState bzip2.Reader Sink) :=
  if st.newOffset < st.newSize then
    match _read : readControlData bzip2 control with
    | none => Traced.reject
    | some (ctrlData, control') =>
        applyControl bzip2 restoreDiffData restoreExtraData ctrlData st >>= fun st =>
          applyLoop control' st
  else pure st
termination_by bzip2.left control
decreasing_by exact left_readControlData bzip2 _read

/-- `ApplyPatch`; `create` makes the sink once the new size is known. -/
def applyPatch (patch : Bytes) (start : Nat) (create : Int → Sink) :
    Traced PatchEvent (PatchState bzip2.Reader Sink) :=
  match readHeader bzip2 patch start with
  | none => Traced.reject
  | some header =>
      let st : PatchState bzip2.Reader Sink := {
        newSize := header.newSize
        oldOffset := 0
        newOffset := 0
        diffDataReader := header.diffDataReader
        extraDataReader := header.extraDataReader
        sink := create header.newSize }
      if st.newOffset < st.newSize then
        match header.controlDataReader with
        | none => Traced.reject
        | some control => applyLoop bzip2 restoreDiffData restoreExtraData control st
      else pure st

/-- Adds the old bytes at `oldOffset` to `data`, where there are any. -/
def addOldData (old : Bytes) (oldOffset : Int) (data : Bytes) : Bytes :=
  data.mapIdx fun (index : Nat) byte =>
    let position := oldOffset + index
    if 0 ≤ position ∧ position.toNat < old.length then byte + old.getD position.toNat 0 else byte

/-- The sums `oldOffset_ + i` of the loop over the diff data. -/
def oldPositions (oldOffset length : Int) : List PatchEvent :=
  (List.range length.toNat).map fun index : Nat => .add oldOffset index

/-- `BlocksBufferPatch::RestoreDiffData`; the sink is `newData_`. -/
def bufferRestoreDiffData (old : Bytes) : Restore bzip2 Bytes := fun ctrlData st => do
  if ctrlData.diffLength ≤ 0 then pure st
  else
    Traced.emit [.newData st.newOffset ctrlData.diffLength]
    let (data, reader) ← Traced.ofOption (bzip2.readFrom st.diffDataReader ctrlData.diffLength)
    Traced.emit (oldPositions st.oldOffset ctrlData.diffLength)
    pure { st with
      diffDataReader := some reader
      sink := writeAt st.sink st.newOffset.toNat (addOldData old st.oldOffset data) }

def bufferRestoreExtraData : Restore bzip2 Bytes := fun ctrlData st => do
  if ctrlData.extraLength ≤ 0 then pure st
  else
    Traced.emit [.newData st.newOffset ctrlData.extraLength]
    let (data, reader) ← Traced.ofOption (bzip2.readFrom st.extraDataReader ctrlData.extraLength)
    pure { st with
      extraDataReader := some reader
      sink := writeAt st.sink st.newOffset.toNat data }

/-- `BlocksBufferPatch::ApplyPatch`: `newData_` is sized by the header. -/
def bufferApplyPatch (old patch : Bytes) (start : Nat) :
    Traced PatchEvent (PatchState bzip2.Reader Bytes) :=
  applyPatch bzip2 (bufferRestoreDiffData bzip2 old) (bufferRestoreExtraData bzip2) patch start
    fun newSize => List.replicate newSize.toNat 0

/-- The old file as a stream; one in memory hands out its buffer. -/
structure OldStream where
  inMemory : Bool
  data : Bytes
  deriving DecidableEq, Repr

/-- `BlocksStreamPatch::RestoreDiffData`. A stream that is not in memory is read
into an empty buffer, which it refuses. -/
def streamRestoreDiffData (stream : OldStream) (write : Sink → Int → Bytes → Option Sink) :
    Restore bzip2 Sink := fun ctrlData st => do
  if ctrlData.diffLength ≤ 0 then pure st
  else
    let (data, reader) ← Traced.ofOption (bzip2.readFrom st.diffDataReader ctrlData.diffLength)
    if !stream.inMemory then Traced.reject
    else
      Traced.emit (oldPositions st.oldOffset ctrlData.diffLength)
      let sink ← Traced.ofOption
        (write st.sink st.newOffset (addOldData stream.data st.oldOffset data))
      pure { st with diffDataReader := some reader, sink }

def streamRestoreExtraData (write : Sink → Int → Bytes → Option Sink) : Restore bzip2 Sink :=
  fun ctrlData st => do
    if ctrlData.extraLength ≤ 0 then pure st
    else
      let (data, reader) ← Traced.ofOption (bzip2.readFrom st.extraDataReader ctrlData.extraLength)
      let sink ← Traced.ofOption (write st.sink st.newOffset data)
      pure { st with extraDataReader := some reader, sink }

/-- `BlocksStreamPatch::ApplyPatch`. -/
def streamApplyPatch (stream : OldStream) (write : Sink → Int → Bytes → Option Sink)
    (patch : Bytes) (start : Nat) (writer : Sink) :
    Traced PatchEvent (PatchState bzip2.Reader Sink) :=
  applyPatch bzip2 (streamRestoreDiffData bzip2 stream write) (streamRestoreExtraData bzip2 write)
    patch start fun _ => writer

end

end Updater.DiffPatch
