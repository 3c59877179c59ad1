import Updater.Base.OutputFile
import Updater.Base.SparseFile

/-! `CreateFixedSizeEmptyFile`: the source image is copied and filled up with zeros, for
the transfer commands that read their blocks from the copy. -/

set_option autoImplicit false

namespace Updater.DiffPatch

open Updater.Base

def writeFileSize : Nat := 4096

/-- What the system answers while the file is made. -/
structure CopyCalls where
  sourceOpens : Bool
  destOpens : Bool
  stats : Bool
  /-- How many of the bytes asked for one `sendfile` moves; `none` for an error. -/
  sendfile : Nat → Option Nat
  sizeOpens : Bool
  reopens : Bool
  /-- Bytes that the zeros may take before a write fails. -/
  room : Nat

/-- `CopyFileBySendFile`: the destination is created where it is missing and is not
truncated, and one call moves the content. -/
def copyFileBySendFile (calls : CopyCalls) (source : Bytes) (dest : Option Bytes) :
    Bool × Option Bytes :=
  if !calls.sourceOpens then (false, dest)
  else if !calls.destOpens then (false, dest)
  else if !calls.stats then (false, some (dest.getD []))
  else
    match calls.sendfile source.length with
    | none => (false, some (dest.getD []))
    | some count => (true, some (writeAt (dest.getD []) 0 (source.take count)))

/-- `GetFileSize`: a file that does not open has size 0. -/
def getFileSize (calls : CopyCalls) (file : Bytes) : Nat :=
  if calls.sizeOpens then file.length else 0

/-- The mode in which the copy is opened again. -/
def fillMode : OpenMode := { ate := true }

/-- The zeros that the two loops write: blocks first, then single bytes. -/
def fillZeros (count : Nat) (file : OutputFile) : OutputFile :=
  let file := file.writeTimes (List.replicate writeFileSize 0) (count / writeFileSize)
  file.writeTimes [0] (count % writeFileSize)

/-- `CreateFixedSizeEmptyFile`: its result and the destination file. -/
def createFixedSizeEmptyFile (calls : CopyCalls) (source : Bytes) (dest : Option Bytes)
    (size : Int) : Int × Option Bytes :=
  if size ≤ 0 then (-1, dest)
  else
    match copyFileBySendFile calls source dest with
    | (false, dest) => (-1, dest)
    | (true, dest) =>
        let fileSize := getFileSize calls source
        if size.toNat ≤ fileSize then (0, dest)
        else if !calls.reopens then (-1, dest)
        else
          match OutputFile.create fillMode calls.room (dest.getD []) with
          | none => (-1, dest)
          | some file => (0, some (fillZeros (size.toNat - fileSize) file).content)

/-- The quotient and the remainder together are the zeros asked for. -/
theorem fillZeros_content (base : Bytes) (room count : Nat) :
    (fillZeros count
      { content := base, position := base.length, room := room, good := true }).content =
      base ++ List.replicate (min room count) 0 := by
  have blocks := (OutputFile.wrote_fresh base room).writeTimes
    (List.replicate writeFileSize 0) (count / writeFileSize)
  have all := blocks.writeTimes [0] (count % writeFileSize)
  have single : ([0] : Bytes) = List.replicate 1 0 := rfl
  have total : count / writeFileSize * writeFileSize + count % writeFileSize * 1 = count := by
    rw [Nat.mul_one, Nat.div_add_mod']
  rw [fillZeros, all.content, single, List.nil_append, List.flatten_replicate_replicate,
    List.flatten_replicate_replicate, ← List.replicate_add, total, List.take_replicate]

/-- The mode lacks `input`, so that what was copied is gone. -/
theorem create_fillMode (room : Nat) (file : Bytes) :
    OutputFile.create fillMode room file =
      some { content := [], position := 0, room := room, good := true } := rfl

theorem fillZeros_truncated (room count : Nat) :
    (fillZeros count { content := [], position := 0, room := room, good := true }).content =
      List.replicate (min room count) 0 := by
  have filled := fillZeros_content [] room count
  rw [List.nil_append] at filled
  exact filled

theorem copyFileBySendFile_file {calls : CopyCalls} {source : Bytes} {dest copy : Option Bytes}
    (copied : copyFileBySendFile calls source dest = (true, copy)) :
    ∃ count, calls.sendfile source.length = some count ∧
      copy = some (writeAt (dest.getD []) 0 (source.take count)) := by
  rw [copyFileBySendFile] at copied
  split at copied
  · cases copied
  · split at copied
    · cases copied
    · split at copied
      · cases copied
      · cases sent : calls.sendfile source.length with
        | none =>
            rw [sent] at copied
            cases copied
        | some count =>
            rw [sent] at copied
            cases copied
            exact ⟨count, rfl, rfl⟩

/-- The file that is left where the size does not exceed what was measured, and where it does. -/
theorem createFixedSizeEmptyFile_file {calls : CopyCalls} {source : Bytes}
    {dest file : Option Bytes} {size : Int}
    (ran : createFixedSizeEmptyFile calls source dest size = (0, file)) :
    ∃ count, calls.sendfile source.length = some count ∧
      file = some (if size.toNat ≤ getFileSize calls source then
          writeAt (dest.getD []) 0 (source.take count)
        else List.replicate (min calls.room (size.toNat - getFileSize calls source)) 0) := by
  rw [createFixedSizeEmptyFile] at ran
  split at ran
  · cases ran
  · cases copied : copyFileBySendFile calls source dest with
    | mk done copy =>
        rw [copied] at ran
        cases done with
        | false => cases ran
        | true =>
            obtain ⟨count, sent, copyIs⟩ := copyFileBySendFile_file copied
            refine ⟨count, sent, ?_⟩
            simp only at ran
            split at ran
            · rename_i enough
              cases ran
              rw [if_pos enough, copyIs]
            · rename_i more
              rw [if_neg more]
              split at ran
              · cases ran
              · rw [create_fillMode] at ran
                cases ran
                rw [fillZeros_truncated]

/-- How much of the source the one `sendfile` moves. -/
def movedBytes (calls : CopyCalls) (source : Bytes) : Nat :=
  min ((calls.sendfile source.length).getD 0) source.length

/-- The copy is right: nothing is appended and the old destination agrees with what was
not moved, or the source has only zeros and as many are written as the result needs. -/
def CopyComplete (calls : CopyCalls) (source : Bytes) (dest : Option Bytes) (size : Int) : Prop :=
  (size.toNat ≤ getFileSize calls source ∧
    (dest.getD []).drop (movedBytes calls source) = source.drop (movedBytes calls source)) ∨
  (getFileSize calls source < size.toNat ∧ (∀ byte ∈ source, byte = 0) ∧
    min calls.room (size.toNat - getFileSize calls source) = max size.toNat source.length)

theorem getFileSize_le (calls : CopyCalls) (file : Bytes) :
    getFileSize calls file ≤ file.length := by
  rw [getFileSize]
  split
  · exact Nat.le_refl _
  · exact Nat.zero_le _

/-- Overwriting the front of a file gives the source where the rest is the source's rest. -/
theorem writeAt_zero_take_eq_iff (old source : Bytes) (count : Nat) :
    writeAt old 0 (source.take count) = source ↔
      old.drop (min count source.length) = source.drop (min count source.length) := by
  have length : (source.take count).length = min count source.length := List.length_take
  have front : source.take count = source.take (min count source.length) := by
    rw [List.take_eq_take_min]
  rw [writeAt, List.take_zero, List.nil_append, Nat.zero_add, length, front]
  constructor
  · intro same
    have split := same.trans (List.take_append_drop (min count source.length) source).symm
    exact List.append_cancel_left split
  · intro same
    rw [same, List.take_append_drop]

theorem replicate_eq_zeroPadded_iff (count size : Nat) (source : Bytes) :
    List.replicate count 0 = zeroPadded size source ↔
      (∀ byte ∈ source, byte = 0) ∧ count = max size source.length := by
  have length : (zeroPadded size source).length = max size source.length := by
    rw [zeroPadded, List.length_append, List.length_replicate]
    omega
  constructor
  · intro same
    constructor
    · intro byte member
      have padded : byte ∈ zeroPadded size source := List.mem_append_left _ member
      rw [← same] at padded
      exact List.eq_of_mem_replicate padded
    · rw [← length, ← same, List.length_replicate]
  · rintro ⟨zeros, rfl⟩
    refine (List.eq_replicate_iff.mpr ⟨length, ?_⟩).symm
    intro byte member
    rcases List.mem_append.mp member with inSource | inPadding
    · exact zeros byte inSource
    · exact List.eq_of_mem_replicate inPadding

/-- The destination is the source filled up with zeros exactly where `CopyComplete` holds. -/
theorem createFixedSizeEmptyFile_keeps_iff (calls : CopyCalls) (source : Bytes)
    (dest file : Option Bytes) (size : Int)
    (ran : createFixedSizeEmptyFile calls source dest size = (0, file)) :
    file = some (zeroPadded size.toNat source) ↔ CopyComplete calls source dest size := by
  obtain ⟨count, sent, rfl⟩ := createFixedSizeEmptyFile_file ran
  have moved : movedBytes calls source = min count source.length := by
    rw [movedBytes, sent, Option.getD_some]
  have measured := getFileSize_le calls source
  rw [Option.some.injEq, CopyComplete, moved]
  by_cases enough : size.toNat ≤ getFileSize calls source
  · have unpadded : zeroPadded size.toNat source = source := by
      rw [zeroPadded, Nat.sub_eq_zero_of_le (Nat.le_trans enough measured), List.replicate_zero,
        List.append_nil]
    rw [if_pos enough, unpadded, writeAt_zero_take_eq_iff]
    exact ⟨fun same => .inl ⟨enough, same⟩,
      fun complete => complete.elim And.right fun filled => absurd enough (Nat.not_le.mpr filled.1)⟩
  · rw [if_neg enough, replicate_eq_zeroPadded_iff]
    exact ⟨fun filled => .inr ⟨Nat.not_le.mp enough, filled⟩,
      fun complete => complete.elim (fun copied => absurd copied.1 enough) And.right⟩

/-- Where the source can be measured, only an empty one survives being filled up. -/
theorem copyComplete_measured_iff {calls : CopyCalls} {source : Bytes} {dest : Option Bytes}
    {size : Int} (opens : calls.sizeOpens = true) :
    CopyComplete calls source dest size ↔
      (size.toNat ≤ source.length ∧
        (dest.getD []).drop (movedBytes calls source) = source.drop (movedBytes calls source)) ∨
      (source = [] ∧ 0 < size.toNat ∧ size.toNat ≤ calls.room) := by
  have measured : getFileSize calls source = source.length := by rw [getFileSize, if_pos opens]
  rw [CopyComplete, measured]
  refine or_congr Iff.rfl ⟨?_, ?_⟩
  · rintro ⟨longer, -, filled⟩
    have empty : source.length = 0 := by omega
    refine ⟨List.eq_nil_of_length_eq_zero empty, ?_, ?_⟩
    · omega
    · omega
  · rintro ⟨rfl, positive, fits⟩
    refine ⟨positive, fun byte member => (List.not_mem_nil member).elim, ?_⟩
    rw [List.length_nil]
    omega

/-- A system on which every call succeeds and nothing is cut short. -/
def CopyCalls.plain (room : Nat) : CopyCalls where
  sourceOpens := true
  destOpens := true
  stats := true
  sendfile := some
  sizeOpens := true
  reopens := true
  room := room

/-- A source of 2 bytes that is to be filled up to 3: one zero is all that is left. -/
theorem createFixedSizeEmptyFile_loses :
    createFixedSizeEmptyFile (CopyCalls.plain 100) [7, 8] none 3 = (0, some [0]) ∧
      some [0] ≠ some (zeroPadded 3 [7, 8]) := by
  decide +kernel

theorem createFixedSizeEmptyFile_keeps_two :
    createFixedSizeEmptyFile (CopyCalls.plain 100) [7, 8] none 2 = (0, some [7, 8]) ∧
      (some [7, 8] = some (zeroPadded (2 : Int).toNat [7, 8]) ↔
        CopyComplete (CopyCalls.plain 100) [7, 8] none 2) := by
  have ran : createFixedSizeEmptyFile (CopyCalls.plain 100) [7, 8] none 2 = (0, some [7, 8]) := by
    decide +kernel
  exact ⟨ran, createFixedSizeEmptyFile_keeps_iff _ _ _ _ _ ran⟩

end Updater.DiffPatch
