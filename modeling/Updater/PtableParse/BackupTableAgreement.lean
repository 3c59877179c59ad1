import Mathlib.Data.List.Nodup
import Updater.PtableParse.BackupTable

/-! When the backups that `WritePartitionTable` leaves belong to the primary tables. -/

set_option autoImplicit false

namespace Updater.PtableParse

open Updater.Base

namespace UfsPtable

variable {ptable : UfsPtable} {refused : Refused} {reached : Reached}
  {infos : List UfsPartitionDataInfo} {info other : UfsPartitionDataInfo} {device : Memory}

/-- The lun behind the write of the primary table. -/
def withPrimary (ptable : UfsPtable) (info : UfsPartitionDataInfo) (device : Memory) : Memory :=
  device.write (ptable.lunOffset info.lunIndex) (info.data.read 0 info.writeDataLen)

theorem writeLun_returned
    (returned : (ptable.writeLun refused reached infos info device).2 = true) :
    refused info.lunIndex .primary = false ∧ info.data.read 0 info.writeDataLen ≠ [] := by
  rw [writeLun, writeBufferToPath] at returned
  by_cases nothing : info.data.read 0 info.writeDataLen = []
  · rw [if_pos nothing] at returned
    cases returned
  · cases primary : refused info.lunIndex .primary with
    | false => exact ⟨rfl, nothing⟩
    | true =>
        rw [if_neg nothing, primary, if_pos rfl] at returned
        cases returned

theorem writeLun_backup (backup : ptable.hasBackupPtable = true)
    (primary : refused info.lunIndex .primary = false)
    (something : info.data.read 0 info.writeDataLen ≠ []) :
    ptable.writeLun refused reached infos info device =
      (ptable.writeBackupPartitionTable refused reached infos info.lunIndex
        (ptable.capacity info.lunIndex) (ptable.withPrimary info device), true) := by
  rw [writeLun, primary, writeBufferToPath_written something]
  dsimp only
  rw [if_pos backup]
  rfl

section Unwritten

/-- Behind the primary table a lun is as it was. -/
theorem withPrimary_behind {address : Nat}
    (past : ptable.lunOffset info.lunIndex + info.writeDataLen ≤ address) :
    ptable.withPrimary info device address = device address :=
  Memory.write_of_ge _ (by rwa [Memory.length_read])

/-- Without a backup written, a lun with other bytes in its place has no backup. -/
theorem not_backupAgrees_withPrimary :
    ¬∀ device, ptable.BackupAgrees info (ptable.withPrimary info device) := by
  intro agrees
  have ordered := backupEntries_before_header (agrees fun _ => 0).room
  have apart := (agrees fun _ => 0).apart
  have field : ∀ byte : UInt8, getLlword (fun _ => byte) 0 =
      getLlword info.data (ptable.ptableData.blockSize + backupHeaderOffset) := by
    intro byte
    refine Eq.trans ?_ (agrees fun _ => byte).current
    refine congrArg leValue (Memory.read_congr _ fun i _ => ?_)
    have behind : ptable.lunOffset info.lunIndex + info.writeDataLen ≤
        ptable.backupHeaderStart (ptable.capacity info.lunIndex) + gptHeaderOffset + i := by
      omega
    rw [withPrimary_behind behind]
  have clash := (field 0).trans (field 1).symm
  revert clash
  decide

/-- Zeros are no backup of a table that names the place of its backup. -/
theorem not_backupAgrees_zeros
    (named : getLlword info.data (ptable.ptableData.blockSize + backupHeaderOffset) ≠ 0) :
    ¬ptable.BackupAgrees info (ptable.withPrimary info fun _ => 0) := by
  intro agrees
  have ordered := backupEntries_before_header agrees.room
  have apart := agrees.apart
  refine named (agrees.current.symm.trans ?_)
  have zeros : getLlword (ptable.withPrimary info fun _ => 0)
      (ptable.backupHeaderStart (ptable.capacity info.lunIndex) + gptHeaderOffset) =
      getLlword (fun _ => 0) 0 := by
    refine congrArg leValue (Memory.read_congr _ fun i _ => withPrimary_behind ?_)
    omega
  rw [zeros]
  decide

/-- With nothing but the header written, a lun with other bytes in its place has no entries. -/
theorem not_backupAgrees_withHeader (blocks : 512 ≤ ptable.ptableData.blockSize) :
    ¬∀ device, ptable.BackupAgrees info ((ptable.withPrimary info device).write
      (ptable.backupHeaderStart (ptable.capacity info.lunIndex))
      (ptable.backupHeaderBytes other (ptable.capacity info.lunIndex))) := by
  intro agrees
  have ordered := backupEntries_before_header (agrees fun _ => 0).room
  have apart := (agrees fun _ => 0).apart
  have first : ∀ byte : UInt8, byte = info.data (2 * ptable.ptableData.blockSize + 0) := by
    intro byte
    have same := (Memory.read_eq_read_iff _).mp (agrees fun _ => byte).entries 0 (by decide)
    rw [Memory.write_of_lt _ (by simp only [gptPtableBackupSize] at ordered; omega),
      withPrimary_behind (by omega)] at same
    exact same
  have clash := (first 0).trans (first 1).symm
  revert clash
  decide

end Unwritten

/-- A lun carries its backup, whatever it had before and whatever reaches it of a write that fails,
exactly under the condition. -/
theorem writeLun_backupAgrees (blocks : 512 ≤ ptable.ptableData.blockSize)
    (backup : ptable.hasBackupPtable = true)
    (primary : refused info.lunIndex .primary = false)
    (something : info.data.read 0 info.writeDataLen ≠ []) :
    (∀ reached device,
        ptable.BackupAgrees info (ptable.writeLun refused reached infos info device).1) ↔
      ptable.BackupCondition refused infos info := by
  have some_ : 0 < ptable.ptableData.blockSize := Nat.lt_of_lt_of_le (by decide) blocks
  constructor
  · intro agrees
    have written : ∀ reached device, ptable.BackupAgrees info
        (ptable.writeBackupPartitionTable refused reached infos info.lunIndex
          (ptable.capacity info.lunIndex) (ptable.withPrimary info device)) := by
      intro reached device
      have made := agrees reached device
      rwa [writeLun_backup backup primary something] at made
    have room := (agrees (fun _ _ => 0) fun _ => 0).room
    cases listed : infos[info.lunIndex]? with
    | none =>
        refine absurd (fun device => ?_) (@not_backupAgrees_withPrimary ptable info)
        have made := written (fun _ _ => 0) device
        rwa [writeBackupPartitionTable_absent listed] at made
    | some other =>
        cases header : refused info.lunIndex .backupHeader with
        | true =>
            refine absurd (fun device => ?_) (@not_backupAgrees_withPrimary ptable info)
            have made := written (fun _ _ => 0) device
            rwa [writeBackupPartitionTable_headerRefused listed room some_ header] at made
        | false =>
            cases entries : refused info.lunIndex .backupEntries with
            | true =>
                refine absurd (fun device => ?_)
                  (@not_backupAgrees_withHeader ptable info other blocks)
                have made := written (fun _ _ => 0) device
                rwa [writeBackupPartitionTable_entriesRefused listed room some_ header entries]
                  at made
            | false =>
                have made := written (fun _ _ => 0) fun _ => 0
                rw [writeBackupPartitionTable_written listed room some_ header entries] at made
                obtain ⟨apart, usable, same, covers⟩ :=
                  (backupAgrees_withBackup blocks room).mp made
                exact ⟨room, apart, usable, header, entries, other, listed, same, covers⟩
  · rintro ⟨room, apart, usable, header, entries, other, listed, same, covers⟩ reached device
    rw [writeLun_backup backup primary something,
      writeBackupPartitionTable_written listed room some_ header entries]
    exact (backupAgrees_withBackup blocks room).mpr ⟨apart, usable, same, covers⟩

section Loop

/-- The tables of a list go to luns of their own. -/
def Distinct (infos : List UfsPartitionDataInfo) : Prop :=
  infos.Pairwise fun first second =>
    first.isGptValid = true → second.isGptValid = true → first.lunIndex ≠ second.lunIndex

variable {rest : List UfsPartitionDataInfo} {devices : Nat → Memory}

/-- What a turn of the loop does to the luns: nothing, or the tables of one information. -/
theorem writeLuns_cons_returned
    (returned : (ptable.writeLuns refused reached infos (info :: rest) devices).2 = true) :
    (¬ptable.Written info ∧ ptable.writeLuns refused reached infos (info :: rest) devices =
        ptable.writeLuns refused reached infos rest devices) ∨
      (ptable.Written info ∧
        (ptable.writeLun refused reached infos info (devices info.lunIndex)).2 = true ∧
        ptable.writeLuns refused reached infos (info :: rest) devices =
          ptable.writeLuns refused reached infos rest (Function.update devices info.lunIndex
            (ptable.writeLun refused reached infos info (devices info.lunIndex)).1)) := by
  rw [writeLuns] at returned ⊢
  by_cases inside : maxLunNumbers ≤ info.lunIndex
  · rw [if_pos inside] at returned
    cases returned
  · rw [if_neg inside] at returned ⊢
    by_cases unchanged : info.needWrite = false ∧ ptable.lunOffset info.lunIndex = 0
    · refine .inl ⟨?_, if_pos unchanged⟩
      rintro ⟨_, needed | moved⟩
      · exact Bool.noConfusion (unchanged.1.symm.trans needed)
      · exact moved unchanged.2
    · rw [if_neg unchanged] at returned ⊢
      by_cases invalid : info.isGptValid = false
      · refine .inl ⟨?_, if_pos invalid⟩
        rintro ⟨valid, _⟩
        exact Bool.noConfusion (invalid.symm.trans valid)
      · rw [if_neg invalid] at returned ⊢
        have valid : info.isGptValid = true := by simpa using invalid
        have needed : info.needWrite = true ∨ ptable.lunOffset info.lunIndex ≠ 0 := by
          by_cases moved : ptable.lunOffset info.lunIndex = 0
          · exact .inl (by simpa [moved] using unchanged)
          · exact .inr moved
        generalize made : ptable.writeLun refused reached infos info (devices info.lunIndex) =
          lun at returned ⊢
        obtain ⟨device, written⟩ := lun
        cases written with
        | false => cases returned
        | true => exact .inr ⟨⟨valid, needed⟩, rfl, rfl⟩

theorem writeLuns_other {lun : Nat}
    (returned : (ptable.writeLuns refused reached infos rest devices).2 = true)
    (other : ∀ info ∈ rest, info.isGptValid = true → info.lunIndex ≠ lun) :
    (ptable.writeLuns refused reached infos rest devices).1 lun = devices lun := by
  induction rest generalizing devices with
  | nil => rfl
  | cons info rest ih =>
      have others : ∀ info ∈ rest, info.isGptValid = true → info.lunIndex ≠ lun :=
        fun info listed => other info (List.mem_cons_of_mem _ listed)
      rcases writeLuns_cons_returned returned with ⟨_, same⟩ | ⟨written, _, same⟩
      · rw [same] at returned ⊢
        exact ih returned others
      · rw [same] at returned ⊢
        have apart : lun ≠ info.lunIndex := (other info List.mem_cons_self written.1).symm
        exact (ih returned others).trans (Function.update_of_ne apart _ _)

/-- A lun whose table is written has what its own turn leaves. -/
theorem writeLuns_written (distinct : Distinct rest)
    (returned : (ptable.writeLuns refused reached infos rest devices).2 = true)
    (listed : info ∈ rest) (written : ptable.Written info) :
    (ptable.writeLun refused reached infos info (devices info.lunIndex)).2 = true ∧
      (ptable.writeLuns refused reached infos rest devices).1 info.lunIndex =
        (ptable.writeLun refused reached infos info (devices info.lunIndex)).1 := by
  induction rest generalizing devices with
  | nil => cases listed
  | cons head rest ih =>
      obtain ⟨apart, distinct⟩ := List.pairwise_cons.mp distinct
      rcases List.mem_cons.mp listed with rfl | later
      · rcases writeLuns_cons_returned returned with ⟨not_written, _⟩ | ⟨_, done_, same⟩
        · exact absurd written not_written
        · rw [same] at returned ⊢
          refine ⟨done_, ?_⟩
          rw [writeLuns_other returned fun second listed valid =>
            (apart second listed written.1 valid).symm, Function.update_self]
      · rcases writeLuns_cons_returned returned with ⟨_, same⟩ | ⟨head_written, _, same⟩
        · rw [same] at returned ⊢
          exact ih distinct returned later
        · rw [same] at returned ⊢
          have other : info.lunIndex ≠ head.lunIndex :=
            (apart info later head_written.1 written.1).symm
          have turn := ih distinct returned later
          rwa [Function.update_of_ne other] at turn

/-- Whether a turn of the loop goes on does not depend on what the luns carry. -/
theorem writeLun_snd_eq (reached' : Reached) (device' : Memory) :
    (ptable.writeLun refused reached infos info device).2 =
      (ptable.writeLun refused reached' infos info device').2 := by
  rw [writeLun, writeLun, writeBufferToPath, writeBufferToPath]
  by_cases nothing : info.data.read 0 info.writeDataLen = []
  · rw [if_pos nothing, if_pos nothing]
  · rw [if_neg nothing, if_neg nothing]
    cases refused info.lunIndex .primary with
    | false =>
        cases ptable.hasBackupPtable with
        | false => rfl
        | true => rfl
    | true => rfl

theorem writeLuns_snd_eq (reached' : Reached) (devices' : Nat → Memory) :
    (ptable.writeLuns refused reached infos rest devices).2 =
      (ptable.writeLuns refused reached' infos rest devices').2 := by
  induction rest generalizing devices devices' with
  | nil => rfl
  | cons info rest ih =>
      rw [writeLuns, writeLuns]
      split
      · rfl
      · split
        · exact ih devices'
        · split
          · exact ih devices'
          · have same := @writeLun_snd_eq ptable refused reached infos info
              (devices info.lunIndex) reached' (devices' info.lunIndex)
            generalize ptable.writeLun refused reached infos info (devices info.lunIndex) = lun
              at same ⊢
            generalize ptable.writeLun refused reached' infos info (devices' info.lunIndex) = lun'
              at same ⊢
            obtain ⟨device, written⟩ := lun
            obtain ⟨device', written'⟩ := lun'
            cases same
            cases written with
            | false => rfl
            | true => exact ih _

end Loop

section Lists

/-- A list goes on with an information of the given lun at most. -/
inductive Adds (lun : Nat) : List UfsPartitionDataInfo → List UfsPartitionDataInfo → Prop where
  | none {list : List UfsPartitionDataInfo} : Adds lun list list
  | one {list : List UfsPartitionDataInfo} (info : UfsPartitionDataInfo)
      (numbered : info.isGptValid = true → info.lunIndex = lun) : Adds lun list (list ++ [info])

/-- The luns of a list are distinct, and none of them is still to come. -/
def DistinctFrom (luns : List Nat) (infos : List UfsPartitionDataInfo) : Prop :=
  Distinct infos ∧ ∀ info ∈ infos, info.isGptValid = true → info.lunIndex ∉ luns

theorem distinctFrom_nil (luns : List Nat) : DistinctFrom luns [] :=
  ⟨List.Pairwise.nil, fun _ listed => nomatch listed⟩

theorem DistinctFrom.adds {lun : Nat} {luns : List Nat} {before after : List UfsPartitionDataInfo}
    (distinct : DistinctFrom (lun :: luns) before) (fresh : lun ∉ luns)
    (adds : Adds lun before after) : DistinctFrom luns after := by
  obtain ⟨distinct, absent⟩ := distinct
  have kept : ∀ info ∈ before, info.isGptValid = true → info.lunIndex ∉ luns :=
    fun info listed valid member => absent info listed valid (List.mem_cons_of_mem _ member)
  cases adds with
  | none => exact ⟨distinct, kept⟩
  | one added numbered =>
      constructor
      · refine List.pairwise_append.mpr ⟨distinct, List.pairwise_singleton _ _, ?_⟩
        intro first listed second last valid second_valid same
        cases List.mem_singleton.mp last
        rw [numbered second_valid] at same
        exact absent first listed valid (same ▸ List.mem_cons_self)
      · intro info listed valid
        rcases List.mem_append.mp listed with earlier | last
        · exact kept info earlier valid
        · cases List.mem_singleton.mp last
          rw [numbered valid]
          exact fresh

theorem setLunPtnDataInfoNeedWrite_lunIndex {set : UfsPartitionDataInfo}
    (done_ : ptable.setLunPtnDataInfoNeedWrite info = some set) : set.lunIndex = info.lunIndex := by
  rw [setLunPtnDataInfoNeedWrite] at done_
  have mapped : ∀ (suffix : Bytes) (change : Bool → Bool),
      (ptable.matchSuffix suffix info.data).map
        (fun found => { info with needWrite := change found }) = some set →
      set.lunIndex = info.lunIndex := by
    intro suffix change found
    obtain ⟨_, _, made⟩ := Option.map_eq_some_iff.mp found
    cases made
    rfl
  split at done_
  · cases done_
    rfl
  · split at done_
    · cases done_
      rfl
    · split at done_
      · cases done_
        rfl
      · split at done_
        · exact mapped _ (!·) done_
        · exact mapped _ id done_

theorem ufsPatchGptHeader_lunIndex {blockSize : Nat} :
    (ptable.ufsPatchGptHeader info blockSize).lunIndex = info.lunIndex := by
  rw [ufsPatchGptHeader]
  split
  · rfl
  · exact (apply_ite UfsPartitionDataInfo.lunIndex _ _ _).trans (ite_self _)

theorem addUfsPtnDataInfo_lunIndex {added : UfsPartitionDataInfo} {deviceBlockSize i : Nat}
    (done_ : ptable.addUfsPtnDataInfo info deviceBlockSize i = some added) :
    added.lunIndex = (i + ptable.ptableData.startLunNumber) % 2 ^ 32 := by
  rw [setLunPtnDataInfoNeedWrite_lunIndex done_]
  exact ufsPatchGptHeader_lunIndex

variable {ptbImgBuffer : Memory} {stale : UfsPartitionDataInfo} {tables after : Tables} {i : Nat}
  {going : Bool}

theorem parseLun_adds (parsed : ptable.parseLun ptbImgBuffer stale i tables = some (after, going)) :
    Adds ((i + ptable.ptableData.startLunNumber) % 2 ^ 32) tables.ufsPtnDataInfo
      after.ufsPtnDataInfo := by
  rw [parseLun] at parsed
  split at parsed
  · cases parsed
    exact .one _ (by intro valid; cases valid)
  · dsimp only at parsed
    split at parsed
    · cases parsed
    case _ added found =>
      split at parsed
      · cases parsed
        exact .one added fun _ => addUfsPtnDataInfo_lunIndex found
      · cases parsed
        exact .one added fun _ => addUfsPtnDataInfo_lunIndex found

theorem parseLuns_distinct {stale : Nat → UfsPartitionDataInfo} {luns : List Nat}
    (apart : (luns.map fun i => (i + ptable.ptableData.startLunNumber) % 2 ^ 32).Nodup)
    (distinct : DistinctFrom (luns.map fun i => (i + ptable.ptableData.startLunNumber) % 2 ^ 32)
      tables.ufsPtnDataInfo)
    (parsed : ptable.parseLuns ptbImgBuffer stale luns tables = some (after, going)) :
    Distinct after.ufsPtnDataInfo := by
  induction luns generalizing tables with
  | nil =>
      cases parsed
      exact distinct.1
  | cons i luns ih =>
      obtain ⟨fresh, apart⟩ := List.nodup_cons.mp apart
      rw [parseLuns] at parsed
      split at parsed
      · cases parsed
      case _ next found =>
        cases parsed
        exact (distinct.adds fresh (parseLun_adds found)).1
      case _ next found =>
        exact ih apart (distinct.adds fresh (parseLun_adds found)) parsed

/-- The luns that are parsed have numbers of their own, also where they go on behind `2 ^ 32`. -/
theorem nodup_lunNumbers (count start : Nat) (few : count ≤ maxLunNumbers) :
    ((List.range count).map fun i => (i + start) % 2 ^ 32).Nodup := by
  refine List.Nodup.map_on ?_ List.nodup_range
  intro first first_listed second second_listed same
  have first_few := List.mem_range.mp first_listed
  have second_few := List.mem_range.mp second_listed
  simp only [maxLunNumbers] at few
  omega

theorem deviceLunNum_le : ptable.deviceLunNum ≤ maxLunNumbers := by
  have shorter : ptable.deviceLunNum ≤ (List.range maxLunNumbers).length :=
    (List.takeWhile_sublist _).length_le
  rwa [List.length_range] at shorter

theorem parsePartitionFromBuffer_distinct {imgBufSize : Nat} {stale : Nat → UfsPartitionDataInfo}
    {partitionInfo : List PtnInfo}
    (parsed : ptable.parsePartitionFromBuffer ptbImgBuffer imgBufSize stale ⟨[], partitionInfo⟩ =
      some (after, going)) :
    Distinct after.ufsPtnDataInfo ∧
      (after.ufsPtnDataInfo ≠ [] → 512 ≤ ptable.ptableData.blockSize) := by
  rw [parsePartitionFromBuffer] at parsed
  split at parsed
  · cases parsed
    exact ⟨.nil, fun some_ => absurd rfl some_⟩
  · split at parsed
    · cases parsed
      exact ⟨.nil, fun some_ => absurd rfl some_⟩
    case _ blocks =>
      have numbers := nodup_lunNumbers _ ptable.ptableData.startLunNumber
        (@deviceLunNum_le ptable)
      refine ⟨parseLuns_distinct numbers (distinctFrom_nil _) parsed, fun _ => ?_⟩
      simp only [imgBlockSize512, deviceBlockSize4096] at blocks
      omega

theorem loadPartitionInfoFromLun_adds {lun imgLen : Nat} :
    Adds lun tables.ufsPtnDataInfo
      (ptable.loadPartitionInfoFromLun lun imgLen stale tables).1.ufsPtnDataInfo := by
  rw [loadPartitionInfoFromLun]
  split
  · exact .none
  · split
    · exact .none
    · dsimp only
      split
      · exact .one _ fun _ => rfl
      · exact .one _ fun _ => rfl

theorem loadLuns_distinct {stale : Nat → UfsPartitionDataInfo} {luns : List Nat}
    (apart : luns.Nodup) (distinct : DistinctFrom luns tables.ufsPtnDataInfo) :
    Distinct (luns.foldl
      (fun tables lunIndex =>
        if ptable.readAndCheckMbr lunIndex ptable.ptableData.blockSize then
          (ptable.loadPartitionInfoFromLun lunIndex ptable.ptableData.writeDeviceLunSize
            (stale lunIndex) tables).1
        else tables) tables).ufsPtnDataInfo := by
  induction luns generalizing tables with
  | nil => exact distinct.1
  | cons lun luns ih =>
      obtain ⟨fresh, apart⟩ := List.nodup_cons.mp apart
      refine ih apart (distinct.adds fresh ?_)
      dsimp only
      split
      · exact loadPartitionInfoFromLun_adds
      · exact .none

/-- A block with a master boot record has the size of one. -/
theorem readAndCheckMbr_blocks {lun : Nat}
    (valid : ptable.readAndCheckMbr lun ptable.ptableData.blockSize = true) :
    512 ≤ ptable.ptableData.blockSize := by
  have whole := ptable.ptableData.wholeMbr
  rw [readAndCheckMbr] at valid
  split at valid
  · cases valid
  · split at valid
    · cases valid
    · rw [checkProtectiveMbr] at valid
      simp only [Bool.and_eq_true, decide_eq_true_eq] at valid
      have long := valid.1.1.1
      simp only [mbrMagicNumPos] at whole long
      omega

theorem loadLuns_blocks {stale : Nat → UfsPartitionDataInfo} {luns : List Nat}
    (small : ¬512 ≤ ptable.ptableData.blockSize) :
    luns.foldl
      (fun tables lunIndex =>
        if ptable.readAndCheckMbr lunIndex ptable.ptableData.blockSize then
          (ptable.loadPartitionInfoFromLun lunIndex ptable.ptableData.writeDeviceLunSize
            (stale lunIndex) tables).1
        else tables) tables = tables := by
  induction luns with
  | nil => rfl
  | cons lun luns ih =>
      rw [List.foldl_cons, if_neg fun valid => small (readAndCheckMbr_blocks valid), ih]

theorem Built.distinct {infos : List UfsPartitionDataInfo} (built : ptable.Built infos) :
    Distinct infos ∧ (infos ≠ [] → 512 ≤ ptable.ptableData.blockSize) := by
  cases built with
  | parsed parsed => exact parsePartitionFromBuffer_distinct parsed
  | loaded =>
      refine ⟨loadLuns_distinct List.nodup_range (distinctFrom_nil _), ?_⟩
      intro some_
      by_contra small
      rw [loadAllLunPartitions, loadLuns_blocks small] at some_
      exact some_ rfl

end Lists

section Run

variable {devices : Nat → Memory}

/-- After `WritePartitionTable` returned true, every lun whose primary table was written carries
the backup that belongs to it, whatever the luns had before and whatever reached them of writes
that fail, exactly when the condition holds for each of them. -/
theorem writePartitionTable_backups (built : ptable.Built infos)
    (backup : ptable.hasBackupPtable = true)
    (returned : (ptable.writePartitionTable refused reached infos devices).2 = true) :
    (∀ reached devices, ∀ info ∈ infos, ptable.Written info →
        ptable.BackupAgrees info
          ((ptable.writePartitionTable refused reached infos devices).1 info.lunIndex)) ↔
      ∀ info ∈ infos, ptable.Written info → ptable.BackupCondition refused infos info := by
  rw [writePartitionTable] at returned
  by_cases nothing : infos = []
  · rw [if_pos nothing] at returned
    cases returned
  · rw [if_neg nothing] at returned
    obtain ⟨distinct, blocks⟩ := built.distinct
    have again : ∀ reached devices,
        (ptable.writeLuns refused reached infos infos devices).2 = true :=
      fun reached devices => (writeLuns_snd_eq reached devices).symm.trans returned
    have lun : ∀ info ∈ infos, ptable.Written info →
        ((∀ reached devices, ptable.BackupAgrees info
          ((ptable.writePartitionTable refused reached infos devices).1 info.lunIndex)) ↔
          ptable.BackupCondition refused infos info) := by
      intro info listed written
      obtain ⟨primary, something⟩ := writeLun_returned
        (writeLuns_written distinct returned listed written).1
      rw [← writeLun_backupAgrees (blocks nothing) backup primary something]
      have turn : ∀ reached devices,
          (ptable.writePartitionTable refused reached infos devices).1 info.lunIndex =
            (ptable.writeLun refused reached infos info (devices info.lunIndex)).1 := by
        intro reached devices
        rw [writePartitionTable, if_neg nothing]
        exact (writeLuns_written distinct (again reached devices) listed written).2
      constructor
      · intro agrees reached device
        have made := agrees reached fun _ => device
        rwa [turn] at made
      · intro agrees reached devices
        rw [turn]
        exact agrees reached _
    constructor
    · intro agrees info listed written
      exact (lun info listed written).mp fun reached devices =>
        agrees reached devices info listed written
    · intro condition reached devices info listed written
      exact (lun info listed written).mpr (condition info listed written) reached devices

end Run

section ShiftedList

/-- What is read of a lun is in the list, whether its table is accepted or not. -/
theorem loadPartitionInfoFromLun_read {stale : UfsPartitionDataInfo} {tables : Tables}
    {lun imgLen : Nat} {buffer : Memory} (long : imgLen ≠ 0) (known : lun ≤ ptable.deviceLunNum)
    (read : ptable.memRead lun (ptable.lunOffset lun) imgLen = some buffer) :
    (ptable.loadPartitionInfoFromLun lun imgLen stale tables).1.ufsPtnDataInfo =
      tables.ufsPtnDataInfo ++ [{
        isGptValid := true
        lunIndex := lun
        lunSize := imgLen
        writeDataLen := imgLen
        data := copyInto (clearedData stale.data) 0 tmpDataSize (buffer.read 0 imgLen) }] := by
  have valid : ¬(imgLen = 0 ∨ ptable.deviceLunNum < lun) := by omega
  rw [loadPartitionInfoFromLun, if_neg valid, read]
  dsimp only
  split
  · rfl
  · rfl

/-- The first bytes of a lun of 100 blocks: a master boot record, and the LBA of the backup. -/
def shiftedLun : Memory := fun address =>
  if address = 0x1BE + 4 then 0xEE
  else if address = mbrMagicNumPos then 0x55
  else if address = mbrMagicNumPos + 1 then 0xAA
  else if address = 512 + backupHeaderOffset then 99
  else 0

/-- Two luns, of which the first has no table. -/
def shiftedPtable : UfsPtable where
  ptableData := {
    emmcGptDataLen := 0
    lbaLen := 512
    gptHeaderLen := 512
    blockSize := 512
    imgLuSize := 17408
    startLunNumber := 0
    writeDeviceLunSize := 17408
    wholeMbr := sector_wholeMbr
    inBuffer := sector_inBuffer }
  hasBackupPtable := true
  reservedSize := 0
  isVabDevice := false
  isUpdaterMode := true
  lunOffset := fun _ => 0
  updateSlot := 0
  curSlot := 0
  nodeExists := fun lun => decide (lun < 2)
  removable := fun _ => false
  capacity := fun _ => 51200
  memRead := fun lun _ _ => some (if lun = 1 then shiftedLun else fun _ => 0)

/-- The information of the second lun. -/
def shiftedInfo : UfsPartitionDataInfo where
  isGptValid := true
  lunIndex := 1
  lunSize := 17408
  writeDataLen := 17408
  data := copyInto (clearedData fun _ => 0) 0 tmpDataSize (shiftedLun.read 0 17408)

theorem copyInto_room {data : Memory} {dest destMax : Nat} {bytes : Bytes}
    (fits : bytes.length ≤ destMax) : copyInto data dest destMax bytes = data.write dest bytes :=
  if_pos fits

theorem shiftedInfo_alternate :
    getLlword shiftedInfo.data (shiftedPtable.ptableData.blockSize + backupHeaderOffset) ≠ 0 := by
  have blocks : shiftedPtable.ptableData.blockSize + backupHeaderOffset = 0 + 544 := rfl
  have copied : getLlword shiftedInfo.data (0 + 544) = getLlword shiftedLun (0 + 544) := by
    refine congrArg leValue (Memory.read_congr _ fun i inside => ?_)
    rw [shiftedInfo, copyInto_room (by rw [Memory.length_read]; decide), Nat.add_assoc]
    dsimp only
    rw [Memory.write_read_within _ _ (show 544 + i < 17408 by omega)]
  rw [blocks, copied]
  decide

theorem shiftedPtable_loads (stale : Nat → UfsPartitionDataInfo)
    (zeros : (stale 1).data = fun _ => 0) :
    (shiftedPtable.loadAllLunPartitions stale ⟨[], []⟩).ufsPtnDataInfo = [shiftedInfo] := by
  have count : shiftedPtable.deviceLunNum = 2 := by decide
  have first : shiftedPtable.readAndCheckMbr 0 shiftedPtable.ptableData.blockSize = false := by
    decide
  have second : shiftedPtable.readAndCheckMbr 1 shiftedPtable.ptableData.blockSize = true := by
    decide
  have range : List.range 2 = [0, 1] := by decide
  rw [loadAllLunPartitions, count, range, List.foldl_cons, List.foldl_cons, List.foldl_nil,
    if_neg (Bool.eq_false_iff.mp first), if_pos second,
    loadPartitionInfoFromLun_read (by decide) (count ▸ by decide) rfl, zeros]
  rfl

theorem built_shifted : shiftedPtable.Built [shiftedInfo] := by
  have built := @Built.loaded shiftedPtable (fun _ => { shiftedInfo with data := fun _ => 0 }) []
  rwa [shiftedPtable_loads _ rfl] at built

theorem shiftedPtable_returns (reached : Reached) (devices : Nat → Memory) :
    (shiftedPtable.writePartitionTable (fun _ _ => false) reached [shiftedInfo] devices).2 = true := by
  have something : shiftedInfo.data.read 0 shiftedInfo.writeDataLen ≠ [] :=
    List.ne_nil_of_length_pos (by rw [Memory.length_read]; decide)
  rw [writePartitionTable, if_neg (List.cons_ne_nil _ _), writeLuns, if_neg (by decide),
    if_neg (by decide), if_neg (by decide), writeLun_backup rfl rfl something]
  rfl

/-- The case of two luns, of which the first has no table. -/
theorem shiftedPtable_backups :
    (∀ reached devices, ∀ info ∈ [shiftedInfo], shiftedPtable.Written info →
        shiftedPtable.BackupAgrees info ((shiftedPtable.writePartitionTable (fun _ _ => false) reached
          [shiftedInfo] devices).1 info.lunIndex)) ↔
      ∀ info ∈ [shiftedInfo], shiftedPtable.Written info →
        shiftedPtable.BackupCondition (fun _ _ => false) [shiftedInfo] info :=
  writePartitionTable_backups built_shifted rfl
    (shiftedPtable_returns (fun _ _ => 0) fun _ _ => 0)

/-- The information of a lun behind one without a table stands before its number in the list, and
no backup is written for it. -/
theorem shiftedPtable_lacks_backup :
    ∃ (ptable : UfsPtable) (refused : Refused) (reached : Reached)
      (infos : List UfsPartitionDataInfo) (devices : Nat → Memory),
      ptable.Built infos ∧ ptable.hasBackupPtable = true ∧
        (ptable.writePartitionTable refused reached infos devices).2 = true ∧
        ∃ info ∈ infos, ptable.Written info ∧ ¬ptable.BackupAgrees info
          ((ptable.writePartitionTable refused reached infos devices).1 info.lunIndex) := by
  refine ⟨shiftedPtable, fun _ _ => false, fun _ _ => 0, [shiftedInfo], fun _ _ => 0, built_shifted,
    rfl, shiftedPtable_returns _ _, shiftedInfo, List.mem_cons_self, ⟨rfl, .inl rfl⟩, ?_⟩
  intro agrees
  have distinct : Distinct [shiftedInfo] := List.pairwise_singleton _ _
  have returned := shiftedPtable_returns (fun _ _ => 0) fun _ _ => 0
  rw [writePartitionTable, if_neg (List.cons_ne_nil _ _)] at returned agrees
  have turn := writeLuns_written distinct returned List.mem_cons_self ⟨rfl, .inl rfl⟩
  obtain ⟨primary, something⟩ := writeLun_returned turn.1
  rw [turn.2, writeLun_backup rfl primary something,
    writeBackupPartitionTable_absent (by decide)] at agrees
  dsimp only at agrees
  exact @not_backupAgrees_zeros shiftedPtable shiftedInfo shiftedInfo_alternate agrees

end ShiftedList

end UfsPtable

end Updater.PtableParse
