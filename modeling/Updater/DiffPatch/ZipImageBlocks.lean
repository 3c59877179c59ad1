import Updater.DiffPatch.ZipImageLayout

/-! The blocks that `CompressedImageDiff::MakePatch` collects for the entries of a zip
package, and what they are read back as. -/

set_option autoImplicit false

namespace Updater.DiffPatch

open Updater.Base

@[simp] theorem ZipEntry.realDataLen_eq (info : ZipEntry) :
    info.realDataLen = info.headerLen + info.packedSize := by
  unfold realDataLen dataOffset
  omega

/-- The file information that the names of a package lead to, in order. -/
def ZipPackage.files (package : ZipPackage) : List ZipEntry :=
  package.fileIds.filterMap package.getFileInfo

theorem ZipPackage.getFileInfo_some {package : ZipPackage} {info : ZipEntry} {fileName : String}
    (found : package.getFileInfo fileName = some info) :
    info ∈ package.entries ∧ info.identity = fileName := by
  constructor
  · exact List.mem_of_find?_eq_some found
  · have named := List.find?_some found
    exact of_decide_eq_true named

theorem ZipPackage.getFileInfo_file {package : ZipPackage} {info : ZipEntry}
    (file : info ∈ package.files) : package.getFileInfo info.identity = some info := by
  obtain ⟨fileName, _, found⟩ := List.mem_filterMap.mp file
  rw [(getFileInfo_some found).2]
  exact found

theorem ZipPackage.file_mem {package : ZipPackage} {info : ZipEntry}
    (file : info ∈ package.files) : info ∈ package.entries :=
  (getFileInfo_some (getFileInfo_file file)).1

/-- Every name leads to a file. -/
theorem ZipPackage.fileIds_eq (package : ZipPackage) :
    package.fileIds = package.files.map ZipEntry.identity := by
  have known : ∀ fileName ∈ package.fileIds, ∃ info,
      package.getFileInfo fileName = some info ∧ info.identity = fileName := by
    intro fileName listed
    obtain ⟨entry, member, same⟩ := List.mem_map.mp listed
    cases found : package.getFileInfo fileName with
    | none =>
        have missing := List.find?_eq_none.mp found entry member
        simp [same] at missing
    | some info => exact ⟨info, rfl, (getFileInfo_some found).2⟩
  unfold files
  generalize package.fileIds = fileIds at known
  induction fileIds with
  | nil => rfl
  | cons fileName fileIds ih =>
      obtain ⟨info, found, same⟩ := known fileName (.head _)
      rw [List.filterMap_cons_some found, List.map_cons, same,
        ← ih fun other listed => known other (.tail _ listed)]

theorem ZipPackage.length_files_le (package : ZipPackage) :
    package.files.length ≤ package.entries.length := by
  have same := congrArg List.length package.fileIds_eq
  rw [List.length_map, fileIds, List.length_map] at same
  exact Nat.le_of_eq same.symm

section

variable (codec : Codec) (new old : ZipPackage) (limit : Nat)

/-- The configuration found for an entry that is in the old package too. -/
def packedConfig (info : ZipEntry) : Option ZipConfig := do
  let _ ← old.extract codec info.identity
  let data ← new.extract codec info.identity
  testAndSetConfig codec new info data

/-- `DiffFile` does not give up at this entry. -/
structure Diffable (info : ZipEntry) : Prop where
  extracts : (new.extract codec info.identity).isSome
  belowLimit : limit = 0 ∨ info.unpackedSize < limit
  tests : (old.extract codec info.identity).isSome → (packedConfig codec new old info).isSome

/-- The blocks of one entry. -/
def fileBlocks (info : ZipEntry) : List ImageBlock :=
  match old.extract codec info.identity, old.getFileInfo info.identity,
      new.extract codec info.identity with
  | some oldBuffer, some oldFileInfo, some newBuffer =>
      updateBlocks info oldFileInfo oldBuffer newBuffer
  | _, _, _ => [{
      type := .raw
      newInfo := ⟨info.headerOffset, info.realDataLen⟩
      oldInfo := ⟨0, old.buffer.length⟩ }]

/-- The configuration that all headers get: that of the last entry tested. -/
def lastConfig : Option ZipConfig :=
  (new.files.filterMap (packedConfig codec new old)).getLast?

end

variable {codec : Codec} {new old : ZipPackage} {limit : Nat} {st st' : ZipDiffState}

theorem extract_some {package : ZipPackage} {fileName : String} {data : Bytes}
    (extracted : package.extract codec fileName = some data) :
    ∃ info, package.getFileInfo fileName = some info ∧ package.unpack codec info = some data ∧
      info.unpackedSize = data.length := by
  simp only [ZipPackage.extract, Option.bind_eq_bind] at extracted
  obtain ⟨info, found, extracted⟩ := Option.bind_eq_some_iff.mp extracted
  obtain ⟨unpacked, read, extracted⟩ := Option.bind_eq_some_iff.mp extracted
  split at extracted
  · cases extracted
  · rename_i same
    cases extracted
    exact ⟨info, found, read, not_not.mp same⟩

/-- What one call of `DiffFile` does. -/
theorem diffFile_eq_some {info : ZipEntry} (file : info ∈ new.files) :
    diffFile codec new old limit st info.identity = some st' ↔
      Diffable codec new old limit info ∧
        st'.updateBlocks = st.updateBlocks ++ fileBlocks codec new old info ∧
        st'.newOffset = st.newOffset + info.realDataLen ∧
        st'.config = (packedConfig codec new old info).getD st.config ∧
        st'.oldOffset = st.oldOffset +
          (match old.extract codec info.identity, old.getFileInfo info.identity with
            | some _, some oldFileInfo => oldFileInfo.realDataLen
            | _, _ => 0) := by
  have found := ZipPackage.getFileInfo_file file
  constructor
  · intro diffed
    simp only [diffFile, found, Option.bind_eq_bind, Option.bind_some] at diffed
    obtain ⟨newBuffer, extracted, diffed⟩ := Option.bind_eq_some_iff.mp diffed
    split at diffed
    · cases diffed
    · rename_i reached
      have belowLimit : limit = 0 ∨ info.unpackedSize < limit := by
        rcases Nat.eq_zero_or_pos limit with zero | positive
        · exact .inl zero
        · exact .inr (Nat.not_le.mp fun atLeast => reached ⟨Nat.ne_of_gt positive, atLeast⟩)
      cases oldExtracted : old.extract codec info.identity with
      | none =>
          simp only [oldExtracted] at diffed
          cases diffed
          refine ⟨⟨?_, belowLimit, ?_⟩, ?_, rfl, ?_, rfl⟩
          · rw [extracted]
            rfl
          · intro some
            rw [oldExtracted] at some
            cases some
          · simp [fileBlocks, oldExtracted]
          · simp [packedConfig, oldExtracted]
      | some oldBuffer =>
          simp only [oldExtracted] at diffed
          obtain ⟨oldFileInfo, oldFound, diffed⟩ := Option.bind_eq_some_iff.mp diffed
          obtain ⟨config, tested, diffed⟩ := Option.bind_eq_some_iff.mp diffed
          cases diffed
          have packed : packedConfig codec new old info = some config := by
            simp only [packedConfig, oldExtracted, extracted, Option.bind_eq_bind,
              Option.bind_some, tested]
          refine ⟨⟨?_, belowLimit, ?_⟩, ?_, rfl, ?_, ?_⟩
          · rw [extracted]
            rfl
          · intro _
            rw [packed]
            rfl
          · simp [fileBlocks, oldExtracted, oldFound, extracted]
          · rw [packed]
            rfl
          · simp only [oldFound]
  · rintro ⟨⟨extracts, belowLimit, tests⟩, blocks, newOffset, config, oldOffset⟩
    obtain ⟨newBuffer, extracted⟩ := Option.isSome_iff_exists.mp extracts
    have reached : ¬ (limit ≠ 0 ∧ info.unpackedSize ≥ limit) := by
      rintro ⟨nonzero, atLeast⟩
      rcases belowLimit with zero | below
      · exact nonzero zero
      · exact absurd below (Nat.not_lt.mpr atLeast)
    cases st' with
    | mk updateBlocks' oldOffset' newOffset' config' =>
      simp only at blocks newOffset config oldOffset
      subst blocks newOffset config oldOffset
      simp only [diffFile, found, extracted, if_neg reached, Option.bind_eq_bind, Option.bind_some]
      cases oldExtracted : old.extract codec info.identity with
      | none =>
          simp only [fileBlocks, packedConfig, oldExtracted, Option.bind_eq_bind, Option.bind_none]
          rfl
      | some oldBuffer =>
          obtain ⟨oldFileInfo, oldFound, -⟩ := extract_some oldExtracted
          obtain ⟨config, packed⟩ := Option.isSome_iff_exists.mp (tests (by rw [oldExtracted]; rfl))
          have tested := packed
          simp only [packedConfig, oldExtracted, extracted, Option.bind_eq_bind,
            Option.bind_some] at tested
          simp only [fileBlocks, packed, oldExtracted, oldFound, extracted, tested,
            Option.bind_some]
          rfl

/-- Run lemma: the members behind all entries, which all can be diffed. -/
theorem diffFiles_eq_some {files : List ZipEntry} (known : ∀ info ∈ files, info ∈ new.files)
    (diffed : (files.map ZipEntry.identity).foldlM (diffFile codec new old limit) st = some st') :
    (∀ info ∈ files, Diffable codec new old limit info) ∧
      st'.updateBlocks = st.updateBlocks ++ files.flatMap (fileBlocks codec new old) ∧
      st'.newOffset = st.newOffset + (files.map ZipEntry.realDataLen).sum ∧
      st'.config = ((files.filterMap (packedConfig codec new old)).getLast?).getD st.config := by
  induction files generalizing st with
  | nil =>
      cases diffed
      simp
  | cons info files ih =>
      simp only [List.map_cons, List.foldlM_cons, Option.bind_eq_bind] at diffed
      obtain ⟨middle, first, later⟩ := Option.bind_eq_some_iff.mp diffed
      obtain ⟨diffable, blocks, newOffset, config, -⟩ :=
        (diffFile_eq_some (known info (.head _))).mp first
      obtain ⟨restDiffable, restBlocks, restOffset, restConfig⟩ :=
        ih (fun other listed => known other (.tail _ listed)) later
      refine ⟨?_, ?_, ?_, ?_⟩
      · intro other listed
        rcases List.mem_cons.mp listed with rfl | listed
        · exact diffable
        · exact restDiffable other listed
      · rw [restBlocks, blocks, List.flatMap_cons, List.append_assoc]
      · rw [restOffset, newOffset, List.map_cons, List.sum_cons, Nat.add_assoc]
      · rw [restConfig, config]
        cases packed : packedConfig codec new old info with
        | none => rw [List.filterMap_cons_none packed, Option.getD_none]
        | some found =>
            rw [List.filterMap_cons_some packed, List.getLast?_cons, Option.getD_some,
              Option.getD_some]

/-- The entries can all be diffed just when `MakePatch` does not fall back. -/
theorem diffFiles_isSome {files : List ZipEntry} (known : ∀ info ∈ files, info ∈ new.files)
    (diffable : ∀ info ∈ files, Diffable codec new old limit info) :
    ∃ st', (files.map ZipEntry.identity).foldlM (diffFile codec new old limit) st = some st' := by
  induction files generalizing st with
  | nil => exact ⟨st, rfl⟩
  | cons info files ih =>
      have first := (@diffFile_eq_some codec new old limit st ⟨_, _, _, _⟩ info (known info (.head _))).mpr
        ⟨diffable info (.head _), rfl, rfl, rfl, rfl⟩
      simp only [List.map_cons, List.foldlM_cons, Option.bind_eq_bind, first, Option.bind_some]
      exact ih (fun other listed => known other (.tail _ listed))
        fun other listed => diffable other (.tail _ listed)

/-- The level that is found gives the packed data, which is not made from nothing. -/
theorem testLevels_some {config found : ZipConfig} {data packed : Bytes} {count : Nat}
    (tested : testLevels codec config data packed count = some found) :
    data ≠ [] ∧ codec.compress (.zip found) data = some packed ∧
      ∃ level < count, found = { config with level := level } := by
  induction count with
  | zero => cases tested
  | succ level ih =>
      simp only [testLevels, Option.bind_eq_bind] at tested
      obtain ⟨out, compressed, tested⟩ := Option.bind_eq_some_iff.mp tested
      split at tested
      · rename_i same
        cases tested
        unfold compressData at compressed
        split at compressed
        · cases compressed
        · rename_i nonempty
          rw [same] at compressed
          exact ⟨nonempty, compressed, level, Nat.lt_succ_self level, rfl⟩
      · obtain ⟨nonempty, gives, lower, below, same⟩ := ih tested
        exact ⟨nonempty, gives, lower, Nat.lt_succ_of_lt below, same⟩

/-- All entries are deflated. -/
def ZipPackage.Deflated (package : ZipPackage) : Prop :=
  ∀ info ∈ package.entries, info.method = zDeflated

theorem extract_deflated {package : ZipPackage} {info : ZipEntry} {data : Bytes}
    (deflated : package.Deflated) (found : package.getFileInfo info.identity = some info)
    (extracted : package.extract codec info.identity = some data) :
    info.dataOffset + info.packedSize ≤ package.buffer.length ∧ data.length < 2 ^ 64 ∧
      codec.decompress (.zip info.config) (slice package.buffer info.dataOffset info.packedSize)
        data.length = some data := by
  obtain ⟨same, sameFound, unpacked, size⟩ := extract_some extracted
  rw [found] at sameFound
  cases sameFound
  obtain ⟨member, -⟩ := ZipPackage.getFileInfo_some found
  simp only [ZipPackage.unpack, Option.bind_eq_bind] at unpacked
  obtain ⟨packed, read, unpacked⟩ := Option.bind_eq_some_iff.mp unpacked
  obtain ⟨inside, sliced⟩ := readRange_some read
  obtain ⟨inflated, decompressed, unpacked⟩ := Option.bind_eq_some_iff.mp unpacked
  have notStored : info.method ≠ zStored := by
    rw [deflated info member]
    decide
  rw [if_neg notStored, if_pos (deflated info member)] at decompressed
  split at unpacked
  · cases unpacked
  · cases unpacked
    refine ⟨inside, ?_, ?_⟩
    · rw [← size]
      exact (package.decoded info member).sized
    · rw [← sliced, ← size]
      exact decompressed

/-- What a configuration that was found says about its entry. -/
structure Packs (codec : Codec) (new : ZipPackage) (info : ZipEntry) (config : ZipConfig)
    (data : Bytes) : Prop where
  extracted : new.extract codec info.identity = some data
  nonempty : data ≠ []
  windowBits : config.windowBits = -15
  fits : config.IsInt32
  compressed : codec.compress (.zip config) data =
    some (slice new.buffer info.dataOffset info.packedSize)

theorem packedConfig_some {info : ZipEntry} {config : ZipConfig} (deflated : new.Deflated)
    (file : info ∈ new.files) (packed : packedConfig codec new old info = some config) :
    ∃ data, Packs codec new info config data := by
  simp only [packedConfig, Option.bind_eq_bind] at packed
  obtain ⟨_, _, packed⟩ := Option.bind_eq_some_iff.mp packed
  obtain ⟨data, extracted, packed⟩ := Option.bind_eq_some_iff.mp packed
  simp only [testAndSetConfig, Option.bind_eq_bind] at packed
  obtain ⟨bytes, read, tested⟩ := Option.bind_eq_some_iff.mp packed
  obtain ⟨-, sliced⟩ := readRange_some read
  obtain ⟨nonempty, compressed, level, below, same⟩ := testLevels_some tested
  rw [sliced] at compressed
  have method := deflated info (ZipPackage.file_mem file)
  refine ⟨data, extracted, nonempty, ?_, ?_, compressed⟩
  · rw [same]
    rfl
  · subst same
    have highest : zipMaxLevel = 9 := rfl
    have deflate : zDeflated = 8 := rfl
    constructor
    · simp only [IsInt32]
      omega
    · simp only [IsInt32, ZipEntry.config, method]
      omega
    · simp only [IsInt32, ZipEntry.config]
      omega
    · simp only [IsInt32, ZipEntry.config]
      omega
    · simp only [IsInt32, ZipEntry.config]
      omega

/-- The two shapes of the blocks of an entry. -/
theorem fileBlocks_cases {info : ZipEntry} (deflated : new.Deflated) (file : info ∈ new.files)
    (diffable : Diffable codec new old limit info) :
    (packedConfig codec new old info = none ∧ fileBlocks codec new old info = [{
      type := .raw
      newInfo := ⟨info.headerOffset, info.headerLen + info.packedSize⟩
      oldInfo := ⟨0, old.buffer.length⟩ }]) ∨
    ∃ config data oldFileInfo oldData, packedConfig codec new old info = some config ∧
      Packs codec new info config data ∧ old.extract codec info.identity = some oldData ∧
      old.getFileInfo info.identity = some oldFileInfo ∧
      fileBlocks codec new old info = [{
        type := .raw
        newInfo := ⟨info.headerOffset, info.headerLen⟩
        oldInfo := ⟨oldFileInfo.headerOffset, oldFileInfo.headerLen⟩ }, {
        type := .deflate
        newInfo := ⟨info.dataOffset, info.packedSize⟩
        oldInfo := ⟨oldFileInfo.dataOffset, oldFileInfo.packedSize⟩
        srcOriginalData := oldData
        destOriginalData := data }] := by
  cases oldExtracted : old.extract codec info.identity with
  | none =>
      left
      constructor
      · simp [packedConfig, oldExtracted]
      · simp [fileBlocks, oldExtracted]
  | some oldData =>
      right
      obtain ⟨config, packed⟩ := Option.isSome_iff_exists.mp
        (diffable.tests (by rw [oldExtracted]; rfl))
      obtain ⟨data, packs⟩ := packedConfig_some deflated file packed
      obtain ⟨oldFileInfo, oldFound, -⟩ := extract_some oldExtracted
      have long := (new.decoded info (ZipPackage.file_mem file)).headerLen
      have header : info.dataOffset > info.headerOffset := by
        have size : localFileHeaderSize = 30 := rfl
        unfold ZipEntry.dataOffset
        omega
      refine ⟨config, data, oldFileInfo, oldData, packed, packs, rfl, oldFound, ?_⟩
      simp only [fileBlocks, oldExtracted, oldFound, packs.extracted, updateBlocks, if_pos header,
        List.singleton_append]
      simp [ZipEntry.dataOffset]

/-- What a block is read back as: a deflate block is deflated anew. -/
def zipResult (codec : Codec) (images : Images) (config : ZipConfig) (block : ImageBlock) :
    Option Bytes :=
  if block.type = .deflate then codec.compress (.zip config) block.destOriginalData
  else some (newData images block)

theorem joinResults_append {blockResult : ImageBlock → Option Bytes}
    (first second : List ImageBlock) :
    joinResults blockResult (first ++ second) =
      (joinResults blockResult first).bind fun data =>
        (joinResults blockResult second).map (data ++ ·) := by
  induction first with
  | nil => simp [joinResults]
  | cons block first ih =>
      rw [List.cons_append, joinResults, ih, joinResults]
      cases blockResult block with
      | none => rfl
      | some data =>
          cases joinResults blockResult first with
          | none => rfl
          | some more =>
              cases joinResults blockResult second with
              | none => rfl
              | some rest => simp

/-- The whole entry is written where no configuration was needed; else its header, and
its data deflated with the configuration of the headers. -/
theorem joinResults_fileBlocks {info : ZipEntry} {config : ZipConfig} (deflated : new.Deflated)
    (file : info ∈ new.files) (diffable : Diffable codec new old limit info) :
    (packedConfig codec new old info = none ∧
      joinResults (zipResult codec (new.images old) config) (fileBlocks codec new old info) =
        some (slice new.buffer info.headerOffset info.realDataLen)) ∨
    ∃ own data, packedConfig codec new old info = some own ∧ Packs codec new info own data ∧
      joinResults (zipResult codec (new.images old) config) (fileBlocks codec new old info) =
        (codec.compress (.zip config) data).map
          (slice new.buffer info.headerOffset info.headerLen ++ ·) := by
  rcases fileBlocks_cases deflated file diffable with
    ⟨none, blocks⟩ | ⟨own, data, oldFileInfo, oldData, packed, packs, -, -, blocks⟩
  · left
    refine ⟨none, ?_⟩
    rw [blocks]
    simp [joinResults, zipResult, newData, ZipPackage.images]
  · right
    refine ⟨own, data, packed, packs, ?_⟩
    rw [blocks]
    cases compressed : codec.compress (.zip config) data with
    | none => simp [joinResults, zipResult, compressed]
    | some out => simp [joinResults, zipResult, compressed, newData, ZipPackage.images]

end Updater.DiffPatch
