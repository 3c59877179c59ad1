import Updater.DiffPatch.ZipImageBlocks

/-! Applying the patch of two zip packages gives the new one back if its entries lie
one behind another and one level deflates all of them; the headers have no other. -/

set_option autoImplicit false

namespace Updater.DiffPatch

open Updater.Base

/-- Each header starts where the packed data before it ends. -/
def Contiguous : Nat → List ZipEntry → Prop
  | _, [] => True
  | offset, info :: files =>
      info.headerOffset = offset ∧ Contiguous (offset + info.realDataLen) files

/-- Each header starts where the packed data before it ends, or behind the data
descriptor there. -/
def LaidOut : Nat → List ZipEntry → Prop
  | _, [] => True
  | offset, info :: files =>
      info.headerOffset = offset ∧
        if info.hasDataDesc then ∃ next, LaidOut next files
        else LaidOut (offset + info.realDataLen) files

section

variable (codec : Codec) (new old : ZipPackage)

/-- Entries without gaps, of which those that are in the old package too can all be
deflated with the configuration found for the last one; and short raw pieces. -/
structure ZipReproduced : Prop where
  contiguous : Contiguous 0 new.files
  repacked : ∀ config, lastConfig codec new old = some config → ∀ info ∈ new.files,
    packedConfig codec new old info ≠ none → ∀ data,
      new.extract codec info.identity = some data →
        codec.compress (.zip config) data =
          some (slice new.buffer info.dataOffset info.packedSize)
  rawFits : ∀ info ∈ new.files,
    if (packedConfig codec new old info).isSome then info.headerLen < 2 ^ 32
    else info.realDataLen < 2 ^ 32
  tailFits : new.buffer.length - (new.files.map ZipEntry.realDataLen).sum < 2 ^ 32

end

variable {blockPatch : BlockPatch} {codec : Codec} {new old : ZipPackage} {limit : Nat}
variable {config : ZipConfig} {patch : Bytes}

theorem file_inside {info : ZipEntry} (deflated : new.Deflated) (file : info ∈ new.files)
    (diffable : Diffable codec new old limit info) :
    info.headerOffset + info.realDataLen ≤ new.buffer.length := by
  obtain ⟨data, extracted⟩ := Option.isSome_iff_exists.mp diffable.extracts
  obtain ⟨inside, -⟩ := extract_deflated deflated (ZipPackage.getFileInfo_file file) extracted
  rw [ZipEntry.realDataLen_eq]
  unfold ZipEntry.dataOffset at inside
  omega

/-- Step lemma: an entry that the configuration packs is written as it is. -/
theorem joinResults_repacked {info : ZipEntry} (deflated : new.Deflated)
    (file : info ∈ new.files) (diffable : Diffable codec new old limit info)
    (repacked : packedConfig codec new old info ≠ none → ∀ data,
      new.extract codec info.identity = some data →
        codec.compress (.zip config) data =
          some (slice new.buffer info.dataOffset info.packedSize)) :
    joinResults (zipResult codec (new.images old) config) (fileBlocks codec new old info) =
      some (slice new.buffer info.headerOffset info.realDataLen) := by
  rcases @joinResults_fileBlocks codec new old limit info config deflated file diffable with
    ⟨-, whole⟩ | ⟨own, data, packed, packs, parts⟩
  · exact whole
  · have found : packedConfig codec new old info ≠ none := by
      rw [packed]
      exact Option.some_ne_none own
    rw [parts, repacked found data packs.extracted, Option.map_some, ZipEntry.dataOffset,
      slice_append_slice, ZipEntry.realDataLen_eq]

/-- Run lemma: contiguous entries that are all packed again are written one after
another. -/
theorem joinResults_contiguous {files : List ZipEntry} {offset : Nat} (deflated : new.Deflated)
    (known : ∀ info ∈ files, info ∈ new.files)
    (diffable : ∀ info ∈ files, Diffable codec new old limit info)
    (contiguous : Contiguous offset files)
    (repacked : ∀ info ∈ files, packedConfig codec new old info ≠ none → ∀ data,
      new.extract codec info.identity = some data →
        codec.compress (.zip config) data =
          some (slice new.buffer info.dataOffset info.packedSize)) :
    joinResults (zipResult codec (new.images old) config)
        (files.flatMap (fileBlocks codec new old)) =
      some (slice new.buffer offset (files.map ZipEntry.realDataLen).sum) := by
  induction files generalizing offset with
  | nil => simp [joinResults]
  | cons info files ih =>
      obtain ⟨starts, contiguous⟩ := contiguous
      have first := @joinResults_repacked codec new old limit config info deflated
        (known info (.head _))
        (diffable info (.head _)) (repacked info (.head _))
      have rest := ih (fun other listed => known other (.tail _ listed))
        (fun other listed => diffable other (.tail _ listed)) contiguous
        (fun other listed => repacked other (.tail _ listed))
      rw [List.flatMap_cons, joinResults_append, first, Option.bind_some, rest, Option.map_some,
        starts, slice_append_slice, List.map_cons, List.sum_cons]

/-- An entry's blocks start with its local header. -/
theorem joinResults_signature {info : ZipEntry} {data : Bytes} (deflated : new.Deflated)
    (file : info ∈ new.files) (diffable : Diffable codec new old limit info)
    (joined : joinResults (zipResult codec (new.images old) config)
      (fileBlocks codec new old info) = some data) :
    ∃ rest, data = leBytes 4 localHeaderSignature ++ rest := by
  have inside := file_inside deflated file diffable
  obtain ⟨signature, long, -, -⟩ := new.decoded info (ZipPackage.file_mem file)
  have size : localFileHeaderSize = 30 := rfl
  rw [ZipEntry.realDataLen_eq] at inside
  have front (length : Nat) (enough : 4 ≤ length) :
      slice new.buffer info.headerOffset length =
        leBytes 4 localHeaderSignature ++ slice new.buffer (info.headerOffset + 4) (length - 4) := by
    rw [← signature, slice_append_slice]
    congr 1
    omega
  rcases @joinResults_fileBlocks codec new old limit info config deflated file diffable with
    ⟨-, whole⟩ | ⟨own, content, -, -, parts⟩
  · rw [whole, ZipEntry.realDataLen_eq, front _ (by omega)] at joined
    cases joined
    exact ⟨_, rfl⟩
  · rw [parts] at joined
    obtain ⟨out, -, same⟩ := Option.map_eq_some_iff.mp joined
    rw [front _ (by omega), List.append_assoc] at same
    exact ⟨_, same.symm⟩

/-- Step lemma for the way back: an entry that is written where it stands was packed
again, and the rest is written behind it. -/
theorem repacked_of_joinResults {info : ZipEntry} {tail : Bytes} (zlib : codec.IsZlib)
    (deflated : new.Deflated) (file : info ∈ new.files)
    (diffable : Diffable codec new old limit info)
    (window : packedConfig codec new old info ≠ none → config.windowBits = -15)
    (joined : (joinResults (zipResult codec (new.images old) config)
      (fileBlocks codec new old info)).map (· ++ tail) =
        some (new.buffer.drop info.headerOffset)) :
    tail = new.buffer.drop (info.headerOffset + info.realDataLen) ∧
      (packedConfig codec new old info ≠ none → ∀ data,
        new.extract codec info.identity = some data →
          codec.compress (.zip config) data =
            some (slice new.buffer info.dataOffset info.packedSize)) := by
  have split (start length : Nat) :
      new.buffer.drop start = slice new.buffer start length ++ new.buffer.drop (start + length) := by
    rw [slice, ← List.drop_drop, List.take_append_drop]
  rcases @joinResults_fileBlocks codec new old limit info config deflated file diffable with
    ⟨none, whole⟩ | ⟨own, data, packed, packs, parts⟩
  · rw [whole, Option.map_some, split _ info.realDataLen] at joined
    refine ⟨List.append_cancel_left (Option.some.inj joined), ?_⟩
    intro found
    exact absurd none found
  · rw [parts] at joined
    cases compressed : codec.compress (.zip config) data with
    | none =>
        rw [compressed] at joined
        cases joined
    | some out =>
        rw [compressed, Option.map_some, Option.map_some, List.append_assoc,
          split _ info.headerLen] at joined
        have behind := List.append_cancel_left (Option.some.inj joined)
        have same : out ++ tail = slice new.buffer info.dataOffset info.packedSize ++
            new.buffer.drop (info.dataOffset + info.packedSize) := by
          rw [← split]
          exact behind
        have windows : config.windowBits = own.windowBits := by
          rw [packs.windowBits]
          apply window
          rw [packed]
          exact Option.some_ne_none own
        have equal : out = slice new.buffer info.dataOffset info.packedSize := by
          rcases List.append_eq_append_iff.mp same with ⟨more, packedSame, -⟩ | ⟨more, outSame, -⟩
          · exact zlib.ends windows compressed packs.compressed ⟨more, packedSame.symm⟩
          · exact (zlib.ends windows.symm packs.compressed compressed ⟨more, outSame.symm⟩).symm
        rw [equal] at same
        constructor
        · rw [List.append_cancel_left same, ZipEntry.realDataLen_eq, ZipEntry.dataOffset,
            Nat.add_assoc]
        · intro _ other extracted
          rw [packs.extracted] at extracted
          cases extracted
          rw [compressed, equal]

theorem descriptor_not_header (first second : Bytes) :
    leBytes 4 dataDescSignature ++ first ≠ leBytes 4 localHeaderSignature ++ second := by
  intro same
  have starts := congrArg (List.take 4) same
  rw [List.take_left' (length_leBytes 4 _), List.take_left' (length_leBytes 4 _)] at starts
  exact absurd starts (by decide)

/-- Run lemma for the way back, by induction on the entries from the offset where they
are written. A descriptor before another entry is where the header of that would be. -/
theorem reproduced_of_joinResults {files : List ZipEntry} {offset : Nat} {tail : Bytes}
    (zlib : codec.IsZlib) (deflated : new.Deflated)
    (window : ∀ info ∈ files, packedConfig codec new old info ≠ none → config.windowBits = -15)
    (known : ∀ info ∈ files, info ∈ new.files)
    (diffable : ∀ info ∈ files, Diffable codec new old limit info) (laidOut : LaidOut offset files)
    (joined : (joinResults (zipResult codec (new.images old) config)
      (files.flatMap (fileBlocks codec new old))).map (· ++ tail) =
        some (new.buffer.drop offset)) :
    Contiguous offset files ∧ ∀ info ∈ files, packedConfig codec new old info ≠ none → ∀ data,
      new.extract codec info.identity = some data →
        codec.compress (.zip config) data =
          some (slice new.buffer info.dataOffset info.packedSize) := by
  induction files generalizing offset with
  | nil => exact ⟨trivial, fun _ listed => absurd listed List.not_mem_nil⟩
  | cons info files ih =>
      obtain ⟨starts, laidOut⟩ := laidOut
      have file := known info (.head _)
      rw [List.flatMap_cons, joinResults_append] at joined
      cases first : joinResults (zipResult codec (new.images old) config)
          (fileBlocks codec new old info) with
      | none =>
          rw [first] at joined
          cases joined
      | some data =>
          cases later : joinResults (zipResult codec (new.images old) config)
              (files.flatMap (fileBlocks codec new old)) with
          | none =>
              rw [first, later] at joined
              cases joined
          | some rest =>
              rw [first, later, Option.bind_some, Option.map_some, Option.map_some,
                List.append_assoc, ← starts] at joined
              obtain ⟨behind, repacked⟩ := @repacked_of_joinResults codec new old limit config info
                (rest ++ tail) zlib
                deflated file (diffable info (.head _)) (window info (.head _))
                (by rw [first]; exact joined)
              have restKnown : ∀ other ∈ files, other ∈ new.files :=
                fun other listed => known other (.tail _ listed)
              have restDiffable : ∀ other ∈ files, Diffable codec new old limit other :=
                fun other listed => diffable other (.tail _ listed)
              have contiguous : Contiguous (offset + info.realDataLen) files ∧
                  ∀ other ∈ files, packedConfig codec new old other ≠ none → ∀ data,
                    new.extract codec other.identity = some data →
                      codec.compress (.zip config) data =
                        some (slice new.buffer other.dataOffset other.packedSize) := by
                split at laidOut
                · rename_i described
                  cases files with
                  | nil => exact ⟨trivial, fun _ listed => absurd listed List.not_mem_nil⟩
                  | cons next files =>
                      exfalso
                      rw [List.flatMap_cons, joinResults_append] at later
                      obtain ⟨nextData, nextJoined, later⟩ := Option.bind_eq_some_iff.mp later
                      obtain ⟨more, -, same⟩ := Option.map_eq_some_iff.mp later
                      obtain ⟨nextRest, header⟩ := joinResults_signature deflated
                        (restKnown next (.head _)) (restDiffable next (.head _)) nextJoined
                      have descriptor := (new.decoded info (ZipPackage.file_mem file)).dataDesc
                        described
                      have place : info.headerOffset + info.realDataLen =
                          info.dataOffset + info.packedSize := by
                        rw [ZipEntry.realDataLen_eq, ZipEntry.dataOffset, Nat.add_assoc]
                      rw [← same, header, List.append_assoc, List.append_assoc, place] at behind
                      have stands : new.buffer.drop (info.dataOffset + info.packedSize) =
                          leBytes 4 dataDescSignature ++
                            (new.buffer.drop (info.dataOffset + info.packedSize)).drop 4 := by
                        rw [← descriptor, slice, List.take_append_drop]
                      rw [stands] at behind
                      exact descriptor_not_header _ _ behind.symm
                · refine ih (fun other listed => window other (.tail _ listed)) restKnown restDiffable
                    laidOut ?_
                  rw [later, Option.map_some, behind, starts]
              refine ⟨⟨starts, contiguous.1⟩, ?_⟩
              intro other listed
              rcases List.mem_cons.mp listed with rfl | listed
              · exact repacked
              · exact contiguous.2 other listed

/-- The configuration in the headers of deflate blocks is one that was found. -/
theorem lastConfig_getD {info : ZipEntry} (deflated : new.Deflated) (file : info ∈ new.files)
    (packed : packedConfig codec new old info ≠ none) (start : ZipConfig) :
    ∃ config, lastConfig codec new old = some config ∧
      (lastConfig codec new old).getD start = config ∧ config.windowBits = -15 ∧
      config.IsInt32 := by
  obtain ⟨own, found⟩ := Option.ne_none_iff_exists'.mp packed
  have member : own ∈ new.files.filterMap (packedConfig codec new old) :=
    List.mem_filterMap.mpr ⟨info, file, found⟩
  cases last : lastConfig codec new old with
  | none =>
      rw [List.getLast?_eq_none_iff.mp last] at member
      exact absurd member List.not_mem_nil
  | some config =>
      obtain ⟨other, otherFile, otherFound⟩ :=
        List.mem_filterMap.mp (List.mem_of_getLast? last)
      obtain ⟨data, packs⟩ := packedConfig_some deflated otherFile otherFound
      exact ⟨config, rfl, rfl, packs.windowBits, packs.fits⟩

/-- The blocks where all entries can be diffed. -/
theorem zipBlocks_diffed (notReached : limit = 0 ∨ new.buffer.length < limit)
    (diffable : ∀ info ∈ new.files, Diffable codec new old limit info) :
    ∃ oldOffset, zipBlocks codec new old limit =
      ((lastConfig codec new old).getD ZipDiffState.start.config,
        new.files.flatMap (fileBlocks codec new old) ++
          trailingBlock new old {
            updateBlocks := new.files.flatMap (fileBlocks codec new old)
            oldOffset
            newOffset := (new.files.map ZipEntry.realDataLen).sum
            config := (lastConfig codec new old).getD ZipDiffState.start.config }) := by
  have below : ¬ (limit ≠ 0 ∧ new.buffer.length ≥ limit) := by
    rintro ⟨nonzero, reached⟩
    rcases notReached with zero | less
    · exact nonzero zero
    · exact absurd less (Nat.not_lt.mpr reached)
  obtain ⟨⟨updateBlocks, oldOffset, newOffset, config⟩, diffed⟩ :=
    @diffFiles_isSome codec new old limit .start new.files (fun _ listed => listed) diffable
  obtain ⟨-, blocks, offset, found⟩ := diffFiles_eq_some (fun _ listed => listed) diffed
  simp only [ZipDiffState.start, List.nil_append, Nat.zero_add] at blocks offset found
  refine ⟨oldOffset, ?_⟩
  rw [zipBlocks, if_neg below, ZipPackage.fileIds_eq, diffed]
  subst blocks offset found
  rfl

/-- The blocks where one cannot. -/
theorem zipBlocks_fallback {info : ZipEntry} (notReached : limit = 0 ∨ new.buffer.length < limit)
    (file : info ∈ new.files) (given : ¬ Diffable codec new old limit info) :
    zipBlocks codec new old limit = (ZipDiffState.start.config, [{
      type := .normal
      newInfo := ⟨0, new.buffer.length⟩
      oldInfo := ⟨0, old.buffer.length⟩ }]) := by
  have below : ¬ (limit ≠ 0 ∧ new.buffer.length ≥ limit) := by
    rintro ⟨nonzero, reached⟩
    rcases notReached with zero | less
    · exact nonzero zero
    · exact absurd less (Nat.not_lt.mpr reached)
  have single : limit = 0 ∨ (new.images old).new.length ≤ limit :=
    notReached.imp_right Nat.le_of_lt
  rw [zipBlocks, if_neg below, ZipPackage.fileIds_eq]
  cases diffed : (new.files.map ZipEntry.identity).foldlM (diffFile codec new old limit) .start with
  | none =>
      simp only [imageBlocks, if_pos single]
      rfl
  | some st =>
      obtain ⟨diffable, -⟩ := diffFiles_eq_some (fun _ listed => listed) diffed
      exact absurd (diffable info file) given

/-- The block patch is exact on what the blocks of a zip diff hand to it. -/
def ZipBlocksExact (blockPatch : BlockPatch) (codec : Codec) (new old : ZipPackage) (limit : Nat) :
    Prop :=
  ∀ block ∈ (zipBlocks codec new old limit).2,
    (block.type = .normal →
      blockPatch.ExactAt (newData (new.images old) block) (oldData (new.images old) block)) ∧
    (block.type = .deflate →
      blockPatch.ExactAt block.destOriginalData block.srcOriginalData)

/-- A deflate block of an entry is read back. -/
theorem fileBlocks_deflateReads {info : ZipEntry} {block : ImageBlock} (zlib : codec.IsZlib)
    (newDeflated : new.Deflated) (oldDeflated : old.Deflated) (file : info ∈ new.files)
    (diffable : Diffable codec new old limit info) (start : ZipConfig)
    (listed : block ∈ fileBlocks codec new old info) (type : block.type = .deflate) :
    DeflateReads codec (new.images old) ((lastConfig codec new old).getD start) block := by
  rcases fileBlocks_cases newDeflated file diffable with
    ⟨-, blocks⟩ | ⟨own, data, oldFileInfo, src, packed, packs, oldExtracted, oldFound, blocks⟩
  · rw [blocks, List.mem_singleton] at listed
    rw [listed] at type
    cases type
  · rw [blocks, List.mem_cons, List.mem_singleton] at listed
    rcases listed with rfl | rfl
    · cases type
    · obtain ⟨config, -, same, window, fits⟩ :=
        @lastConfig_getD codec new old _ newDeflated file
          (by rw [packed]; exact Option.some_ne_none own) start
      rw [same]
      have identity := (ZipPackage.getFileInfo_some oldFound).2
      rw [← identity] at oldFound oldExtracted
      obtain ⟨inside, small, inflated⟩ := extract_deflated oldDeflated oldFound oldExtracted
      obtain ⟨-, newSmall, -⟩ :=
        extract_deflated newDeflated (ZipPackage.getFileInfo_file file) packs.extracted
      constructor
      · exact fits
      · exact inside
      · exact small
      · exact newSmall
      · exact packs.nonempty
      · have windows : config.windowBits = oldFileInfo.config.windowBits := window
        rw [decompressData]
        split
        · rename_i empty
          rw [List.length_eq_zero_iff.mp empty]
        · rw [zlib.inflates windows]
          change (codec.decompress (.zip oldFileInfo.config)
            (slice old.buffer oldFileInfo.dataOffset oldFileInfo.packedSize) src.length).bind _ = _
          rw [inflated]
          rfl

theorem zipMakePatch_layout (known : ∀ block ∈ (zipBlocks codec new old limit).2,
      block.type = .normal ∨ block.type = .raw ∨ block.type = .deflate)
    (made : zipMakePatch blockPatch codec new old limit = some patch) :
    ∃ owns, List.Forall₂ (zipFormat blockPatch (new.images old)
          (zipBlocks codec new old limit).1).Own (zipBlocks codec new old limit).2 owns ∧
      patch = pkgdiffMagic ++ leBytes 4 (zipBlocks codec new old limit).2.length ++
        (zipFormat blockPatch (new.images old) (zipBlocks codec new old limit).1).records
          (dataStart (zipBlocks codec new old limit).2) (zipBlocks codec new old limit).2 owns ++
            owns.flatten :=
  diffImage_layout (fun block listed => zipWriteHeader_writes (known block listed)) made

/-- As long as the raw blocks are short, applying the patch gives what its blocks are
read back as. -/
theorem applyImagePatch_zip
    (known : ∀ block ∈ (zipBlocks codec new old limit).2,
      block.type = .normal ∨ block.type = .raw ∨ block.type = .deflate)
    (counted : (zipBlocks codec new old limit).2.length < 2 ^ 31)
    (deflate : ∀ block ∈ (zipBlocks codec new old limit).2, block.type = .deflate →
      DeflateReads codec (new.images old) (zipBlocks codec new old limit).1 block)
    (rawSmall : ∀ block ∈ (zipBlocks codec new old limit).2, block.type = .raw →
      block.newInfo.length < 2 ^ 32)
    (made : zipMakePatch blockPatch codec new old limit = some patch)
    (exact : ZipBlocksExact blockPatch codec new old limit)
    (oldSmall : old.buffer.length < 2 ^ 64) (patchSmall : patch.length < 2 ^ 63) :
    applyImagePatch blockPatch codec ⟨old.buffer, patch⟩ [] =
      joinResults (zipResult codec (new.images old) (zipBlocks codec new old limit).1)
        (zipBlocks codec new old limit).2 := by
  obtain ⟨owns, each, layout⟩ := zipMakePatch_layout known made
  have applied := @applyImagePatch_layout _ blockPatch codec ⟨old.buffer, patch⟩ []
    (zipResult codec (new.images old) (zipBlocks codec new old limit).1) _ owns zipFormat_sized
    (by
      intro block taken
      have listed := List.mem_of_mem_take taken
      obtain ⟨exactNormal, exactDeflate⟩ := exact block listed
      rcases known block listed with normal | raw | deflated
      · rw [zipResult, if_neg (by rw [normal]; decide)]
        apply zipFormat_reads_plain
        · rw [normal]
          decide
        · exact imageFormat_reads_normal normal (exactNormal normal) rfl oldSmall patchSmall
      · rw [zipResult, if_neg (by rw [raw]; decide)]
        apply zipFormat_reads_plain
        · rw [raw]
          decide
        · exact imageFormat_reads_raw raw (rawSmall block listed raw)
      · rw [zipResult, if_pos deflated]
        exact zipFormat_reads_deflate deflated (deflate block listed deflated)
          (exactDeflate deflated) rfl oldSmall patchSmall)
    each layout
  rw [applied, readCount_of_lt counted, List.take_length]

theorem fileBlocks_known {info : ZipEntry} {block : ImageBlock} (deflated : new.Deflated)
    (file : info ∈ new.files) (diffable : Diffable codec new old limit info)
    (listed : block ∈ fileBlocks codec new old info) :
    block.type = .raw ∧ (if (packedConfig codec new old info).isSome then
        block.newInfo.length = info.headerLen else block.newInfo.length = info.realDataLen) ∨
      block.type = .deflate := by
  rcases fileBlocks_cases deflated file diffable with
    ⟨none, blocks⟩ | ⟨own, data, oldFileInfo, src, packed, -, -, -, blocks⟩
  · rw [blocks, List.mem_singleton] at listed
    subst listed
    left
    rw [none, ZipEntry.realDataLen_eq]
    exact ⟨rfl, rfl⟩
  · rw [blocks, List.mem_cons, List.mem_singleton] at listed
    rcases listed with rfl | rfl
    · left
      rw [packed]
      exact ⟨rfl, rfl⟩
    · exact .inr rfl

theorem length_fileBlocks_le {info : ZipEntry} (deflated : new.Deflated)
    (file : info ∈ new.files) (diffable : Diffable codec new old limit info) :
    (fileBlocks codec new old info).length ≤ 2 := by
  rcases fileBlocks_cases deflated file diffable with
    ⟨-, blocks⟩ | ⟨_, _, _, _, -, -, -, -, blocks⟩
  · rw [blocks]
    exact Nat.le_succ 1
  · rw [blocks]
    exact Nat.le_refl 2

theorem length_flatMap_fileBlocks_le {files : List ZipEntry} (deflated : new.Deflated)
    (known : ∀ info ∈ files, info ∈ new.files)
    (diffable : ∀ info ∈ files, Diffable codec new old limit info) :
    (files.flatMap (fileBlocks codec new old)).length ≤ 2 * files.length := by
  induction files with
  | nil => exact Nat.le_refl 0
  | cons info files ih =>
      have first := length_fileBlocks_le deflated (known info (.head _)) (diffable info (.head _))
      have rest := ih (fun other listed => known other (.tail _ listed))
        fun other listed => diffable other (.tail _ listed)
      rw [List.flatMap_cons, List.length_append, List.length_cons]
      omega

theorem joinResults_trailing (st : ZipDiffState) :
    joinResults (zipResult codec (new.images old) config) (trailingBlock new old st) =
      some (new.buffer.drop st.newOffset) := by
  unfold trailingBlock
  split
  · have whole : (new.buffer.drop st.newOffset).length ≤ new.buffer.length - st.newOffset := by
      rw [List.length_drop]
    simp [joinResults, zipResult, newData, ZipPackage.images, slice,
      List.take_of_length_le whole]
  · rename_i covered
    rw [List.drop_of_length_le (Nat.not_lt.mp covered)]
    rfl

/-- The chunks of a diff of all entries, if no raw piece is too long. -/
theorem applyImagePatch_diffed (zlib : codec.IsZlib) (newDeflated : new.Deflated)
    (oldDeflated : old.Deflated) (notReached : limit = 0 ∨ new.buffer.length < limit)
    (made : zipMakePatch blockPatch codec new old limit = some patch)
    (exact : ZipBlocksExact blockPatch codec new old limit)
    (oldSmall : old.buffer.length < 2 ^ 64) (patchSmall : patch.length < 2 ^ 63)
    (diffable : ∀ info ∈ new.files, Diffable codec new old limit info)
    (rawFits : ∀ info ∈ new.files,
      if (packedConfig codec new old info).isSome then info.headerLen < 2 ^ 32
      else info.realDataLen < 2 ^ 32)
    (tailFits : new.buffer.length - (new.files.map ZipEntry.realDataLen).sum < 2 ^ 32) :
    applyImagePatch blockPatch codec ⟨old.buffer, patch⟩ [] =
      (joinResults (zipResult codec (new.images old)
          ((lastConfig codec new old).getD ZipDiffState.start.config))
        (new.files.flatMap (fileBlocks codec new old))).map
          (· ++ new.buffer.drop (new.files.map ZipEntry.realDataLen).sum) := by
  obtain ⟨oldOffset, same⟩ := @zipBlocks_diffed codec new old limit notReached diffable
  have placed : ∀ block ∈ (zipBlocks codec new old limit).2,
      (∃ info ∈ new.files, block ∈ fileBlocks codec new old info) ∨
        (block.type = .raw ∧ block.newInfo.length =
          new.buffer.length - (new.files.map ZipEntry.realDataLen).sum) := by
    intro block listed
    rw [same, List.mem_append] at listed
    rcases listed with entry | trailing
    · obtain ⟨info, file, listed⟩ := List.mem_flatMap.mp entry
      exact .inl ⟨info, file, listed⟩
    · right
      unfold trailingBlock at trailing
      split at trailing
      · rw [List.mem_singleton] at trailing
        rw [trailing]
        exact ⟨rfl, rfl⟩
      · cases trailing
  rw [applyImagePatch_zip _ _ _ _ made exact oldSmall patchSmall]
  · rw [same, joinResults_append, joinResults_trailing]
    cases joinResults (zipResult codec (new.images old)
      ((lastConfig codec new old).getD ZipDiffState.start.config))
        (new.files.flatMap (fileBlocks codec new old)) <;> rfl
  · intro block listed
    rcases placed block listed with ⟨info, file, listed⟩ | ⟨raw, -⟩
    · rcases fileBlocks_known newDeflated file (diffable info file) listed with ⟨raw, -⟩ | deflate
      · exact .inr (.inl raw)
      · exact .inr (.inr deflate)
    · exact .inr (.inl raw)
  · have entries := length_flatMap_fileBlocks_le newDeflated (fun _ listed => listed) diffable
    have files := new.length_files_le
    have counted := new.counted
    have single (st : ZipDiffState) : (trailingBlock new old st).length ≤ 1 := by
      unfold trailingBlock
      split
      · exact Nat.le_refl 1
      · exact Nat.zero_le 1
    rw [same, List.length_append]
    have last := single {
      updateBlocks := new.files.flatMap (fileBlocks codec new old)
      oldOffset
      newOffset := (new.files.map ZipEntry.realDataLen).sum
      config := (lastConfig codec new old).getD ZipDiffState.start.config }
    omega
  · intro block listed type
    rcases placed block listed with ⟨info, file, listed⟩ | ⟨raw, -⟩
    · rw [same]
      exact fileBlocks_deflateReads zlib newDeflated oldDeflated file (diffable info file) _ listed
        type
    · rw [type] at raw
      cases raw
  · intro block listed raw
    rcases placed block listed with ⟨info, file, listed⟩ | ⟨-, length⟩
    · have fits := rawFits info file
      rcases fileBlocks_known newDeflated file (diffable info file) listed with ⟨-, length⟩ | deflate
      · split at length
        · rename_i packed
          rw [if_pos packed] at fits
          rw [length]
          exact fits
        · rename_i packed
          rw [if_neg packed] at fits
          rw [length]
          exact fits
      · rw [raw] at deflate
        cases deflate
    · rw [length]
      exact tailFits

/-- Applying the patch to the old package writes the new one. -/
def ZipRoundTrips (blockPatch : BlockPatch) (codec : Codec) (new old : ZipPackage)
    (patch : Bytes) : Prop :=
  applyImagePatch blockPatch codec ⟨old.buffer, patch⟩ [] = some new.buffer

/-- If an entry cannot be diffed, the whole images are. -/
theorem zipRoundTrips_fallback {info : ZipEntry}
    (notReached : limit = 0 ∨ new.buffer.length < limit)
    (made : zipMakePatch blockPatch codec new old limit = some patch)
    (exact : ZipBlocksExact blockPatch codec new old limit)
    (oldSmall : old.buffer.length < 2 ^ 64) (patchSmall : patch.length < 2 ^ 63)
    (file : info ∈ new.files) (given : ¬ Diffable codec new old limit info) :
    ZipRoundTrips blockPatch codec new old patch := by
  have same := zipBlocks_fallback notReached file given
  have normal : ∀ block ∈ (zipBlocks codec new old limit).2, block.type = .normal := by
    intro block listed
    rw [same, List.mem_singleton] at listed
    rw [listed]
  unfold ZipRoundTrips
  rw [applyImagePatch_zip (fun block listed => .inl (normal block listed)) _ _ _ made exact oldSmall
    patchSmall, same]
  · simp [joinResults, zipResult, newData, ZipPackage.images]
  · rw [same]
    exact Nat.one_lt_two_pow (by decide)
  · intro block listed deflate
    rw [normal block listed] at deflate
    cases deflate
  · intro block listed raw
    rw [normal block listed] at raw
    cases raw

/-- The round trip holds if some entry makes `MakePatch` fall back on the whole images,
or the entries have no gaps and one configuration packs them. For packages below four
gigabytes whose entries follow each other, descriptors between them or not, it holds
only then. -/
theorem zipRoundTrips_iff (blockPatch : BlockPatch) (codec : Codec) (new old : ZipPackage)
    (limit : Nat) (patch : Bytes) (zlib : codec.IsZlib) (newDeflated : new.Deflated)
    (oldDeflated : old.Deflated) (notReached : limit = 0 ∨ new.buffer.length < limit)
    (made : zipMakePatch blockPatch codec new old limit = some patch)
    (exact : ZipBlocksExact blockPatch codec new old limit)
    (oldSmall : old.buffer.length < 2 ^ 64) (patchSmall : patch.length < 2 ^ 63) :
    (((∃ info ∈ new.files, ¬ Diffable codec new old limit info) ∨
        ZipReproduced codec new old) → ZipRoundTrips blockPatch codec new old patch) ∧
      (LaidOut 0 new.files → new.buffer.length < 2 ^ 32 →
        ZipRoundTrips blockPatch codec new old patch →
          (∃ info ∈ new.files, ¬ Diffable codec new old limit info) ∨
            ZipReproduced codec new old) := by
  have windows : ∀ info ∈ new.files, packedConfig codec new old info ≠ none →
      ((lastConfig codec new old).getD ZipDiffState.start.config).windowBits = -15 := by
    intro info file packed
    obtain ⟨config, -, same, window, -⟩ := lastConfig_getD newDeflated file packed
      ZipDiffState.start.config
    rw [same]
    exact window
  constructor
  · rintro (⟨info, file, given⟩ | reproduced)
    · exact zipRoundTrips_fallback notReached made exact oldSmall patchSmall file given
    · by_cases diffable : ∀ info ∈ new.files, Diffable codec new old limit info
      · unfold ZipRoundTrips
        rw [applyImagePatch_diffed zlib newDeflated oldDeflated notReached made exact oldSmall
            patchSmall diffable reproduced.rawFits reproduced.tailFits,
          joinResults_contiguous newDeflated (fun _ listed => listed) diffable
            reproduced.contiguous]
        · rw [Option.map_some, slice, List.drop_zero, List.take_append_drop]
        · intro info file packed data extracted
          obtain ⟨config, last, same, -, -⟩ := lastConfig_getD newDeflated file packed
            ZipDiffState.start.config
          rw [same]
          exact reproduced.repacked config last info file packed data extracted
      · obtain ⟨info, given⟩ := not_forall.mp diffable
        obtain ⟨file, given⟩ := Classical.not_imp.mp given
        exact zipRoundTrips_fallback notReached made exact oldSmall patchSmall file given
  · intro laidOut newSmall trips
    by_cases diffable : ∀ info ∈ new.files, Diffable codec new old limit info
    · right
      have rawFits : ∀ info ∈ new.files,
          if (packedConfig codec new old info).isSome then info.headerLen < 2 ^ 32
          else info.realDataLen < 2 ^ 32 := by
        intro info file
        have inside := file_inside newDeflated file (diffable info file)
        have size := info.realDataLen_eq
        split
        · omega
        · omega
      have tailFits : new.buffer.length - (new.files.map ZipEntry.realDataLen).sum < 2 ^ 32 :=
        Nat.lt_of_le_of_lt (Nat.sub_le _ _) newSmall
      unfold ZipRoundTrips at trips
      rw [applyImagePatch_diffed zlib newDeflated oldDeflated notReached made exact oldSmall
        patchSmall diffable rawFits tailFits] at trips
      obtain ⟨contiguous, repacked⟩ := reproduced_of_joinResults zlib newDeflated windows
        (fun _ listed => listed) diffable laidOut trips
      refine ⟨contiguous, ?_, rawFits, tailFits⟩
      intro config last info file packed data extracted
      rw [last] at repacked
      exact repacked info file packed data extracted
    · obtain ⟨info, given⟩ := not_forall.mp diffable
      obtain ⟨file, given⟩ := Classical.not_imp.mp given
      exact .inl ⟨info, file, given⟩

/-- Some data, stored or packed by a higher level, and its checksum. -/
structure DeflateStream where
  stored : Bool
  data : Bytes
  out : Bytes
  crc : Nat
  deriving DecidableEq, Repr

/-- A library that knows these streams. -/
def Codec.ofTable (table : List DeflateStream) : Codec where
  decompress _ packed size :=
    (table.find? fun stream => stream.out = packed ∧ stream.data.length = size).map
      DeflateStream.data
  compress config data :=
    match config with
    | .zip config =>
        (table.find? fun stream =>
          stream.stored = decide (config.level = 0) ∧ stream.data = data).map DeflateStream.out
    | .lz4 _ => none
  crc32 data := ((table.find? fun stream => stream.data = data).map DeflateStream.crc).getD 0

theorem Codec.ofTable_isZlib {table : List DeflateStream}
    (ends : ∀ first ∈ table, ∀ second ∈ table, first.out <+: second.out →
      first.out = second.out) : (Codec.ofTable table).IsZlib := by
  constructor
  · intro config config' _
    rfl
  · intro config config' data data' out out' _ compressed compressed'
    obtain ⟨first, found, rfl⟩ := Option.map_eq_some_iff.mp compressed
    obtain ⟨second, found', rfl⟩ := Option.map_eq_some_iff.mp compressed'
    exact ends first (List.mem_of_find?_eq_some found) second (List.mem_of_find?_eq_some found')

/-- The deflate streams of one letter. -/
def letterStreams : List DeflateStream :=
  [⟨true, [97], [1, 1, 0, 254, 255, 97], 3904355907⟩, ⟨false, [97], [75, 4, 0], 3904355907⟩]

/-- Entries `x` and `y` of one letter each, the first stored at level 0. -/
def mixedPackage : ZipPackage where
  buffer := [
    80, 75, 3, 4, 20, 0, 0, 0, 8, 0, 0, 0, 33, 0, 67, 190, 183, 232, 6, 0, 0, 0, 1, 0, 0, 0, 1, 0,
    0, 0, 120, 1, 1, 0, 254, 255, 97, 80, 75, 3, 4, 20, 0, 0, 0, 8, 0, 0, 0, 33, 0, 67, 190, 183,
    232, 3, 0, 0, 0, 1, 0, 0, 0, 1, 0, 0, 0, 121, 75, 4, 0, 80, 75, 1, 2, 20, 0, 20, 0, 0, 0, 8,
    0, 0, 0, 33, 0, 67, 190, 183, 232, 6, 0, 0, 0, 1, 0, 0, 0, 1, 0, 0, 0, 0, 0, 0, 0, 0, 0, 0, 0,
    128, 1, 0, 0, 0, 0, 120, 80, 75, 1, 2, 20, 0, 20, 0, 0, 0, 8, 0, 0, 0, 33, 0, 67, 190, 183,
    232, 3, 0, 0, 0, 1, 0, 0, 0, 1, 0, 0, 0, 0, 0, 0, 0, 0, 0, 0, 0, 128, 1, 37, 0, 0, 0, 121, 80,
    75, 5, 6, 0, 0, 0, 0, 2, 0, 2, 0, 94, 0, 0, 0, 71, 0, 0, 0, 0, 0]
  entries := [
    ⟨"x", 0, 31, 6, 1, 8, 3904355907, false⟩,
    ⟨"y", 37, 31, 3, 1, 8, 3904355907, false⟩]
  counted := by decide
  decoded := by
    intro info listed
    simp only [List.mem_cons, List.not_mem_nil, or_false] at listed
    rcases listed with rfl | rfl
    · exact ⟨by decide, by decide, by decide, by decide⟩
    · exact ⟨by decide, by decide, by decide, by decide⟩

/-- The same entries, both packed at level 9. -/
def plainPackage : ZipPackage where
  buffer := [
    80, 75, 3, 4, 20, 0, 0, 0, 8, 0, 0, 0, 33, 0, 67, 190, 183, 232, 3, 0, 0, 0, 1, 0, 0, 0, 1, 0,
    0, 0, 120, 75, 4, 0, 80, 75, 3, 4, 20, 0, 0, 0, 8, 0, 0, 0, 33, 0, 67, 190, 183, 232, 3, 0, 0,
    0, 1, 0, 0, 0, 1, 0, 0, 0, 121, 75, 4, 0, 80, 75, 1, 2, 20, 0, 20, 0, 0, 0, 8, 0, 0, 0, 33, 0,
    67, 190, 183, 232, 3, 0, 0, 0, 1, 0, 0, 0, 1, 0, 0, 0, 0, 0, 0, 0, 0, 0, 0, 0, 128, 1, 0, 0,
    0, 0, 120, 80, 75, 1, 2, 20, 0, 20, 0, 0, 0, 8, 0, 0, 0, 33, 0, 67, 190, 183, 232, 3, 0, 0, 0,
    1, 0, 0, 0, 1, 0, 0, 0, 0, 0, 0, 0, 0, 0, 0, 0, 128, 1, 34, 0, 0, 0, 121, 80, 75, 5, 6, 0, 0,
    0, 0, 2, 0, 2, 0, 94, 0, 0, 0, 68, 0, 0, 0, 0, 0]
  entries := [
    ⟨"x", 0, 31, 3, 1, 8, 3904355907, false⟩,
    ⟨"y", 34, 31, 3, 1, 8, 3904355907, false⟩]
  counted := by decide
  decoded := by
    intro info listed
    simp only [List.mem_cons, List.not_mem_nil, or_false] at listed
    rcases listed with rfl | rfl
    · exact ⟨by decide, by decide, by decide, by decide⟩
    · exact ⟨by decide, by decide, by decide, by decide⟩

private theorem letterStreams_isZlib : (Codec.ofTable letterStreams).IsZlib :=
  Codec.ofTable_isZlib (by decide)

private theorem storedPatch_zipExact (codec : Codec) (new old : ZipPackage) (limit : Nat) :
    ZipBlocksExact storedPatch codec new old limit :=
  fun _ _ => ⟨fun _ => storedPatch_exactAt _ _, fun _ => storedPatch_exactAt _ _⟩

private theorem mixedPackage_deflated : mixedPackage.Deflated := by
  unfold ZipPackage.Deflated
  decide

private theorem plainPackage_deflated : plainPackage.Deflated := by
  unfold ZipPackage.Deflated
  decide

theorem zipRoundTrips_plain :
    ∃ patch, zipMakePatch storedPatch (.ofTable letterStreams) plainPackage mixedPackage 0 =
        some patch ∧
      (((∃ info ∈ plainPackage.files,
            ¬ Diffable (.ofTable letterStreams) plainPackage mixedPackage 0 info) ∨
          ZipReproduced (.ofTable letterStreams) plainPackage mixedPackage) →
        ZipRoundTrips storedPatch (.ofTable letterStreams) plainPackage mixedPackage patch) ∧
      (LaidOut 0 plainPackage.files → plainPackage.buffer.length < 2 ^ 32 →
        ZipRoundTrips storedPatch (.ofTable letterStreams) plainPackage mixedPackage patch →
          (∃ info ∈ plainPackage.files,
            ¬ Diffable (.ofTable letterStreams) plainPackage mixedPackage 0 info) ∨
          ZipReproduced (.ofTable letterStreams) plainPackage mixedPackage) := by
  have good : (zipMakePatch storedPatch (.ofTable letterStreams) plainPackage mixedPackage 0).any
      (fun patch => patch.length < 2 ^ 63) = true := by
    decide +kernel
  cases made : zipMakePatch storedPatch (.ofTable letterStreams) plainPackage mixedPackage 0 with
  | none =>
      rw [made] at good
      cases good
  | some patch =>
      rw [made] at good
      exact ⟨patch, rfl, zipRoundTrips_iff storedPatch _ plainPackage mixedPackage 0 patch
        letterStreams_isZlib plainPackage_deflated mixedPackage_deflated (.inl rfl) made
        (storedPatch_zipExact _ _ _ _) (by decide +kernel) (of_decide_eq_true good)⟩

/-- The level of the last entry is used for both, and the first is not what it was. -/
theorem mixed_levels_lost :
    (Codec.ofTable letterStreams).IsZlib ∧ mixedPackage.Deflated ∧ plainPackage.Deflated ∧
      ZipBlocksExact storedPatch (.ofTable letterStreams) mixedPackage plainPackage 0 ∧
      ∃ patch, zipMakePatch storedPatch (.ofTable letterStreams) mixedPackage plainPackage 0 =
          some patch ∧ patch.length < 2 ^ 63 ∧
        ¬ ZipRoundTrips storedPatch (.ofTable letterStreams) mixedPackage plainPackage patch := by
  refine ⟨letterStreams_isZlib, mixedPackage_deflated, plainPackage_deflated,
    storedPatch_zipExact _ _ _ _, ?_⟩
  have lost : (zipMakePatch storedPatch (.ofTable letterStreams) mixedPackage plainPackage 0).any
      (fun patch => patch.length < 2 ^ 63 &&
        applyImagePatch storedPatch (.ofTable letterStreams) ⟨plainPackage.buffer, patch⟩ [] !=
          some mixedPackage.buffer) = true := by
    decide +kernel
  cases made : zipMakePatch storedPatch (.ofTable letterStreams) mixedPackage plainPackage 0 with
  | none =>
      rw [made] at lost
      cases lost
  | some patch =>
      rw [made, Option.any_some, Bool.and_eq_true, bne_iff_ne] at lost
      exact ⟨patch, rfl, of_decide_eq_true lost.1, lost.2⟩

end Updater.DiffPatch
