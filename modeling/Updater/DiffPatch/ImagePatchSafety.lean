import Updater.Base.Memory
import Updater.Base.Traced
import Updater.DiffPatch.ImagePatch

/-! The reads of `ApplyImagePatch` on the patch and the old image, as a condition on the
raw chunks of an arbitrary patch. -/

set_option autoImplicit false

namespace Updater.DiffPatch

open Updater.Base

/-- What the chunks of an image patch do with memory: bytes of the patch and of the old
image that are read or handed on, and the sums of their checks. -/
inductive ImageEvent where
  | patch (start length : Nat)
  | old (start length : Nat)
  | sum (offset length : Nat)
  deriving DecidableEq, Repr

/-- The range lies inside its buffer, the sum is one of 64 bits. -/
def ImageEvent.Inside (param : PatchParam) : ImageEvent → Prop
  | .patch start length => start + length ≤ param.patch.length
  | .old start length => start + length ≤ param.old.length
  | .sum offset length => offset + length < 2 ^ 64

instance (param : PatchParam) (event : ImageEvent) : Decidable (event.Inside param) := by
  cases event with
  | patch start length => exact inferInstanceAs (Decidable (start + length ≤ param.patch.length))
  | old start length => exact inferInstanceAs (Decidable (start + length ≤ param.old.length))
  | sum offset length => exact inferInstanceAs (Decidable (offset + length < 2 ^ 64))

/-- How the block patch, the compression library and the writer behave at a chunk; data
that the writer refuses is a failure of what writes it. -/
structure ChunkBackend where
  blockPatch : BlockPatch
  codec : Codec
  write : Bytes → Bool

section

variable (memory : Memory) (param : PatchParam)

/-- `ReadLE` at an offset of the patch, which lies at the front of the memory. -/
def readLEReads (width offset : Nat) : Traced ImageEvent Nat := do
  Traced.emit [.patch offset width]
  pure (leValue ((memory.write 0 param.patch).read offset width))

/-- The check of an end against `patchSize`. -/
def checkLength (offset length : Nat) : Traced ImageEvent Unit := do
  Traced.emit [.sum offset length]
  if (offset + length) % 2 ^ 64 > param.patch.length then Traced.reject else pure ()

/-- The block patch at an offset of the patch, up to the end of the patch. -/
def patchTail (patchOffset : Nat) : ImageEvent :=
  .patch patchOffset (param.patch.length - patchOffset)

/-- `normalImagePatch` with its reads. -/
def normalImagePatchReads (backend : ChunkBackend) (offset : Nat) :
    Traced ImageEvent (Bytes × Nat) := do
  checkLength param offset patchNormalMinHeaderLen
  let srcStart ← readLEReads memory param 8 offset
  let srcLen ← readLEReads memory param 8 (offset + 8)
  let patchOffset ← readLEReads memory param 8 (offset + 16)
  if srcStart > param.old.length ∨ param.old.length - srcStart < srcLen ∨
      patchOffset > param.patch.length then Traced.reject
  else do
    Traced.emit [.old srcStart srcLen, patchTail param patchOffset]
    let data ← Traced.ofOption
      (backend.blockPatch.apply (slice param.old srcStart srcLen) param.patch patchOffset)
    pure (data, offset + 24)

/-- `RowImagePatch::ApplyImagePatch` with its reads: the length is checked from its own
field on, the data is taken from behind the field. -/
def rowImagePatchReads (backend : ChunkBackend) (offset : Nat) :
    Traced ImageEvent (Bytes × Nat) := do
  checkLength param offset 4
  let dataLen ← readLEReads memory param 4 offset
  checkLength param offset dataLen
  Traced.emit [.patch (offset + 4) dataLen]
  let data := (memory.write 0 param.patch).read (offset + 4) dataLen
  if backend.write data then pure (data, offset + 4 + dataLen) else Traced.reject

/-- The fields that both kinds of compressed chunks start with. -/
def readCompressedHeaderReads (offset : Nat) : Traced ImageEvent CompressedHeader := do
  let srcStart ← readLEReads memory param 8 offset
  let srcLength ← readLEReads memory param 8 (offset + 8)
  let patchOffset ← readLEReads memory param 8 (offset + 16)
  let expandedLen ← readLEReads memory param 8 (offset + 24)
  let targetSize ← readLEReads memory param 8 (offset + 32)
  pure { srcStart, srcLength, patchOffset, expandedLen, targetSize }

/-- `zipReadHeader` with its reads. -/
def zipReadHeaderReads (offset : Nat) :
    Traced ImageEvent (CompressedHeader × PackConfig × Nat) := do
  checkLength param offset patchDeflateMinHeaderLen
  let header ← readCompressedHeaderReads memory param offset
  let level ← readLEReads memory param 4 (offset + 40)
  let method ← readLEReads memory param 4 (offset + 44)
  let windowBits ← readLEReads memory param 4 (offset + 48)
  let memLevel ← readLEReads memory param 4 (offset + 52)
  let strategy ← readLEReads memory param 4 (offset + 56)
  pure (header, .zip {
    level := toInt32 level
    method := toInt32 method
    windowBits := toInt32 windowBits
    memLevel := toInt32 memLevel
    strategy := toInt32 strategy }, offset + 60)

/-- `lz4ReadHeader` with its reads. -/
def lz4ReadHeaderReads (offset : Nat) :
    Traced ImageEvent (CompressedHeader × PackConfig × Nat) := do
  checkLength param offset patchLz4MinHeaderLen
  let header ← readCompressedHeaderReads memory param offset
  let compressionLevel ← readLEReads memory param 4 (offset + 40)
  let method ← readLEReads memory param 4 (offset + 44)
  let blockIndependence ← readLEReads memory param 4 (offset + 48)
  let contentChecksumFlag ← readLEReads memory param 4 (offset + 52)
  let blockSizeID ← readLEReads memory param 4 (offset + 56)
  let autoFlush ← readLEReads memory param 4 (offset + 60)
  pure (header, .lz4 {
    compressionLevel := toInt32 compressionLevel
    method := toInt32 method
    blockIndependence := toInt32 blockIndependence
    contentChecksumFlag := toInt32 contentChecksumFlag
    blockSizeID := toInt32 blockSizeID
    autoFlush := toInt32 autoFlush }, offset + 64)

/-- `compressedImagePatch` with the ranges that it hands on. -/
def compressedImagePatchReads (backend : ChunkBackend) (bonusData : Bytes) :
    CompressedHeader × PackConfig × Nat → Traced ImageEvent (Bytes × Nat)
  | (header, config, offset) =>
      if header.srcStart > param.old.length ∨
          param.old.length - header.srcStart < header.srcLength ∨
          header.patchOffset > param.patch.length then Traced.reject
      else do
        Traced.emit [.old header.srcStart header.srcLength]
        let stream ← Traced.ofOption (decompressData backend.codec config
          (slice param.old header.srcStart header.srcLength) bonusData header.expandedLen)
        Traced.emit [patchTail param header.patchOffset]
        let data ← Traced.ofOption
          (backend.blockPatch.apply stream param.patch header.patchOffset)
        let (written, originalSize) := match backend.codec.compress config data with
          | some written => (written, data.length)
          | none => ([], 0)
        if originalSize ≠ header.targetSize then Traced.reject else pure (written, offset)

/-- `applyChunk` with its reads. -/
def applyChunkReads (backend : ChunkBackend) (bonusData : Bytes) (type i offset : Nat) :
    Traced ImageEvent (Bytes × Nat) :=
  let bonusData := if i = 1 then bonusData else []
  match BlockType.ofCode type with
  | some .normal => normalImagePatchReads memory param backend offset
  | some .raw => rowImagePatchReads memory param backend offset
  | some .deflate =>
      zipReadHeaderReads memory param offset >>= compressedImagePatchReads param backend bonusData
  | some .lz4 =>
      lz4ReadHeaderReads memory param offset >>= compressedImagePatchReads param backend bonusData
  | none => Traced.reject

variable (backend : Nat → ChunkBackend) (bonusData : Bytes)

/-- `applyChunks` with its reads. -/
def applyChunksReads : Nat → Nat → Nat → Traced ImageEvent Bytes
  | 0, _, _ => pure []
  | count + 1, i, offset => do
      checkLength param offset 4
      let type ← readLEReads memory param 4 offset
      let (data, offset) ← applyChunkReads memory param (backend i) bonusData type i (offset + 4)
      let rest ← applyChunksReads count (i + 1) offset
      pure (data ++ rest)

/-- The loop over the chunks, as often as the count of the patch says. -/
def applyCountedChunksReads (numChunks : Nat) : Traced ImageEvent Bytes :=
  applyChunksReads memory param backend bonusData (toInt32 numChunks).toNat 0
    (pkgdiffMagic.length + 4)

/-- `applyImagePatch` with its reads. -/
def applyImagePatchReads : Traced ImageEvent Bytes :=
  if param.patch.length < pkgdiffMagic.length + 4 then Traced.reject
  else do
    Traced.emit [.patch 0 pkgdiffMagic.length]
    if (memory.write 0 param.patch).read 0 pkgdiffMagic.length ≠ pkgdiffMagic then Traced.reject
    else
      readLEReads memory param 4 pkgdiffMagic.length >>=
        applyCountedChunksReads memory param backend bonusData

/-- How often the loop over the chunks runs. -/
def numChunks : Nat := (toInt32 (readLE param 4 pkgdiffMagic.length)).toNat

/-- The data of a raw chunk whose length passes the check ends inside the patch: the length
leaves room for its own field. -/
def RawInside (offset : Nat) : Prop :=
  offset + 4 ≤ param.patch.length → offset + readLE param 4 offset ≤ param.patch.length →
    offset + 4 + readLE param 4 offset ≤ param.patch.length

/-- A chunk is applied, so that the loop goes on at an offset. -/
def ChunkApplied (i offset next : Nat) : Prop :=
  ∃ data, applyChunk (backend i).blockPatch (backend i).codec param bonusData
      (readLE param 4 offset) i (offset + 4) = some (data, next) ∧
    (readLE param 4 offset = BlockType.raw.code → (backend i).write data = true)

/-- The data of every raw chunk that is reached ends inside the patch. -/
def ChunksInside : Nat → Nat → Nat → Prop
  | 0, _, _ => True
  | count + 1, i, offset => offset + 4 ≤ param.patch.length →
      (readLE param 4 offset = BlockType.raw.code → RawInside param (offset + 4)) ∧
        ∀ next, ChunkApplied param backend bonusData i offset next → ChunksInside count (i + 1) next

end

section

variable (memory : Memory) {param : PatchParam} {offset : Nat}

@[simp] theorem inside_patch {start length : Nat} :
    (ImageEvent.patch start length).Inside param ↔ start + length ≤ param.patch.length := Iff.rfl

@[simp] theorem inside_old {start length : Nat} :
    (ImageEvent.old start length).Inside param ↔ start + length ≤ param.old.length := Iff.rfl

@[simp] theorem inside_sum {length : Nat} :
    (ImageEvent.sum offset length).Inside param ↔ offset + length < 2 ^ 64 := Iff.rfl

theorem inside_patchTail {patchOffset : Nat} (before : patchOffset ≤ param.patch.length) :
    (patchTail param patchOffset).Inside param := by
  rw [patchTail, inside_patch]
  omega

/-- The memory holds the patch. -/
theorem read_patch {start length : Nat} (inside : start + length ≤ param.patch.length) :
    (memory.write 0 param.patch).read start length = slice param.patch start length := by
  refine List.ext_getElem? fun i => ?_
  rw [Memory.getElem?_read, getElem?_slice]
  by_cases within : i < length
  · have found := List.getElem?_eq_getElem (show start + i < param.patch.length by omega)
    have written := @Memory.write_within memory 0 _ _ _ found
    rw [Nat.zero_add] at written
    rw [if_pos within, if_pos within, written, found]
  · rw [if_neg within, if_neg within]

theorem readLEReads_gives {width : Nat} (inside : offset + width ≤ param.patch.length) :
    Traced.Gives (ImageEvent.Inside param) (readLEReads memory param width offset)
      (some (readLE param width offset)) := by
  refine (Traced.Gives.emit_some ?_).bind ?_
  · simpa using inside
  · rw [readLE, ← read_patch memory inside]
    exact Traced.Gives.pure_some _

/-- The compressed chunks read their common fields inside. -/
theorem readCompressedHeaderReads_gives (inside : offset + 40 ≤ param.patch.length) :
    Traced.Gives (ImageEvent.Inside param) (readCompressedHeaderReads memory param offset)
      (some (readCompressedHeader param offset)) :=
  (readLEReads_gives memory (by omega)).bind <| (readLEReads_gives memory (by omega)).bind <|
    (readLEReads_gives memory (by omega)).bind <| (readLEReads_gives memory (by omega)).bind <|
      (readLEReads_gives memory (by omega)).bind (Traced.Gives.pure_some _)

/-- What a compressed chunk hands on lies inside both buffers. -/
theorem compressedImagePatchReads_gives (backend : ChunkBackend) (bonusData : Bytes)
    (header : CompressedHeader) (config : PackConfig) :
    Traced.Gives (ImageEvent.Inside param)
      (compressedImagePatchReads param backend bonusData (header, config, offset))
      (compressedImagePatch backend.blockPatch backend.codec param bonusData
        (header, config, offset)) := by
  rw [compressedImagePatchReads, compressedImagePatch]
  by_cases refused : header.srcStart > param.old.length ∨
      param.old.length - header.srcStart < header.srcLength ∨
      header.patchOffset > param.patch.length
  · rw [if_pos refused, if_pos refused]
    exact Traced.Gives.reject_none
  rw [if_neg refused, if_neg refused]
  simp only [not_or, Nat.not_lt] at refused
  refine (Traced.Gives.emit_some ?_).bind ?_
  · simp only [List.mem_singleton, forall_eq, inside_old]
    omega
  refine Traced.Gives.ofOption_bind fun stream _ => ?_
  refine (Traced.Gives.emit_some ?_).bind ?_
  · simp only [List.mem_singleton, forall_eq]
    exact inside_patchTail refused.2.2
  refine Traced.Gives.ofOption_bind fun data _ => ?_
  cases backend.codec.compress config data with
  | none =>
      dsimp only
      split
      · exact Traced.Gives.reject_none
      · exact Traced.Gives.pure_some _
  | some written =>
      dsimp only
      split
      · exact Traced.Gives.reject_none
      · exact Traced.Gives.pure_some _

theorem ofCode_raw_iff {type : Nat} :
    BlockType.ofCode type = some .raw ↔ type = BlockType.raw.code := by
  constructor
  · intro found
    unfold BlockType.ofCode at found
    split at found
    · cases found
    · cases found
    · rfl
    · cases found
    · cases found
  · rintro rfl
    rfl

theorem compressedImagePatch_next {blockPatch : BlockPatch} {codec : Codec}
    {bonusData data : Bytes} {header : CompressedHeader} {config : PackConfig} {next : Nat}
    (applied : compressedImagePatch blockPatch codec param bonusData (header, config, offset) =
      some (data, next)) : next = offset := by
  rw [compressedImagePatch] at applied
  split at applied
  · cases applied
  simp only [Option.bind_eq_bind] at applied
  obtain ⟨stream, -, applied⟩ := Option.bind_eq_some_iff.mp applied
  obtain ⟨patched, -, applied⟩ := Option.bind_eq_some_iff.mp applied
  cases compressed : codec.compress config patched with
  | none =>
      simp only [compressed] at applied
      split at applied
      · cases applied
      · cases applied
        rfl
  | some written =>
      simp only [compressed] at applied
      split at applied
      · cases applied
      · cases applied
        rfl

variable (fits : param.patch.length < 2 ^ 63)

include fits

/-- The check of an end is exact as long as the sum is one of 64 bits. -/
theorem checkLength_gives (before : offset ≤ param.patch.length) (length : Nat)
    (small : length < 2 ^ 63) :
    Traced.Gives (ImageEvent.Inside param) (checkLength param offset length)
      (if offset + length > param.patch.length then none else some ()) := by
  have sum : (offset + length) % 2 ^ 64 = offset + length := Nat.mod_eq_of_lt (by omega)
  refine (Traced.Gives.emit_some ?_).bind ?_
  · simp only [List.mem_singleton, forall_eq, inside_sum]
    omega
  · rw [sum]
    split
    · exact Traced.Gives.reject_none
    · exact Traced.Gives.pure_some _

/-- What follows a check runs behind the end of the patch only if it is refused. -/
theorem checkLength_bind_gives {α : Type} {length : Nat} {next : Unit → Traced ImageEvent α}
    {result : Option α} (before : offset ≤ param.patch.length) (small : length < 2 ^ 63)
    (after : offset + length ≤ param.patch.length →
      Traced.Gives (ImageEvent.Inside param) (next ()) result) :
    Traced.Gives (ImageEvent.Inside param) (checkLength param offset length >>= next)
      (if offset + length > param.patch.length then none else result) := by
  have checked := checkLength_gives fits before length small
  split
  · rename_i short
    rw [if_pos short] at checked
    exact checked.bind_none
  · rename_i long
    rw [if_neg long] at checked
    exact checked.bind (after (Nat.le_of_not_lt long))

/-- `NormalImagePatch` stays inside. -/
theorem normalImagePatchReads_gives (backend : ChunkBackend)
    (before : offset ≤ param.patch.length) :
    Traced.Gives (ImageEvent.Inside param) (normalImagePatchReads memory param backend offset)
      (normalImagePatch backend.blockPatch param offset) := by
  have size : patchNormalMinHeaderLen = 24 := rfl
  refine checkLength_bind_gives fits before (by decide) fun inside => ?_
  refine (readLEReads_gives memory (by omega)).bind ((readLEReads_gives memory (by omega)).bind
    ((readLEReads_gives memory (by omega)).bind ?_))
  by_cases refused : readLE param 8 offset > param.old.length ∨
      param.old.length - readLE param 8 offset < readLE param 8 (offset + 8) ∨
      readLE param 8 (offset + 16) > param.patch.length
  · rw [if_pos refused, if_pos refused]
    exact Traced.Gives.reject_none
  rw [if_neg refused, if_neg refused]
  simp only [not_or, Nat.not_lt] at refused
  refine (Traced.Gives.emit_some ?_).bind ?_
  · simp only [List.mem_cons, List.not_mem_nil, or_false, forall_eq_or_imp, forall_eq, inside_old]
    exact ⟨by omega, inside_patchTail refused.2.2⟩
  rw [Option.map_eq_bind]
  exact Traced.Gives.ofOption_bind fun data _ => Traced.Gives.pure_some _

/-- `ZipImagePatch::ReadHeader` stays inside. -/
theorem zipReadHeaderReads_gives (before : offset ≤ param.patch.length) :
    Traced.Gives (ImageEvent.Inside param) (zipReadHeaderReads memory param offset)
      (zipReadHeader param offset) := by
  have size : patchDeflateMinHeaderLen = 60 := rfl
  refine checkLength_bind_gives fits before (by decide) fun inside => ?_
  exact (readCompressedHeaderReads_gives memory (by omega)).bind <| (readLEReads_gives memory (by omega)).bind <|
    (readLEReads_gives memory (by omega)).bind <| (readLEReads_gives memory (by omega)).bind <|
      (readLEReads_gives memory (by omega)).bind <| (readLEReads_gives memory (by omega)).bind
        (Traced.Gives.pure_some _)

/-- `Lz4ImagePatch::ReadHeader` stays inside. -/
theorem lz4ReadHeaderReads_gives (before : offset ≤ param.patch.length) :
    Traced.Gives (ImageEvent.Inside param) (lz4ReadHeaderReads memory param offset)
      (lz4ReadHeader param offset) := by
  have size : patchLz4MinHeaderLen = 64 := rfl
  refine checkLength_bind_gives fits before (by decide) fun inside => ?_
  exact (readCompressedHeaderReads_gives memory (by omega)).bind <| (readLEReads_gives memory (by omega)).bind <|
    (readLEReads_gives memory (by omega)).bind <| (readLEReads_gives memory (by omega)).bind <|
      (readLEReads_gives memory (by omega)).bind <| (readLEReads_gives memory (by omega)).bind <|
        (readLEReads_gives memory (by omega)).bind (Traced.Gives.pure_some _)

/-- `RowImagePatch` stays inside if its length leaves room for its own field. -/
theorem rowImagePatchReads_inside_iff (backend : ChunkBackend)
    (before : offset ≤ param.patch.length) :
    (rowImagePatchReads memory param backend offset).All (ImageEvent.Inside param) ↔
      RawInside param offset := by
  have small : readLE param 4 offset < 2 ^ 32 := readLE_lt param 4 offset
  have checked := checkLength_gives fits before 4 (by decide)
  rw [rowImagePatchReads, RawInside]
  by_cases short : offset + 4 > param.patch.length
  · rw [if_pos short] at checked
    refine iff_of_true checked.bind_none.all fun room => by omega
  rw [if_neg short] at checked
  have field := readLEReads_gives memory (Nat.le_of_not_lt short)
  have ended := checkLength_gives fits before (readLE param 4 offset) (by omega)
  simp only [Traced.all_bind, checked.all, checked.result, field.all, field.result, ended.all,
    Option.some.injEq, forall_eq', true_and, Nat.le_of_not_lt short, forall_const]
  by_cases long : offset + readLE param 4 offset > param.patch.length
  · rw [if_pos long] at ended
    refine iff_of_true (fun _ found => ?_) fun room => by omega
    rw [ended.result] at found
    cases found
  · rw [if_neg long] at ended
    simp only [ended.result, forall_const, Traced.all_emit, List.mem_singleton, forall_eq,
      inside_patch, Traced.all_ite, Traced.all_pure, Traced.all_reject, implies_true, and_true,
      Nat.le_of_not_lt long]

/-- What `RowImagePatch` gives where it stays inside. -/
theorem rowImagePatchReads_result (backend : ChunkBackend) (before : offset ≤ param.patch.length)
    (room : RawInside param offset) :
    (rowImagePatchReads memory param backend offset).result =
      (rowImagePatch param offset).filter fun found => backend.write found.1 := by
  have small : readLE param 4 offset < 2 ^ 32 := readLE_lt param 4 offset
  have checked := checkLength_gives fits before 4 (by decide)
  rw [rowImagePatchReads, rowImagePatch]
  by_cases short : offset + 4 > param.patch.length
  · rw [if_pos short] at checked
    rw [if_pos short]
    exact checked.bind_none.result
  rw [if_neg short] at checked
  have field := readLEReads_gives memory (Nat.le_of_not_lt short)
  have ended := checkLength_gives fits before (readLE param 4 offset) (by omega)
  rw [if_neg short]
  simp only [Traced.result_bind, checked.result, field.result, Option.bind_some, ended.result]
  by_cases long : offset + readLE param 4 offset > param.patch.length
  · rw [if_pos long, if_pos long]
    rfl
  · have inside := room (Nat.le_of_not_lt short) (Nat.le_of_not_lt long)
    rw [if_neg long, if_neg long, readRange, if_pos inside, read_patch memory inside]
    simp only [Option.bind_some, Traced.result_emit, Option.map_some, Option.filter_some]
    split
    · rfl
    · rfl

/-- Step lemma: every chunk that is not raw stays inside. -/
theorem applyChunkReads_gives (backend : ChunkBackend) (bonusData : Bytes) {type : Nat} (i : Nat)
    (before : offset ≤ param.patch.length) (compact : type ≠ BlockType.raw.code) :
    Traced.Gives (ImageEvent.Inside param)
      (applyChunkReads memory param backend bonusData type i offset)
      (applyChunk backend.blockPatch backend.codec param bonusData type i offset) := by
  rw [applyChunkReads, applyChunk]
  cases found : BlockType.ofCode type with
  | none => exact Traced.Gives.reject_none
  | some kind =>
      cases kind with
      | normal => exact normalImagePatchReads_gives memory fits backend before
      | raw => exact absurd (ofCode_raw_iff.mp found) compact
      | deflate =>
          have header := zipReadHeaderReads_gives memory fits before
          cases read : zipReadHeader param offset with
          | none =>
              rw [read] at header
              exact header.bind_none
          | some fields =>
              rw [read] at header
              exact header.bind (compressedImagePatchReads_gives backend _ fields.1 fields.2.1)
      | lz4 =>
          have header := lz4ReadHeaderReads_gives memory fits before
          cases read : lz4ReadHeader param offset with
          | none =>
              rw [read] at header
              exact header.bind_none
          | some fields =>
              rw [read] at header
              exact header.bind (compressedImagePatchReads_gives backend _ fields.1 fields.2.1)

/-- Step lemma: the reads of a chunk. -/
theorem applyChunkReads_inside_iff (backend : ChunkBackend) (bonusData : Bytes) (type i : Nat)
    (before : offset ≤ param.patch.length) :
    (applyChunkReads memory param backend bonusData type i offset).All (ImageEvent.Inside param) ↔
      (type = BlockType.raw.code → RawInside param offset) := by
  by_cases raw : type = BlockType.raw.code
  · subst raw
    simp only [applyChunkReads, BlockType.ofCode_code, forall_const]
    exact rowImagePatchReads_inside_iff memory fits backend before
  · exact iff_of_true (applyChunkReads_gives memory fits backend bonusData i before raw).all
      fun same => absurd same raw

/-- Step lemma: what a chunk gives that stays inside. -/
theorem applyChunkReads_some_iff (backend : ChunkBackend) (bonusData : Bytes) {type next : Nat}
    {data : Bytes} (i : Nat) (before : offset ≤ param.patch.length)
    (room : type = BlockType.raw.code → RawInside param offset) :
    (applyChunkReads memory param backend bonusData type i offset).result = some (data, next) ↔
      applyChunk backend.blockPatch backend.codec param bonusData type i offset =
          some (data, next) ∧
        (type = BlockType.raw.code → backend.write data = true) := by
  by_cases raw : type = BlockType.raw.code
  · subst raw
    simp only [applyChunkReads, applyChunk, BlockType.ofCode_code, forall_const,
      rowImagePatchReads_result memory fits backend before (room rfl), Option.filter_eq_some_iff]
  · rw [(applyChunkReads_gives memory fits backend bonusData i before raw).result]
    simp only [raw, false_imp_iff, and_true]

omit fits in
/-- A chunk that is applied leaves the offset inside the patch. -/
theorem applyChunk_next_le {blockPatch : BlockPatch} {codec : Codec} {bonusData data : Bytes}
    {type i next : Nat}
    (applied : applyChunk blockPatch codec param bonusData type i offset = some (data, next)) :
    next ≤ param.patch.length := by
  have normalSize : patchNormalMinHeaderLen = 24 := rfl
  have deflateSize : patchDeflateMinHeaderLen = 60 := rfl
  have lz4Size : patchLz4MinHeaderLen = 64 := rfl
  rw [applyChunk] at applied
  split at applied
  · rw [normalImagePatch] at applied
    split at applied
    · cases applied
    dsimp only at applied
    split at applied
    · cases applied
    obtain ⟨written, -, pair⟩ := Option.map_eq_some_iff.mp applied
    cases pair
    omega
  · rw [rowImagePatch] at applied
    split at applied
    · cases applied
    dsimp only at applied
    split at applied
    · cases applied
    obtain ⟨written, read, pair⟩ := Option.map_eq_some_iff.mp applied
    cases pair
    exact (readRange_some read).1
  · obtain ⟨⟨header, config, stop⟩, read, applied⟩ := Option.bind_eq_some_iff.mp applied
    rw [compressedImagePatch_next applied]
    rw [zipReadHeader] at read
    split at read
    · cases read
    · cases read
      omega
  · obtain ⟨⟨header, config, stop⟩, read, applied⟩ := Option.bind_eq_some_iff.mp applied
    rw [compressedImagePatch_next applied]
    rw [lz4ReadHeader] at read
    split at read
    · cases read
    · cases read
      omega
  · cases applied

/-- Run lemma: the reads of the chunks that are left. -/
theorem applyChunksReads_inside_iff {backend : Nat → ChunkBackend} {bonusData : Bytes}
    {count i : Nat} (before : offset ≤ param.patch.length) :
    (applyChunksReads memory param backend bonusData count i offset).All
        (ImageEvent.Inside param) ↔
      ChunksInside param backend bonusData count i offset := by
  induction count generalizing i offset with
  | zero => exact iff_of_true (Traced.all_pure _) trivial
  | succ count ih =>
      have checked := checkLength_gives fits before 4 (by decide)
      rw [applyChunksReads, ChunksInside]
      by_cases short : offset + 4 > param.patch.length
      · rw [if_pos short] at checked
        exact iff_of_true checked.bind_none.all fun room => by omega
      rw [if_neg short] at checked
      have room := Nat.le_of_not_lt short
      have field := readLEReads_gives memory room
      have chunk := applyChunkReads_inside_iff memory fits (backend i) bonusData
        (readLE param 4 offset) i room
      simp only [Traced.all_bind, checked.all, checked.result, field.all, field.result,
        Option.some.injEq, forall_eq', true_and, room, forall_const, chunk, Traced.all_pure,
        implies_true, and_true]
      refine and_congr_right fun inside => ?_
      constructor
      · rintro rest next ⟨data, applied, accepted⟩
        exact (ih (applyChunk_next_le applied)).mp (rest (data, next)
          ((applyChunkReads_some_iff memory fits (backend i) bonusData i room inside).mpr
            ⟨applied, accepted⟩))
      · rintro rest ⟨data, next⟩ found
        obtain ⟨applied, accepted⟩ :=
          (applyChunkReads_some_iff memory fits (backend i) bonusData i room inside).mp found
        exact (ih (applyChunk_next_le applied)).mpr (rest next ⟨data, applied, accepted⟩)

omit fits in
theorem preCheck_iff : preCheck param = true ↔
    pkgdiffMagic.length + 4 ≤ param.patch.length ∧
      param.patch.take pkgdiffMagic.length = pkgdiffMagic := by
  rw [preCheck, decide_eq_true_iff]

/-- `ApplyImagePatch` reads the patch and the old image inside their buffers, its checks
without a wrap, if and only if the data of every raw chunk that it reaches ends inside the
patch. -/
theorem applyImagePatchReads_inside_iff (backend : Nat → ChunkBackend)
    (bonusData : Bytes) :
    (applyImagePatchReads memory param backend bonusData).All (ImageEvent.Inside param) ↔
      (preCheck param = true →
        ChunksInside param backend bonusData (numChunks param) 0 (pkgdiffMagic.length + 4)) := by
  have size : pkgdiffMagic.length = 8 := rfl
  rw [applyImagePatchReads, preCheck_iff]
  -- how the count is read plays no part
  generalize counted : numChunks param = count
  rw [numChunks] at counted
  by_cases short : param.patch.length < pkgdiffMagic.length + 4
  · rw [if_pos short]
    exact iff_of_true Traced.all_reject fun checked => absurd checked.1 (Nat.not_le_of_lt short)
  have head : 0 + pkgdiffMagic.length ≤ param.patch.length := by omega
  rw [if_neg short, read_patch memory head]
  have whole : slice param.patch 0 pkgdiffMagic.length = param.patch.take pkgdiffMagic.length := rfl
  have field := (readLEReads_gives memory (by omega) :
    Traced.Gives (ImageEvent.Inside param)
      (readLEReads memory param 4 pkgdiffMagic.length) _)
  simp only [Traced.all_bind, Traced.all_emit, List.mem_singleton, forall_eq, inside_patch,
    Traced.result_emit, whole]
  by_cases magic : param.patch.take pkgdiffMagic.length = pkgdiffMagic
  · rw [if_neg (not_not.mpr magic)]
    simp only [Traced.all_bind, field.all, field.result, Option.some.injEq, forall_eq', true_and,
      forall_const, magic, and_true, Nat.le_of_not_lt short, applyCountedChunksReads, counted,
      applyChunksReads_inside_iff memory fits (Nat.le_of_not_lt short)]
    exact and_iff_right head
  · rw [if_pos magic]
    exact iff_of_true ⟨head, fun _ _ => Traced.all_reject⟩ fun checked => absurd checked.2 magic

/-- Step lemma: a chunk that stays inside does what it does without the memory behind. -/
theorem applyChunkReads_result (blockPatch : BlockPatch) (codec : Codec) (bonusData : Bytes)
    {type : Nat} (i : Nat) (before : offset ≤ param.patch.length)
    (room : type = BlockType.raw.code → RawInside param offset) :
    (applyChunkReads memory param ⟨blockPatch, codec, fun _ => true⟩ bonusData type i
      offset).result = applyChunk blockPatch codec param bonusData type i offset := by
  refine Option.ext fun ⟨data, next⟩ => ?_
  rw [applyChunkReads_some_iff memory fits ⟨blockPatch, codec, fun _ => true⟩ bonusData i before room]
  exact and_iff_left fun _ => rfl

/-- Run lemma: the chunks that are left do what they do without the memory behind. -/
theorem applyChunksReads_result {blockPatch : BlockPatch} {codec : Codec} {bonusData : Bytes}
    {count i : Nat} (before : offset ≤ param.patch.length)
    (inside : ChunksInside param (fun _ => ⟨blockPatch, codec, fun _ => true⟩) bonusData count i
      offset) :
    (applyChunksReads memory param (fun _ => ⟨blockPatch, codec, fun _ => true⟩) bonusData count i
      offset).result = applyChunks blockPatch codec param bonusData count i offset := by
  induction count generalizing i offset with
  | zero => rfl
  | succ count ih =>
      have checked := checkLength_gives fits before 4 (by decide)
      rw [applyChunksReads, applyChunks]
      by_cases short : offset + 4 > param.patch.length
      · rw [if_pos short] at checked
        rw [if_pos short]
        exact checked.bind_none.result
      rw [if_neg short] at checked
      have room := Nat.le_of_not_lt short
      have field := readLEReads_gives memory room
      obtain ⟨raw, rest⟩ := inside room
      rw [if_neg short]
      simp only [Traced.result_bind, checked.result, field.result, Option.bind_some,
        applyChunkReads_result memory fits blockPatch codec bonusData i room raw]
      cases applied : applyChunk blockPatch codec param bonusData (readLE param 4 offset) i
          (offset + 4) with
      | none => rfl
      | some found =>
          obtain ⟨data, next⟩ := found
          simp only [Option.bind_some, Option.bind_eq_bind, Traced.result_pure,
            ih (applyChunk_next_le applied) (rest next ⟨data, applied, fun _ => rfl⟩)]
          rfl

/-- Where all reads are inside, `ApplyImagePatch` does what it does without the memory behind
the patch. -/
theorem applyImagePatchReads_result {blockPatch : BlockPatch} {codec : Codec} {bonusData : Bytes}
    (inside : (applyImagePatchReads memory param (fun _ => ⟨blockPatch, codec, fun _ => true⟩)
      bonusData).All (ImageEvent.Inside param)) :
    (applyImagePatchReads memory param (fun _ => ⟨blockPatch, codec, fun _ => true⟩)
      bonusData).result = applyImagePatch blockPatch codec param bonusData := by
  have size : pkgdiffMagic.length = 8 := rfl
  have decided := applyImagePatchReads_inside_iff memory fits
    (fun _ => ⟨blockPatch, codec, fun _ => true⟩) bonusData
  generalize counted : numChunks param = count at decided
  rw [numChunks] at counted
  have kept := decided.mp inside
  have plain : applyImagePatch blockPatch codec param bonusData = if preCheck param then
      applyChunks blockPatch codec param bonusData count 0 (pkgdiffMagic.length + 4) else none := by
    rw [← counted]
    rfl
  rw [applyImagePatchReads, plain]
  by_cases short : param.patch.length < pkgdiffMagic.length + 4
  · rw [if_pos short, if_neg fun checked => absurd (preCheck_iff.mp checked).1 (Nat.not_le_of_lt short)]
    rfl
  have head : 0 + pkgdiffMagic.length ≤ param.patch.length := by omega
  have whole : slice param.patch 0 pkgdiffMagic.length = param.patch.take pkgdiffMagic.length := rfl
  have field := (readLEReads_gives memory (by omega) :
    Traced.Gives (ImageEvent.Inside param)
      (readLEReads memory param 4 pkgdiffMagic.length) _)
  rw [if_neg short, read_patch memory head, whole]
  by_cases magic : param.patch.take pkgdiffMagic.length = pkgdiffMagic
  · have checked := preCheck_iff.mpr ⟨Nat.le_of_not_lt short, magic⟩
    rw [if_neg (not_not.mpr magic), if_pos checked]
    rw [Traced.result_bind_some (Traced.result_emit _), Traced.result_bind_some field.result,
      applyCountedChunksReads, counted, applyChunksReads_result memory fits (Nat.le_of_not_lt short) (kept checked)]
  · rw [if_pos magic, if_neg fun checked => magic (preCheck_iff.mp checked).2]
    rfl

end

/-- A backend without a library, with a writer that takes everything. -/
def rawBackend : ChunkBackend where
  blockPatch := ⟨fun _ _ => none, fun _ _ _ => none⟩
  codec := ⟨fun _ _ _ => none, fun _ _ => none, fun _ => 0⟩
  write _ := true

/-- One raw chunk of four bytes, with as many bytes behind it. -/
def rawPatch (data : Bytes) : PatchParam where
  old := []
  patch := pkgdiffMagic ++ leBytes 4 1 ++ leBytes 4 BlockType.raw.code ++ leBytes 4 4 ++ data

theorem rawPatch_whole :
    (applyImagePatchReads (fun _ => 0) (rawPatch [1, 2, 3, 4]) (fun _ => rawBackend) []).All
      (ImageEvent.Inside (rawPatch [1, 2, 3, 4])) := by
  refine (applyImagePatchReads_inside_iff _ (by decide) _ _).mpr fun _ => ?_
  have room : RawInside (rawPatch [1, 2, 3, 4]) 16 := by
    rw [RawInside]
    decide
  exact fun _ => ⟨fun _ => room, fun _ _ => trivial⟩

/-- Without its data the four bytes behind the patch are read for it. -/
theorem rawPatch_empty_outside :
    ¬ (applyImagePatchReads (fun _ => 0) (rawPatch []) (fun _ => rawBackend) []).All
      (ImageEvent.Inside (rawPatch [])) := by
  intro inside
  have outside : ¬ (ImageEvent.patch 20 4).Inside (rawPatch []) := by decide
  exact outside (inside _ (by decide))

end Updater.DiffPatch
