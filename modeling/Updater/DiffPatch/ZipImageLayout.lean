import Updater.DiffPatch.ImageRoundTrip
import Updater.DiffPatch.ZipImageDiff

/-! The headers of a zip diff, and how its deflate blocks are read back. -/

set_option autoImplicit false

namespace Updater.DiffPatch

open Updater.Base

/-- What the library documents: inflating depends on the window bits alone, and no
deflate stream is a proper beginning of another. -/
structure Codec.IsZlib (codec : Codec) : Prop where
  inflates : ∀ ⦃config config' : ZipConfig⦄, config.windowBits = config'.windowBits →
    codec.decompress (.zip config) = codec.decompress (.zip config')
  ends : ∀ ⦃config config' : ZipConfig⦄ ⦃data data' out out' : Bytes⦄,
    config.windowBits = config'.windowBits → codec.compress (.zip config) data = some out →
      codec.compress (.zip config') data' = some out' → out <+: out' → out = out'

/-- Headers and patches of the blocks of a zip diff. -/
def zipFormat (blockPatch : BlockPatch) (images : Images) (config : ZipConfig) : BlockFormat where
  record block dataOffset :=
    if block.type = .deflate then
      leBytes 8 block.oldInfo.start ++ leBytes 8 block.oldInfo.length ++ leBytes 8 dataOffset ++
        leBytes 8 block.srcOriginalData.length ++ leBytes 8 block.destOriginalData.length ++
        leInt32 config.level ++ leInt32 config.method ++ leInt32 config.windowBits ++
        leInt32 config.memLevel ++ leInt32 config.strategy
    else (imageFormat blockPatch images).record block dataOffset
  Own block own :=
    if block.type = .deflate then
      blockPatch.make block.destOriginalData block.srcOriginalData = some own
    else (imageFormat blockPatch images).Own block own

variable {blockPatch : BlockPatch} {codec : Codec} {images : Images} {config : ZipConfig}
variable {param : PatchParam} {block : ImageBlock}

theorem zipFormat_sized : (zipFormat blockPatch images config).Sized := by
  intro block own ownPatch dataOffset
  by_cases type : block.type = .deflate
  · simp [zipFormat, getHeaderSize, type, patchDeflateMinHeaderLen]
  · simp only [zipFormat, type, if_false] at ownPatch ⊢
    exact imageFormat_sized ownPatch dataOffset

theorem zipFormat_reads_plain {result : Option Bytes} (plain : block.type ≠ .deflate)
    (reads : (imageFormat blockPatch images).Reads blockPatch codec param [] block result) :
    (zipFormat blockPatch images config).Reads blockPatch codec param [] block result := by
  intro own tail more i offset dataOffset ownPatch header stands fits
  simp only [zipFormat, plain, if_false] at ownPatch header ⊢
  exact reads ownPatch header stands fits

/-- `WriteHeader` writes the header of a block of one of the three types. -/
theorem zipWriteHeader_writes {block' : ImageBlock} {usePatchFile : Bool}
    {files files' : DiffFiles}
    (known : block.type = .normal ∨ block.type = .raw ∨ block.type = .deflate)
    (written : zipWriteHeader blockPatch images config usePatchFile files block =
      some (files', block')) :
    ∃ own, (zipFormat blockPatch images config).Writes usePatchFile files block files' block' own := by
  by_cases type : block.type = .deflate
  · simp only [zipWriteHeader, if_pos type, Option.bind_eq_bind] at written
    obtain ⟨⟨files₁, block₁, patchSize⟩, made, written⟩ := Option.bind_eq_some_iff.mp written
    unfold makeBlockPatch at made
    obtain ⟨own, ownMade, made⟩ := Option.bind_eq_some_iff.mp made
    have ownPatch : (zipFormat blockPatch images config).Own block own := by
      simp only [zipFormat, if_pos type]
      exact ownMade
    refine ⟨own, ?_⟩
    cases written
    cases usePatchFile with
    | false =>
        cases made
        constructor
        · simp [zipFormat, type]
        · rfl
        · intro use
          cases use
        · intro _ _
          rfl
        · intro raw
          rw [type] at raw
          cases raw
        · rfl
        · exact ownPatch
    | true =>
        cases made
        constructor
        · simp [zipFormat, type]
        · rfl
        · intro _
          rfl
        · intro use
          cases use
        · intro raw
          rw [type] at raw
          cases raw
        · rfl
        · exact ownPatch
  · have plain : block.type = .normal ∨ block.type = .raw := by
      rcases known with normal | raw | deflate
      · exact .inl normal
      · exact .inr raw
      · exact absurd deflate type
    simp only [zipWriteHeader, if_neg type] at written
    obtain ⟨own, writes⟩ := imageWriteHeader_writes plain written
    refine ⟨own, ?_⟩
    obtain ⟨header, next, inFile, inBlock, raw, same, ownPatch⟩ := writes
    constructor
    · simp only [zipFormat, if_neg type]
      exact header
    · exact next
    · exact inFile
    · exact inBlock
    · exact raw
    · exact same
    · simp only [zipFormat, if_neg type]
      exact ownPatch

/-- A configuration that fits the fields of a header. -/
structure ZipConfig.IsInt32 (config : ZipConfig) : Prop where
  level : DiffPatch.IsInt32 config.level
  method : DiffPatch.IsInt32 config.method
  windowBits : DiffPatch.IsInt32 config.windowBits
  memLevel : DiffPatch.IsInt32 config.memLevel
  strategy : DiffPatch.IsInt32 config.strategy

theorem readInt32_field {value : Int} {offset : Nat} {rest : Bytes}
    (fits : IsInt32 value) (same : param.patch.drop offset = leInt32 value ++ rest) :
    toInt32 (readLE param 4 offset) = value := by
  have taken : (leInt32 value ++ rest).take 4 = leInt32 value :=
    List.take_left' (length_leInt32 value)
  rw [readLE, slice, same, taken, toInt32_leInt32 fits]

/-- `ReadHeader` reads back what `WriteHeader` wrote. -/
theorem zipReadHeader_written {offset dataOffset : Nat} {tail : Bytes}
    (type : block.type = .deflate) (fits : config.IsInt32)
    (start : block.oldInfo.start < 2 ^ 64) (length : block.oldInfo.length < 2 ^ 64)
    (own : dataOffset < 2 ^ 64) (src : block.srcOriginalData.length < 2 ^ 64)
    (dest : block.destOriginalData.length < 2 ^ 64)
    (header : param.patch.drop offset =
      (zipFormat blockPatch images config).record block dataOffset ++ tail) :
    zipReadHeader param offset = some ({
      srcStart := block.oldInfo.start
      srcLength := block.oldInfo.length
      patchOffset := dataOffset
      expandedLen := block.srcOriginalData.length
      targetSize := block.destOriginalData.length }, .zip config, offset + 60) := by
  have width : 256 ^ 8 = 2 ^ 64 := by norm_num
  simp only [zipFormat, if_pos type, List.append_assoc] at header
  have room := lt_length_of_drop
    (show param.patch.drop offset = (leBytes 8 block.oldInfo.start ++
        leBytes 8 block.oldInfo.length ++ leBytes 8 dataOffset ++
        leBytes 8 block.srcOriginalData.length ++ leBytes 8 block.destOriginalData.length ++
        leInt32 config.level ++ leInt32 config.method ++ leInt32 config.windowBits ++
        leInt32 config.memLevel ++ leInt32 config.strategy) ++ tail by
      simp only [List.append_assoc]
      exact header) (by simp)
  have startRead := readLE_field (by rw [width]; exact start) header
  have header := drop_append_length header
  rw [length_leBytes] at header
  have lengthRead := readLE_field (by rw [width]; exact length) header
  have header := drop_append_length header
  rw [length_leBytes] at header
  have ownRead := readLE_field (by rw [width]; exact own) header
  have header := drop_append_length header
  rw [length_leBytes] at header
  have srcRead := readLE_field (by rw [width]; exact src) header
  have header := drop_append_length header
  rw [length_leBytes] at header
  have destRead := readLE_field (by rw [width]; exact dest) header
  have header := drop_append_length header
  rw [length_leBytes] at header
  have levelRead := readInt32_field fits.level header
  have header := drop_append_length header
  rw [length_leInt32] at header
  have methodRead := readInt32_field fits.method header
  have header := drop_append_length header
  rw [length_leInt32] at header
  have windowRead := readInt32_field fits.windowBits header
  have header := drop_append_length header
  rw [length_leInt32] at header
  have memRead := readInt32_field fits.memLevel header
  have header := drop_append_length header
  rw [length_leInt32] at header
  have strategyRead := readInt32_field fits.strategy header
  simp only [List.length_append, length_leBytes, length_leInt32] at room
  have minimum : patchDeflateMinHeaderLen = 60 := rfl
  rw [zipReadHeader, if_neg (by omega), readCompressedHeader, startRead, lengthRead, ownRead,
    srcRead, destRead, levelRead, methodRead, windowRead, memRead, strategyRead]

/-- What a deflate block must meet to be read back: its source is in the old image and
decompresses to the data it was made from. -/
structure DeflateReads (codec : Codec) (images : Images) (config : ZipConfig)
    (block : ImageBlock) : Prop where
  fits : config.IsInt32
  inside : block.oldInfo.start + block.oldInfo.length ≤ images.old.length
  src : block.srcOriginalData.length < 2 ^ 64
  dest : block.destOriginalData.length < 2 ^ 64
  nonempty : block.destOriginalData ≠ []
  stream : decompressData codec (.zip config) (oldData images block) []
    block.srcOriginalData.length = some block.srcOriginalData

/-- A deflate block gives its data, deflated with the configuration in its header. -/
theorem zipFormat_reads_deflate (type : block.type = .deflate)
    (deflate : DeflateReads codec images config block)
    (exact : blockPatch.ExactAt block.destOriginalData block.srcOriginalData)
    (old : param.old = images.old) (oldSmall : images.old.length < 2 ^ 64)
    (patchSmall : param.patch.length < 2 ^ 63) :
    (zipFormat blockPatch images config).Reads blockPatch codec param [] block
      (codec.compress (.zip config) block.destOriginalData) := by
  intro own tail more i offset dataOffset ownPatch header stands fits
  simp only [zipFormat, if_pos type] at ownPatch
  have sourceInside := deflate.inside
  have read := zipReadHeader_written type deflate.fits (by omega) (by omega) (by omega)
    deflate.src deflate.dest header
  have size : ((zipFormat blockPatch images config).record block dataOffset).length = 60 := by
    simp [zipFormat, type]
  have front : (param.patch.take dataOffset).length = dataOffset := by
    rw [List.length_take]
    omega
  have whole : param.patch.take dataOffset ++ own ++ more = param.patch := by
    rw [List.append_assoc, ← stands, List.take_append_drop]
  have applied := exact own ownPatch (param.patch.take dataOffset) more
    (by rw [whole]; exact patchSmall)
  rw [whole, front] at applied
  have stream := deflate.stream
  rw [oldData, ← old] at stream
  have inRange : ¬ (block.oldInfo.start > param.old.length ∨
      param.old.length - block.oldInfo.start < block.oldInfo.length ∨
      dataOffset > param.patch.length) := by
    rw [old]
    omega
  rw [applyChunk, BlockType.ofCode_code, type]
  simp only [read, Option.bind_eq_bind, Option.bind_some, compressedImagePatch, if_neg inRange,
    ite_self, stream, applied]
  cases packed : codec.compress (.zip config) block.destOriginalData with
  | none =>
      have expected : 0 ≠ block.destOriginalData.length := by
        intro zero
        exact deflate.nonempty (List.length_eq_zero_iff.mp zero.symm)
      simp only [if_pos expected, Option.map_none]
  | some out => simp [size]

end Updater.DiffPatch
