import Updater.DiffPatch.ImageFormat

/-! `UpdateApplyPatch::ApplyImagePatch` over the chunks of an image patch, as the
bytes that reach the writer. -/

set_option autoImplicit false

namespace Updater.DiffPatch

open Updater.Base

/-- The parameters a patch is applied with: the old image and the patch. -/
structure PatchParam where
  old : Bytes
  patch : Bytes
  deriving DecidableEq, Repr

/-- Source range, block patch and sizes that a compressed chunk starts with. -/
structure CompressedHeader where
  srcStart : Nat
  srcLength : Nat
  patchOffset : Nat
  expandedLen : Nat
  targetSize : Nat
  deriving DecidableEq, Repr

variable (blockPatch : BlockPatch) (codec : Codec) (param : PatchParam)

def readLE (width offset : Nat) : Nat :=
  leValue (slice param.patch offset width)

theorem readLE_lt (param : PatchParam) (width offset : Nat) :
    readLE param width offset < 256 ^ width := by
  apply Nat.lt_of_lt_of_le (leValue_lt _)
  exact Nat.pow_le_pow_right (by decide) (length_slice_le _ _ _)

/-- `NormalImagePatch::ApplyImagePatch`; gives what is written and the next offset. -/
def normalImagePatch (offset : Nat) : Option (Bytes × Nat) :=
  if offset + patchNormalMinHeaderLen > param.patch.length then none
  else
    let srcStart := readLE param 8 offset
    let srcLen := readLE param 8 (offset + 8)
    let patchOffset := readLE param 8 (offset + 16)
    if srcStart > param.old.length ∨ param.old.length - srcStart < srcLen ∨
        patchOffset > param.patch.length then none
    else
      (blockPatch.apply (slice param.old srcStart srcLen) param.patch patchOffset).map fun data =>
        (data, offset + 24)

/-- `RowImagePatch::ApplyImagePatch`. The length is checked without its own field;
the copy behind it must be inside the patch all the same. -/
def rowImagePatch (offset : Nat) : Option (Bytes × Nat) :=
  if offset + 4 > param.patch.length then none
  else
    let dataLen := readLE param 4 offset
    if offset + dataLen > param.patch.length then none
    else (readRange param.patch (offset + 4) dataLen).map fun data => (data, offset + 4 + dataLen)

/-- The header fields that both kinds of compressed chunks start with. -/
def readCompressedHeader (offset : Nat) : CompressedHeader where
  srcStart := readLE param 8 offset
  srcLength := readLE param 8 (offset + 8)
  patchOffset := readLE param 8 (offset + 16)
  expandedLen := readLE param 8 (offset + 24)
  targetSize := readLE param 8 (offset + 32)

/-- `ZipImagePatch::ReadHeader`, with `GetFileInfo`. -/
def zipReadHeader (offset : Nat) : Option (CompressedHeader × PackConfig × Nat) :=
  if offset + patchDeflateMinHeaderLen > param.patch.length then none
  else
    some (readCompressedHeader param offset, .zip {
      level := toInt32 (readLE param 4 (offset + 40))
      method := toInt32 (readLE param 4 (offset + 44))
      windowBits := toInt32 (readLE param 4 (offset + 48))
      memLevel := toInt32 (readLE param 4 (offset + 52))
      strategy := toInt32 (readLE param 4 (offset + 56)) }, offset + 60)

/-- `Lz4ImagePatch::ReadHeader`. -/
def lz4ReadHeader (offset : Nat) : Option (CompressedHeader × PackConfig × Nat) :=
  if offset + patchLz4MinHeaderLen > param.patch.length then none
  else
    some (readCompressedHeader param offset, .lz4 {
      compressionLevel := toInt32 (readLE param 4 (offset + 40))
      method := toInt32 (readLE param 4 (offset + 44))
      blockIndependence := toInt32 (readLE param 4 (offset + 48))
      contentChecksumFlag := toInt32 (readLE param 4 (offset + 52))
      blockSizeID := toInt32 (readLE param 4 (offset + 56))
      autoFlush := toInt32 (readLE param 4 (offset + 60)) }, offset + 64)

/-- `DecompressData`: nothing is decompressed where nothing is expected, and the
bonus data goes behind what was decompressed. -/
def decompressData (config : PackConfig) (buffer bonusData : Bytes) (expandedLen : Nat) :
    Option Bytes :=
  if expandedLen = 0 then some []
  else do
    let data ← codec.decompress config buffer expandedLen
    if bonusData = [] then pure data
    else if data.length > (expandedLen + 2 ^ 64 - bonusData.length) % 2 ^ 64 then none
    else pure (data ++ bonusData)

/-- `CompressedImagePatch::ApplyImagePatch` behind `ReadHeader`. A failing flush is
noticed only by its size of 0. -/
def compressedImagePatch (bonusData : Bytes) :
    CompressedHeader × PackConfig × Nat → Option (Bytes × Nat)
  | (header, config, offset) =>
      if header.srcStart > param.old.length ∨
          param.old.length - header.srcStart < header.srcLength ∨
          header.patchOffset > param.patch.length then none
      else do
        let stream ← decompressData codec config (slice param.old header.srcStart header.srcLength)
          bonusData header.expandedLen
        let data ← blockPatch.apply stream param.patch header.patchOffset
        let (written, originalSize) := match codec.compress config data with
          | some written => (written, data.length)
          | none => ([], 0)
        if originalSize ≠ header.targetSize then none else pure (written, offset)

/-- One turn of the loop over the chunks, behind the block type. -/
def applyChunk (bonusData : Bytes) (type : Nat) (i offset : Nat) : Option (Bytes × Nat) :=
  let bonusData := if i = 1 then bonusData else []
  match BlockType.ofCode type with
  | some .normal => normalImagePatch blockPatch param offset
  | some .raw => rowImagePatch param offset
  | some .deflate => (zipReadHeader param offset).bind
      (compressedImagePatch blockPatch codec param bonusData)
  | some .lz4 => (lz4ReadHeader param offset).bind
      (compressedImagePatch blockPatch codec param bonusData)
  | none => none

/-- The loop over the chunks that are left. -/
def applyChunks (bonusData : Bytes) : Nat → Nat → Nat → Option Bytes
  | 0, _, _ => some []
  | count + 1, i, offset =>
      if offset + 4 > param.patch.length then none
      else do
        let (data, offset) ← applyChunk blockPatch codec param bonusData (readLE param 4 offset) i
          (offset + 4)
        let rest ← applyChunks bonusData count (i + 1) offset
        pure (data ++ rest)

def preCheck : Bool :=
  pkgdiffMagic.length + 4 ≤ param.patch.length ∧
    param.patch.take pkgdiffMagic.length = pkgdiffMagic

/-- `UpdateApplyPatch::ApplyImagePatch`; a negative chunk count ends the loop at once. -/
def applyImagePatch (bonusData : Bytes) : Option Bytes :=
  if preCheck param then
    let numChunks := toInt32 (readLE param 4 pkgdiffMagic.length)
    applyChunks blockPatch codec param bonusData numChunks.toNat 0 (pkgdiffMagic.length + 4)
  else none

end Updater.DiffPatch
