import Updater.DiffPatch.ImageFormat

/-! `ImageDiff`: an image is cut into blocks, the headers of the blocks are written
first and their block patches behind them. -/

set_option autoImplicit false

namespace Updater.DiffPatch

open Updater.Base

def maxNewLength : Nat := 1 <<< 20

/-- `IGMDIFF_LIMIT_UNIT`. -/
def imgdiffLimitUnit : Nat := 10240

/-- A range of one of the two images. -/
structure PatchBuffer where
  start : Nat
  length : Nat
  deriving DecidableEq, Repr

structure ImageBlock where
  type : BlockType
  newInfo : PatchBuffer
  oldInfo : PatchBuffer
  patchData : Bytes := []
  srcOriginalData : Bytes := []
  destOriginalData : Bytes := []
  deriving DecidableEq, Repr

/-- The buffers of the two parsers. -/
structure Images where
  new : Bytes
  old : Bytes
  deriving DecidableEq, Repr

/-- `GetHeaderSize`, the block type counted in. -/
def getHeaderSize (block : ImageBlock) : Nat :=
  match block.type with
  | .normal => 4 + patchNormalMinHeaderLen
  | .deflate => 4 + patchDeflateMinHeaderLen
  | .raw => 4 + 4 + block.newInfo.length
  | .lz4 => 4 + patchLz4MinHeaderLen

/-- How many blocks `SplitImage` makes. -/
def blockCount (limit newLength : Nat) : Nat :=
  if newLength % limit = 0 then newLength / limit else newLength / limit + 1

def splitImage (limit oldLength newLength : Nat) : List ImageBlock :=
  let count := blockCount limit newLength
  let oldBlockSize := oldLength / count
  let newBlockSize := newLength / count
  let type := if oldLength = 0 then BlockType.raw else BlockType.normal
  let last := count - 1
  (List.range last).map (fun i => {
    type
    newInfo := ⟨newBlockSize * i, newBlockSize⟩
    oldInfo := ⟨oldBlockSize * i, oldBlockSize⟩ }) ++ [{
    type
    newInfo := ⟨newBlockSize * last, newLength - newBlockSize * last⟩
    oldInfo := ⟨oldBlockSize * last, oldLength - oldBlockSize * last⟩ }]

/-- The two files while a patch is written; `dataOffset` is where the block patch
of the next block will stand. -/
structure DiffFiles where
  patchFile : Bytes
  blockPatchFile : Bytes
  dataOffset : Nat
  deriving DecidableEq, Repr

variable (blockPatch : BlockPatch) (images : Images) (usePatchFile : Bool)

/-- `MakeBlockPatch`: the patch is kept in the block or added to the `.bspatch`
file. Also gives its size. -/
def makeBlockPatch (files : DiffFiles) (block : ImageBlock) (newInfo oldInfo : Bytes) :
    Option (DiffFiles × ImageBlock × Nat) := do
  let patch ← blockPatch.make newInfo oldInfo
  if usePatchFile then
    pure ({ files with blockPatchFile := files.blockPatchFile ++ patch }, block, patch.length)
  else pure (files, { block with patchData := patch }, patch.length)

/-- `ImageDiff::WriteHeader`. -/
def imageWriteHeader (files : DiffFiles) (block : ImageBlock) : Option (DiffFiles × ImageBlock) :=
  match block.type with
  | .normal => do
      let newInfo ← readRange images.new block.newInfo.start block.newInfo.length
      let oldInfo ← readRange images.old block.oldInfo.start block.oldInfo.length
      let (files, block, patchSize) ←
        makeBlockPatch blockPatch usePatchFile files block newInfo oldInfo
      pure ({ files with
        patchFile := files.patchFile ++ leBytes 8 block.oldInfo.start ++
          leBytes 8 block.oldInfo.length ++ leBytes 8 files.dataOffset
        dataOffset := files.dataOffset + patchSize }, block)
  | .raw => do
      let data ← readRange images.new block.newInfo.start block.newInfo.length
      pure ({ files with
        patchFile := files.patchFile ++ leBytes 4 block.newInfo.length ++ data }, block)
  | _ => pure (files, block)

/-- The second loop of `DiffImage`. -/
def writeHeaders (writeHeader : DiffFiles → ImageBlock → Option (DiffFiles × ImageBlock)) :
    DiffFiles → List ImageBlock → Option (DiffFiles × List ImageBlock)
  | files, [] => some (files, [])
  | files, block :: rest => do
      let files := { files with patchFile := files.patchFile ++ leBytes 4 block.type.code }
      let (files, block) ← writeHeader files block
      let (files, rest) ← writeHeaders writeHeader files rest
      pure (files, block :: rest)

/-- The copy loop of `WritePatch`. -/
def copyBlockPatches (bspatch : Bytes) : Bytes :=
  if _more : bspatch = [] then []
  else bspatch.take imgdiffLimitUnit ++ copyBlockPatches (bspatch.drop imgdiffLimitUnit)
termination_by bspatch.length
decreasing_by
  have positive : 0 < bspatch.length := List.length_pos_iff.mpr _more
  have unit : 0 < imgdiffLimitUnit := by decide
  rw [List.length_drop]
  omega

def writePatch (files : DiffFiles) (blocks : List ImageBlock) : Bytes :=
  if usePatchFile then files.patchFile ++ copyBlockPatches files.blockPatchFile
  else files.patchFile ++
    (blocks.filter fun block => block.type ≠ .raw).flatMap ImageBlock.patchData

/-- What becomes of `usePatchFile_`. -/
def needsPatchFile (blocks : List ImageBlock) : Bool :=
  blocks.any fun block =>
    block.destOriginalData.length ≥ maxNewLength || block.newInfo.length ≥ maxNewLength

/-- The files before the first header. -/
def startFiles (blocks : List ImageBlock) : DiffFiles where
  patchFile := pkgdiffMagic ++ leBytes 4 blocks.length
  blockPatchFile := []
  dataOffset := pkgdiffMagic.length + 4 + (blocks.map getHeaderSize).sum

/-- `DiffImage`, as the patch file; `writeHeader` is the virtual function, told
whether a `.bspatch` file is used. -/
def diffImage (writeHeader : Bool → DiffFiles → ImageBlock → Option (DiffFiles × ImageBlock))
    (blocks : List ImageBlock) : Option Bytes := do
  let usePatchFile := needsPatchFile blocks
  let (files, blocks) ← writeHeaders (writeHeader usePatchFile) (startFiles blocks) blocks
  pure (writePatch usePatchFile files blocks)

/-- The blocks of `ImageDiff::MakePatch`. -/
def imageBlocks (limit : Nat) : List ImageBlock :=
  if limit = 0 ∨ images.new.length ≤ limit then
    [{ type := .normal, newInfo := ⟨0, images.new.length⟩, oldInfo := ⟨0, images.old.length⟩ }]
  else splitImage limit images.old.length images.new.length

/-- `ImageDiff::MakePatch`. -/
def imageMakePatch (limit : Nat) : Option Bytes :=
  diffImage (imageWriteHeader blockPatch images) (imageBlocks images limit)

end Updater.DiffPatch
