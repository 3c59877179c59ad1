import Mathlib.Algebra.Order.BigOperators.Group.List
import Updater.DiffPatch.BlocksRoundTrip
import Updater.DiffPatch.ImageLayout

/-! Applying the patch that `ImageDiff::MakePatch` wrote gives the new image back,
as long as the block count and the raw lengths fit their 32-bit fields. -/

set_option autoImplicit false

namespace Updater.DiffPatch

open Updater.Base

def newData (images : Images) (block : ImageBlock) : Bytes :=
  slice images.new block.newInfo.start block.newInfo.length

def oldData (images : Images) (block : ImageBlock) : Bytes :=
  slice images.old block.oldInfo.start block.oldInfo.length

/-- The ranges of a block lie in the images. -/
structure ImageBlock.Inside (images : Images) (block : ImageBlock) : Prop where
  new : block.newInfo.start + block.newInfo.length ≤ images.new.length
  old : block.type ≠ .raw → block.oldInfo.start + block.oldInfo.length ≤ images.old.length

theorem ImageBlock.Inside.length_newData {images : Images} {block : ImageBlock}
    (inside : block.Inside images) : (newData images block).length = block.newInfo.length :=
  length_slice inside.new

/-- Headers and patches of plain image blocks. -/
def imageFormat (blockPatch : BlockPatch) (images : Images) : BlockFormat where
  record block dataOffset :=
    match block.type with
    | .normal => leBytes 8 block.oldInfo.start ++ leBytes 8 block.oldInfo.length ++
        leBytes 8 dataOffset
    | .raw => leBytes 4 block.newInfo.length ++ newData images block
    | _ => []
  Own block own :=
    block.Inside images ∧
      match block.type with
      | .normal => blockPatch.make (newData images block) (oldData images block) = some own
      | .raw => own = []
      | _ => False

variable {blockPatch : BlockPatch} {codec : Codec} {images : Images} {bonusData patch : Bytes}
variable {limit : Nat}

theorem imageFormat_sized : (imageFormat blockPatch images).Sized := by
  intro block own ownPatch dataOffset
  obtain ⟨inside, ownPatch⟩ := ownPatch
  cases type : block.type with
  | normal => simp [imageFormat, getHeaderSize, type, patchNormalMinHeaderLen]
  | raw =>
      simp only [imageFormat, getHeaderSize, type, List.length_append, length_leBytes,
        inside.length_newData]
      omega
  | deflate => simp [type] at ownPatch
  | lz4 => simp [type] at ownPatch

/-- `WriteHeader` writes the header of a normal or raw block. -/
theorem imageWriteHeader_writes {block block' : ImageBlock} {usePatchFile : Bool}
    {files files' : DiffFiles} (plain : block.type = .normal ∨ block.type = .raw)
    (written : imageWriteHeader blockPatch images usePatchFile files block =
      some (files', block')) :
    ∃ own, (imageFormat blockPatch images).Writes usePatchFile files block files' block' own := by
  rcases plain with type | type
  · simp only [imageWriteHeader, type, Option.bind_eq_bind] at written
    obtain ⟨newInfo, newRead, written⟩ := Option.bind_eq_some_iff.mp written
    obtain ⟨oldInfo, oldRead, written⟩ := Option.bind_eq_some_iff.mp written
    obtain ⟨⟨files₁, block₁, patchSize⟩, made, written⟩ := Option.bind_eq_some_iff.mp written
    obtain ⟨newInside, newSame⟩ := readRange_some newRead
    obtain ⟨oldInside, oldSame⟩ := readRange_some oldRead
    unfold makeBlockPatch at made
    obtain ⟨own, ownMade, made⟩ := Option.bind_eq_some_iff.mp made
    cases written
    have ownPatch : (imageFormat blockPatch images).Own block own := by
      refine ⟨⟨newInside, fun _ => oldInside⟩, ?_⟩
      simp only [type]
      rw [newData, oldData, ← newSame, ← oldSame]
      exact ownMade
    refine ⟨own, ?_⟩
    cases usePatchFile with
    | false =>
        cases made
        constructor
        · simp [imageFormat, type]
        · rfl
        · intro use
          cases use
        · intro _ _
          rfl
        · intro raw
          rw [type] at raw
          cases raw
        · rfl
        · exact ownPatch
    | true =>
        cases made
        constructor
        · simp [imageFormat, type]
        · rfl
        · intro _
          rfl
        · intro use
          cases use
        · intro raw
          rw [type] at raw
          cases raw
        · rfl
        · exact ownPatch
  · simp only [imageWriteHeader, type, Option.bind_eq_bind] at written
    obtain ⟨data, read, written⟩ := Option.bind_eq_some_iff.mp written
    obtain ⟨inside, same⟩ := readRange_some read
    cases written
    refine ⟨[], ?_⟩
    constructor
    · simp [imageFormat, type, newData, ← same]
    · rfl
    · intro _
      simp
    · intro _ notRaw
      exact absurd type notRaw
    · intro _
      rfl
    · rfl
    · refine ⟨⟨inside, fun notRaw => absurd type notRaw⟩, ?_⟩
      simp [type]

/-- Fields of a normal header are read back, and the block patch behind it applied. -/
theorem imageFormat_reads_normal {block : ImageBlock} {param : PatchParam}
    (type : block.type = .normal)
    (exact : blockPatch.ExactAt (newData images block) (oldData images block))
    (old : param.old = images.old) (oldSmall : images.old.length < 2 ^ 64)
    (patchSmall : param.patch.length < 2 ^ 63) :
    (imageFormat blockPatch images).Reads blockPatch codec param bonusData block
      (some (newData images block)) := by
  intro own tail more i offset dataOffset ownPatch header stands fits
  obtain ⟨inside, made⟩ := ownPatch
  have oldInside := inside.old (by simp [type])
  simp only [type] at made
  simp only [imageFormat, type, List.append_assoc] at header
  have width : 256 ^ 8 = 2 ^ 64 := by norm_num
  have room := lt_length_of_drop header (by simp)
  have startRead := readLE_field (by omega) header
  have behindStart := drop_append_length header
  have lengthRead := readLE_field (by omega) behindStart
  have behindLength := drop_append_length behindStart
  have offsetRead := readLE_field (by omega) behindLength
  have roomLength := lt_length_of_drop behindStart (by simp)
  have roomOffset := lt_length_of_drop behindLength (by simp)
  rw [length_leBytes] at room roomLength roomOffset lengthRead offsetRead
  simp only [length_leBytes] at roomLength roomOffset offsetRead
  have front : (param.patch.take dataOffset).length = dataOffset := by
    rw [List.length_take]
    omega
  have whole : param.patch.take dataOffset ++ own ++ more = param.patch := by
    rw [List.append_assoc, ← stands, List.take_append_drop]
  have applied := exact own made (param.patch.take dataOffset) more (by rw [whole]; exact patchSmall)
  rw [whole, front] at applied
  have minimum : patchNormalMinHeaderLen = 24 := rfl
  rw [applyChunk, BlockType.ofCode_code, type]
  simp only
  rw [normalImagePatch, if_neg (by omega)]
  simp only [startRead, lengthRead]
  rw [show offset + 16 = offset + 8 + 8 from rfl, offsetRead, if_neg, old]
  · rw [show slice images.old block.oldInfo.start block.oldInfo.length = oldData images block from rfl,
      applied]
    simp [imageFormat, type]
  · rw [old]
    omega

/-- The data of a raw block is read back, if its length fits 32 bits. -/
theorem imageFormat_reads_raw {block : ImageBlock} {param : PatchParam}
    (type : block.type = .raw) (small : block.newInfo.length < 2 ^ 32) :
    (imageFormat blockPatch images).Reads blockPatch codec param bonusData block
      (some (newData images block)) := by
  intro own tail more i offset dataOffset ownPatch header stands fits
  obtain ⟨inside, _⟩ := ownPatch
  have length := inside.length_newData
  simp only [imageFormat, type, List.append_assoc] at header
  have width : 256 ^ 4 = 2 ^ 32 := by norm_num
  have room := lt_length_of_drop header (by simp)
  have lengthRead := readLE_field (by omega) header
  have behind := drop_append_length header
  rw [length_leBytes] at room behind
  have sizes := congrArg List.length behind
  simp only [List.length_drop, List.length_append, length] at sizes
  have read : readRange param.patch (offset + 4) block.newInfo.length =
      some (newData images block) := by
    rw [readRange, if_pos (by omega), slice, behind, ← length, List.take_left]
  rw [applyChunk, BlockType.ofCode_code, type]
  simp only
  rw [rowImagePatch, if_neg (by omega)]
  simp only [lengthRead]
  rw [if_neg (by omega), read]
  simp [imageFormat, type, length, Nat.add_assoc]

theorem flatMap_range_slice (xs : Bytes) (size count : Nat) :
    ((List.range count).flatMap fun i => slice xs (size * i) size) = xs.take (size * count) := by
  induction count with
  | zero => simp
  | succ count ih =>
      rw [List.range_succ, List.flatMap_append, ih, Nat.mul_succ, List.take_add]
      simp [slice]

theorem blockCount_pos {newLength : Nat} (positive : 0 < limit) (longer : limit < newLength) :
    0 < blockCount limit newLength := by
  have one : 0 < newLength / limit := Nat.div_pos (Nat.le_of_lt longer) positive
  unfold blockCount
  split
  · exact one
  · exact Nat.succ_pos _

theorem blockCount_le {newLength : Nat} (positive : 0 < limit) (longer : limit < newLength) :
    blockCount limit newLength ≤ newLength := by
  unfold blockCount
  split
  · exact Nat.div_le_self newLength limit
  · rename_i remainder
    have smaller : limit ≠ 1 := by
      intro one
      rw [one, Nat.mod_one] at remainder
      exact remainder rfl
    exact Nat.div_lt_self (by omega) (by omega)

/-- Length of the last block of a split, which takes the remainder. -/
def lastLength (limit newLength : Nat) : Nat :=
  newLength - newLength / blockCount limit newLength * (blockCount limit newLength - 1)

theorem blockSize_le_lastLength {newLength : Nat} (counted : 0 < blockCount limit newLength) :
    newLength / blockCount limit newLength ≤ lastLength limit newLength := by
  have whole := Nat.div_mul_le_self newLength (blockCount limit newLength)
  have last := Nat.mul_sub_one (newLength / blockCount limit newLength) (blockCount limit newLength)
  have one := Nat.le_mul_of_pos_right (newLength / blockCount limit newLength) counted
  unfold lastLength
  omega

theorem length_splitImage (oldLength : Nat) {newLength : Nat}
    (counted : 0 < blockCount limit newLength) :
    (splitImage limit oldLength newLength).length = blockCount limit newLength := by
  simp only [splitImage, List.length_append, List.length_map, List.length_range,
    List.length_singleton]
  omega

theorem splitImage_type {oldLength newLength : Nat} {block : ImageBlock}
    (member : block ∈ splitImage limit oldLength newLength) :
    block.type = if oldLength = 0 then BlockType.raw else BlockType.normal := by
  simp only [splitImage, List.mem_append, List.mem_map, List.mem_singleton] at member
  rcases member with ⟨_, _, rfl⟩ | rfl
  · rfl
  · rfl

/-- The sizes of the blocks, in order. -/
theorem splitImage_sizes (oldLength newLength : Nat) :
    (splitImage limit oldLength newLength).map (fun block => block.newInfo.length) =
      List.replicate (blockCount limit newLength - 1) (newLength / blockCount limit newLength) ++
        [lastLength limit newLength] := by
  simp only [splitImage, List.map_append, List.map_map, List.map_singleton, Function.comp_def]
  rw [List.map_const', List.length_range]
  rfl

/-- Together the blocks of a split are the new image. -/
theorem splitImage_tiles (images : Images) (limit : Nat) :
    (splitImage limit images.old.length images.new.length).flatMap (newData images) =
      images.new := by
  simp only [splitImage, List.flatMap_append, List.flatMap_map, List.flatMap_singleton, newData]
  rw [flatMap_range_slice]
  conv_rhs => rw [← List.take_append_drop
    (images.new.length / blockCount limit images.new.length *
      (blockCount limit images.new.length - 1)) images.new]
  congr 1
  rw [slice, List.take_of_length_le]
  rw [List.length_drop]

theorem imageBlocks_tile (images : Images) (limit : Nat) :
    (imageBlocks images limit).flatMap (newData images) = images.new := by
  unfold imageBlocks
  split
  · simp [newData]
  · exact splitImage_tiles images limit

theorem imageBlocks_plain {block : ImageBlock} (member : block ∈ imageBlocks images limit) :
    block.type = .normal ∨ block.type = .raw := by
  unfold imageBlocks at member
  split at member
  · rw [List.mem_singleton] at member
    rw [member]
    exact .inl rfl
  · rw [splitImage_type member]
    split
    · exact .inr rfl
    · exact .inl rfl

/-- Block count and raw lengths fit the 32-bit fields, for images of these lengths. -/
def ImageFits (limit oldLength newLength : Nat) : Prop :=
  limit = 0 ∨ newLength ≤ limit ∨
    (blockCount limit newLength < 2 ^ 31 ∧ (oldLength = 0 → lastLength limit newLength < 2 ^ 32))

/-- The images fit just when their blocks do. -/
theorem imageFits_iff : ImageFits limit images.old.length images.new.length ↔
    (imageBlocks images limit).length < 2 ^ 31 ∧
      ∀ block ∈ imageBlocks images limit, block.type = .raw → block.newInfo.length < 2 ^ 32 := by
  unfold ImageFits imageBlocks
  by_cases whole : limit = 0 ∨ images.new.length ≤ limit
  · rw [if_pos whole]
    constructor
    · intro _
      refine ⟨Nat.one_lt_two_pow (by decide), fun block member raw => ?_⟩
      rw [List.mem_singleton] at member
      rw [member] at raw
      cases raw
    · intro _
      exact whole.imp_right .inl
  · rw [if_neg whole]
    obtain ⟨nonzero, longer⟩ := not_or.mp whole
    have counted := blockCount_pos (Nat.pos_of_ne_zero nonzero) (Nat.not_le.mp longer)
    have sizes := @splitImage_sizes limit images.old.length images.new.length
    rw [length_splitImage _ counted]
    simp only [nonzero, longer, false_or]
    apply and_congr_right
    intro _
    constructor
    · intro last block member raw
      have empty : images.old.length = 0 := by
        by_contra present
        rw [splitImage_type member, if_neg present] at raw
        cases raw
      have sized : block.newInfo.length ∈
          (splitImage limit images.old.length images.new.length).map
            fun block => block.newInfo.length := List.mem_map_of_mem member
      rw [sizes, List.mem_append, List.mem_singleton] at sized
      rcases sized with first | final
      · rw [List.eq_of_mem_replicate first]
        exact Nat.lt_of_le_of_lt (blockSize_le_lastLength counted) (last empty)
      · rw [final]
        exact last empty
    · intro small empty
      have member : lastLength limit images.new.length ∈
          (splitImage limit images.old.length images.new.length).map
            fun block => block.newInfo.length := by
        rw [sizes]
        simp
      obtain ⟨block, blockMember, sized⟩ := List.mem_map.mp member
      rw [← sized]
      exact small block blockMember (by rw [splitImage_type blockMember, if_pos empty])

/-- The block patch is exact on all normal blocks of an image pair. -/
def BlocksExact (blockPatch : BlockPatch) (images : Images) (limit : Nat) : Prop :=
  ∀ block ∈ imageBlocks images limit, block.type = .normal →
    blockPatch.ExactAt (newData images block) (oldData images block)

theorem imageMakePatch_layout (made : imageMakePatch blockPatch images limit = some patch) :
    ∃ owns, List.Forall₂ (imageFormat blockPatch images).Own (imageBlocks images limit) owns ∧
      patch = pkgdiffMagic ++ leBytes 4 (imageBlocks images limit).length ++
        (imageFormat blockPatch images).records (dataStart (imageBlocks images limit))
          (imageBlocks images limit) owns ++ owns.flatten :=
  diffImage_layout (fun _ member => imageWriteHeader_writes (imageBlocks_plain member)) made

/-- As long as the raw blocks that are counted are short, their data is what the
patch writes. -/
theorem applyImagePatch_counted (made : imageMakePatch blockPatch images limit = some patch)
    (exact : BlocksExact blockPatch images limit) (oldSmall : images.old.length < 2 ^ 64)
    (patchSmall : patch.length < 2 ^ 63)
    (small : ∀ block ∈ (imageBlocks images limit).take
        (readCount (imageBlocks images limit).length),
      block.type = .raw → block.newInfo.length < 2 ^ 32) :
    applyImagePatch blockPatch codec ⟨images.old, patch⟩ bonusData =
      some (((imageBlocks images limit).take
        (readCount (imageBlocks images limit).length)).flatMap (newData images)) := by
  obtain ⟨owns, each, layout⟩ := imageMakePatch_layout made
  rw [← joinResults_some]
  apply applyImagePatch_layout imageFormat_sized _ each layout
  intro block member
  have listed := List.mem_of_mem_take member
  rcases imageBlocks_plain listed with normal | raw
  · exact imageFormat_reads_normal normal (exact block listed normal) rfl oldSmall patchSmall
  · exact imageFormat_reads_raw raw (small block member raw)

/-- The patch offset in the header of each normal block leads to its own block patch. -/
def OwnSections (blockPatch : BlockPatch) (images : Images) (blocks : List ImageBlock)
    (patch : Bytes) : Prop :=
  ∀ index block, blocks[index]? = some block → block.type = .normal →
    ∃ own, blockPatch.make (newData images block) (oldData images block) = some own ∧
      slice patch (leValue (slice patch (headerStart blocks index + 20) 8)) own.length = own

theorem imageMakePatch_ownSections (made : imageMakePatch blockPatch images limit = some patch)
    (patchSmall : patch.length < 2 ^ 63) :
    OwnSections blockPatch images (imageBlocks images limit) patch := by
  obtain ⟨owns, each, layout⟩ := imageMakePatch_layout made
  obtain ⟨headers, patches, size⟩ := layout_parts imageFormat_sized each layout
  intro index block found type
  obtain ⟨own, ownOffset, tail, more, ownPatch, header, stands, fits⟩ :=
    records_getElem imageFormat_sized each headers
      (show patch.drop (dataStart (imageBlocks images limit)) = owns.flatten ++ [] by
        rw [patches, List.append_nil])
      (Nat.le_of_eq size.symm) found
  obtain ⟨_, ownMade⟩ := ownPatch
  simp only [type] at ownMade
  refine ⟨own, ownMade, ?_⟩
  simp only [imageFormat, type, List.append_assoc] at header
  have fieldStands := drop_append_length (drop_append_length (drop_append_length header))
  simp only [length_leBytes] at fieldStands
  have width : 256 ^ 8 = 2 ^ 64 := by norm_num
  have field : leValue (slice patch (headerStart (imageBlocks images limit) index + 20) 8) =
      ownOffset :=
    @readLE_field ⟨images.old, patch⟩ 8 ownOffset _ tail (by omega) fieldStands
  rw [field, slice, stands, List.take_left]

/-- A library that never succeeds; images without normal blocks do not need one. -/
def noPatch : BlockPatch where
  make _ _ := none
  apply _ _ _ := none

def noCodec : Codec where
  decompress _ _ _ := none
  compress _ _ := none
  crc32 _ := 0

theorem compressedImagePatch_none (param : PatchParam)
    (header : CompressedHeader × PackConfig × Nat) :
    compressedImagePatch noPatch noCodec param bonusData header = none := by
  obtain ⟨header, config, offset⟩ := header
  rw [compressedImagePatch]
  split
  · rfl
  · cases decompressData noCodec config (slice param.old header.srcStart header.srcLength) bonusData
      header.expandedLen with
    | none => rfl
    | some stream => rfl

theorem applyChunk_bound {param : PatchParam} {type i offset next : Nat} {data : Bytes}
    (applied : applyChunk noPatch noCodec param bonusData type i offset = some (data, next)) :
    data.length < 2 ^ 32 := by
  unfold applyChunk at applied
  cases known : BlockType.ofCode type with
  | none => simp [known] at applied
  | some kind =>
      rw [known] at applied
      cases kind with
      | normal =>
          simp only [normalImagePatch, noPatch, Option.map_none, ite_self] at applied
          cases applied
      | deflate =>
          obtain ⟨header, _, applied⟩ := Option.bind_eq_some_iff.mp applied
          rw [compressedImagePatch_none] at applied
          cases applied
      | lz4 =>
          obtain ⟨header, _, applied⟩ := Option.bind_eq_some_iff.mp applied
          rw [compressedImagePatch_none] at applied
          cases applied
      | raw =>
          simp only [rowImagePatch] at applied
          split at applied
          · cases applied
          · split at applied
            · cases applied
            · obtain ⟨read, found, same⟩ := Option.map_eq_some_iff.mp applied
              obtain ⟨inside, sliced⟩ := readRange_some found
              cases same
              have width : 256 ^ 4 = 2 ^ 32 := by norm_num
              rw [sliced, ← width]
              exact Nat.lt_of_le_of_lt (length_slice_le _ _ _) (readLE_lt param 4 offset)

/-- Without a library a chunk writes less than four gigabytes. -/
theorem applyChunks_bound {param : PatchParam} {count i offset : Nat} {written : Bytes}
    (applied : applyChunks noPatch noCodec param bonusData count i offset = some written) :
    written.length ≤ count * (2 ^ 32 - 1) := by
  induction count generalizing i offset written with
  | zero =>
      cases applied
      exact Nat.zero_le _
  | succ count ih =>
      unfold applyChunks at applied
      split at applied
      · cases applied
      · simp only [Option.bind_eq_bind] at applied
        obtain ⟨⟨data, next⟩, chunk, applied⟩ := Option.bind_eq_some_iff.mp applied
        obtain ⟨rest, later, applied⟩ := Option.bind_eq_some_iff.mp applied
        cases applied
        have laterBound := ih later
        have chunkBound := applyChunk_bound chunk
        simp only [List.length_append, Nat.succ_mul]
        omega

/-- Raw blocks of which one is too long for its field: fewer bytes are written than
the blocks hold. By induction on the blocks; all behind the first that is too long
are too long as well. -/
theorem applyChunks_oversized {param : PatchParam} {blocks : List ImageBlock} {owns : List Bytes}
    {count i offset dataOffset : Nat} {tail more written : Bytes}
    (raw : ∀ block ∈ blocks, block.type = .raw)
    (growing : blocks.Pairwise fun first second => first.newInfo.length ≤ second.newInfo.length)
    (each : List.Forall₂ (imageFormat noPatch images).Own blocks owns)
    (enough : count ≤ blocks.length)
    (headers : param.patch.drop offset =
      (imageFormat noPatch images).records dataOffset blocks owns ++ tail)
    (patches : param.patch.drop dataOffset = owns.flatten ++ more)
    (inside : dataOffset + owns.flatten.length ≤ param.patch.length)
    (oversized : ∃ block ∈ blocks.take count, 2 ^ 32 ≤ block.newInfo.length)
    (applied : applyChunks noPatch noCodec param bonusData count i offset = some written) :
    written.length < (blocks.map fun block => block.newInfo.length).sum := by
  induction each generalizing count i offset dataOffset written with
  | nil =>
      obtain ⟨block, member, _⟩ := oversized
      simp at member
  | @cons block own blocks owns ownPatch _ ih =>
      cases count with
      | zero =>
          obtain ⟨_, member, _⟩ := oversized
          simp at member
      | succ count =>
          by_cases small : block.newInfo.length < 2 ^ 32
          · obtain ⟨next, step, headers, patches, inside⟩ := applyChunks_step
              (imageFormat_reads_raw (raw block (.head _)) small) ownPatch headers patches inside
            rw [step, Option.bind_some] at applied
            obtain ⟨rest, later, same⟩ := Option.map_eq_some_iff.mp applied
            have restOversized : ∃ other ∈ blocks.take count, 2 ^ 32 ≤ other.newInfo.length := by
              obtain ⟨other, member, large⟩ := oversized
              rw [List.take_succ_cons, List.mem_cons] at member
              rcases member with rfl | member
              · exact absurd small (Nat.not_lt.mpr large)
              · exact ⟨other, member, large⟩
            have shorter := ih (fun other member => raw other (.tail _ member)) growing.of_cons
              (Nat.le_of_succ_le_succ enough) headers patches inside restOversized later
            have length := ownPatch.1.length_newData
            rw [← same, List.map_cons, List.sum_cons, List.length_append, length]
            omega
          · have bound := applyChunks_bound applied
            have all : ∀ length ∈ ((block :: blocks).map fun block => block.newInfo.length),
                2 ^ 32 ≤ length := by
              intro length member
              obtain ⟨other, listed, rfl⟩ := List.mem_map.mp member
              rcases List.mem_cons.mp listed with rfl | later
              · exact Nat.not_lt.mp small
              · exact Nat.le_trans (Nat.not_lt.mp small) (List.rel_of_pairwise_cons growing later)
            have total := List.card_nsmul_le_sum _ _ all
            rw [List.length_map, nsmul_eq_mul, Nat.cast_id] at total
            have enoughBytes := Nat.mul_le_mul_right (2 ^ 32) enough
            omega

theorem splitImage_growing {oldLength newLength : Nat}
    (counted : 0 < blockCount limit newLength) :
    (splitImage limit oldLength newLength).Pairwise fun first second =>
      first.newInfo.length ≤ second.newInfo.length := by
  rw [← List.pairwise_map (f := fun block : ImageBlock => block.newInfo.length) (R := (· ≤ ·)),
    splitImage_sizes, List.pairwise_append]
  refine ⟨List.pairwise_replicate.mpr (.inr (Nat.le_refl _)), List.pairwise_singleton _ _, ?_⟩
  intro size member last final
  rw [List.eq_of_mem_replicate member, List.mem_singleton.mp final]
  exact blockSize_le_lastLength counted

theorem writeHeaders_congr {blocks : List ImageBlock} {files : DiffFiles}
    {writeHeader writeHeader' : DiffFiles → ImageBlock → Option (DiffFiles × ImageBlock)}
    (same : ∀ block ∈ blocks, ∀ files, writeHeader files block = writeHeader' files block) :
    writeHeaders writeHeader files blocks = writeHeaders writeHeader' files blocks := by
  induction blocks generalizing files with
  | nil => rfl
  | cons block blocks ih =>
      have rest (files : DiffFiles) := @ih files fun other member => same other (.tail _ member)
      simp only [writeHeaders, same block (.head _), rest]

/-- Without normal blocks the block patch does not matter. -/
theorem imageMakePatch_noPatch (raw : ∀ block ∈ imageBlocks images limit, block.type = .raw) :
    imageMakePatch noPatch images limit = imageMakePatch blockPatch images limit := by
  unfold imageMakePatch diffImage
  simp only
  rw [writeHeaders_congr]
  intro block member files
  simp only [imageWriteHeader, raw block member]

/-- The block patch of the repository over a bzip2 library. -/
def BlockPatch.ofBzip2 (bzip2 : Bzip2) : BlockPatch where
  make := makePatch bzip2
  apply old file start :=
    (streamApplyPatch bzip2 ⟨true, old⟩ collectWrite file start []).result.map fun st =>
      st.sink.flatten

/-- It is exact wherever bzip2 restores its sections, whatever follows the last one. -/
theorem BlockPatch.ofBzip2_exactAt (bzip2 : Bzip2) {new old : Bytes}
    (oldSmall : old.length ≤ maxPatchLength) (newSmall : new.length < 2 ^ 63)
    (restores : ∀ sections, makeSections new old = some sections →
      bzip2.Restores sections.control ∧ bzip2.Restores sections.diff ∧
        ∀ rest, bzip2.RestoresBefore sections.extra rest) :
    (BlockPatch.ofBzip2 bzip2).ExactAt new old := by
  intro patch made before after fileSmall
  have inRange : old.length < 2 ^ 63 := Nat.lt_of_le_of_lt oldSmall (by decide)
  obtain ⟨st, applied, same⟩ := applyPatch_replays (collectWrite_takes new) (fun _ => []) before after
    inRange newSmall fileSmall (fun sections found => by
      obtain ⟨control, diff, extra⟩ := restores sections found
      exact ⟨control, diff, extra after⟩) made rfl
  rw [Int.toNat_natCast, List.take_length] at same
  change (streamApplyPatch bzip2 ⟨true, old⟩ collectWrite (before ++ patch ++ after) before.length
    []).result.map _ = some new
  rw [streamApplyPatch, applied, Option.map_some, same]

/-- The claimed behaviour for a patch that was made: with every exact block patch it
leads to, applying it gives the new image, and the headers point at their sections. -/
def ImageRoundTrips (limit : Nat) (images : Images) (patch : Bytes) : Prop :=
  ∀ (blockPatch : BlockPatch) (codec : Codec) (bonusData : Bytes),
    imageMakePatch blockPatch images limit = some patch → BlocksExact blockPatch images limit →
      applyImagePatch blockPatch codec ⟨images.old, patch⟩ bonusData = some images.new ∧
        OwnSections blockPatch images (imageBlocks images limit) patch

theorem imageMakePatch_inside (made : imageMakePatch blockPatch images limit = some patch)
    {block : ImageBlock} (member : block ∈ imageBlocks images limit) : block.Inside images := by
  obtain ⟨owns, each, -⟩ := imageMakePatch_layout made
  generalize imageBlocks images limit = blocks at each member
  induction each with
  | nil => cases member
  | cons ownPatch _ ih =>
      rcases List.mem_cons.mp member with rfl | later
      · exact ownPatch.1
      · exact ih later

/-- Blocks of a split are not empty. -/
theorem splitImage_positive {oldLength newLength : Nat} {block : ImageBlock} (positive : 0 < limit)
    (longer : limit < newLength) (member : block ∈ splitImage limit oldLength newLength) :
    0 < block.newInfo.length := by
  have counted := blockCount_pos positive longer
  have size : 0 < newLength / blockCount limit newLength :=
    Nat.div_pos (blockCount_le positive longer) counted
  have listed : block.newInfo.length ∈ (splitImage limit oldLength newLength).map
      fun block => block.newInfo.length := List.mem_map_of_mem member
  rw [splitImage_sizes, List.mem_append, List.mem_singleton] at listed
  rcases listed with first | final
  · rw [List.eq_of_mem_replicate first]
    exact size
  · rw [final]
    exact Nat.lt_of_lt_of_le size (blockSize_le_lastLength counted)

/-- If the chunks that are read back are the whole image, all of them are. -/
theorem imageBlocks_counted (made : imageMakePatch blockPatch images limit = some patch)
    (whole : ((imageBlocks images limit).take
      (readCount (imageBlocks images limit).length)).flatMap (newData images) = images.new) :
    (imageBlocks images limit).length < 2 ^ 31 := by
  by_contra large
  have lost := readCount_lt (Nat.not_lt.mp large)
  have tiles := imageBlocks_tile images limit
  rw [← List.take_append_drop (readCount (imageBlocks images limit).length)
    (imageBlocks images limit), List.flatMap_append, whole] at tiles
  have nothing := List.append_right_eq_self.mp tiles
  have member : (imageBlocks images limit)[readCount (imageBlocks images limit).length] ∈
      (imageBlocks images limit).drop (readCount (imageBlocks images limit).length) := by
    rw [List.drop_eq_getElem_cons lost]
    exact .head _
  generalize (imageBlocks images limit)[readCount (imageBlocks images limit).length] = block
    at member
  have empty := List.flatMap_eq_nil_iff.mp nothing block member
  have listed := List.mem_of_mem_drop member
  have length := (imageMakePatch_inside made listed).length_newData
  rw [empty, List.length_nil] at length
  unfold imageBlocks at listed large
  split at listed
  · rename_i single
    rw [if_pos single] at large
    exact large (Nat.one_lt_two_pow (by decide))
  · rename_i several
    obtain ⟨nonzero, longer⟩ := not_or.mp several
    have positive := splitImage_positive (Nat.pos_of_ne_zero nonzero) (Nat.not_le.mp longer) listed
    omega

/-- If a raw block that is counted is too long for its field, the new image is not
written. -/
theorem imageRoundTrips_not_oversized {block : ImageBlock}
    (made : imageMakePatch blockPatch images limit = some patch)
    (trips : ImageRoundTrips limit images patch)
    (member : block ∈ (imageBlocks images limit).take
      (readCount (imageBlocks images limit).length))
    (raw : block.type = .raw) : block.newInfo.length < 2 ^ 32 := by
  by_contra oversized
  have listed := List.mem_of_mem_take member
  have several : ¬ (limit = 0 ∨ images.new.length ≤ limit) := by
    intro single
    rw [imageBlocks, if_pos single, List.mem_singleton] at listed
    rw [listed] at raw
    cases raw
  have split : imageBlocks images limit =
      splitImage limit images.old.length images.new.length := if_neg several
  have allRaw : ∀ other ∈ imageBlocks images limit, other.type = .raw := by
    intro other otherListed
    rw [split] at listed otherListed
    rw [splitImage_type listed] at raw
    rw [splitImage_type otherListed, raw]
  have madeWithout : imageMakePatch noPatch images limit = some patch := by
    rw [imageMakePatch_noPatch allRaw]
    exact made
  obtain ⟨applied, _⟩ := trips noPatch noCodec [] madeWithout fun other otherListed normal => by
    rw [allRaw other otherListed] at normal
    cases normal
  obtain ⟨owns, each, layout⟩ := imageMakePatch_layout madeWithout
  obtain ⟨headers, patches, size⟩ := layout_parts imageFormat_sized each layout
  have front := layout
  rw [List.append_assoc] at front
  obtain ⟨checked, counted⟩ := @layout_front ⟨images.old, patch⟩ _ _ front
  rw [applyImagePatch, if_pos checked, counted] at applied
  obtain ⟨nonzero, longer⟩ := not_or.mp several
  have growing : (imageBlocks images limit).Pairwise fun first second =>
      first.newInfo.length ≤ second.newInfo.length := by
    rw [split]
    exact splitImage_growing (blockCount_pos (Nat.pos_of_ne_zero nonzero) (Nat.not_le.mp longer))
  have shorter := applyChunks_oversized allRaw growing each (readCount_le _) headers
    (show patch.drop (dataStart (imageBlocks images limit)) = owns.flatten ++ [] by
      rw [patches, List.append_nil])
    (Nat.le_of_eq size.symm) ⟨block, member, Nat.not_lt.mp oversized⟩ applied
  have total := congrArg List.length (imageBlocks_tile images limit)
  rw [List.length_flatMap, List.map_congr_left fun other otherListed =>
    (imageMakePatch_inside made otherListed).length_newData] at total
  omega

/-- The round trip of a patch that was made holds just when the block count and the
raw lengths fit their fields. -/
theorem imageRoundTrips_iff (blockPatch : BlockPatch) (limit : Nat) (images : Images)
    (patch : Bytes) (made : imageMakePatch blockPatch images limit = some patch)
    (exact : BlocksExact blockPatch images limit) (oldSmall : images.old.length < 2 ^ 64)
    (patchSmall : patch.length < 2 ^ 63) :
    ImageRoundTrips limit images patch ↔
      ImageFits limit images.old.length images.new.length := by
  rw [imageFits_iff]
  constructor
  · intro trips
    have counted : ∀ block ∈ (imageBlocks images limit).take
        (readCount (imageBlocks images limit).length),
        block.type = .raw → block.newInfo.length < 2 ^ 32 :=
      fun block member raw => imageRoundTrips_not_oversized made trips member raw
    obtain ⟨applied, _⟩ := trips blockPatch noCodec [] made exact
    rw [applyImagePatch_counted made exact oldSmall patchSmall counted] at applied
    have small := imageBlocks_counted made (Option.some.inj applied)
    refine ⟨small, ?_⟩
    rw [readCount_of_lt small, List.take_length] at counted
    exact counted
  · rintro ⟨small, rawSmall⟩ blockPatch codec bonusData made exact
    refine ⟨?_, imageMakePatch_ownSections made patchSmall⟩
    rw [applyImagePatch_counted made exact oldSmall patchSmall
      fun block member => rawSmall block (List.mem_of_mem_take member),
      readCount_of_lt small, List.take_length, imageBlocks_tile]

/-- `banana` becomes `bananas!`, in blocks of four bytes at most. -/
def bananaImages : Images where
  new := [98, 97, 110, 97, 110, 97, 115, 33]
  old := [98, 97, 110, 97, 110, 97]

/-- Compressed streams of the sections of both block patches. -/
def bananaBlocksTable : List (Bytes × Bytes) :=
  [([3, 0, 0, 0, 0, 0, 0, 0, 1, 0, 0, 0, 0, 0, 0, 0, 2, 0, 0, 0, 0, 0, 0, 128],
    [66, 90, 104, 57, 49, 65, 89, 38, 83, 89, 14, 91, 195, 83, 0, 0, 7, 192, 64, 120, 0, 64, 0,
     32, 0, 33, 41, 154, 65, 154, 10, 175, 5, 38, 134, 241, 119, 36, 83, 133, 9, 0, 229, 188, 53,
     48]),
   ([0, 0, 0],
    [66, 90, 104, 57, 49, 65, 89, 38, 83, 89, 72, 155, 130, 255, 0, 0, 1, 64, 0, 64, 0, 32, 0, 48,
     140, 20, 24, 187, 146, 41, 194, 132, 130, 68, 220, 23, 248]),
   ([97],
    [66, 90, 104, 57, 49, 65, 89, 38, 83, 89, 25, 147, 155, 107, 0, 0, 0, 1, 0, 32, 0, 32, 0, 33,
     24, 70, 130, 238, 72, 167, 10, 18, 3, 50, 115, 109, 96]),
   ([0, 0, 0, 0, 0, 0, 0, 0, 4, 0, 0, 0, 0, 0, 0, 0, 2, 0, 0, 0, 0, 0, 0, 0],
    [66, 90, 104, 57, 49, 65, 89, 38, 83, 89, 13, 206, 198, 185, 0, 0, 1, 64, 0, 92, 0, 32, 0, 48,
     205, 52, 18, 158, 167, 163, 87, 2, 158, 225, 119, 36, 83, 133, 9, 0, 220, 236, 107, 144]),
   ([],
    [66, 90, 104, 57, 23, 114, 69, 56, 80, 144, 0, 0, 0, 0]),
   ([110, 97, 115, 33],
    [66, 90, 104, 57, 49, 65, 89, 38, 83, 89, 233, 95, 32, 172, 0, 0, 1, 17, 128, 32, 0, 32, 1, 8,
     0, 32, 0, 33, 154, 104, 51, 77, 23, 60, 93, 201, 20, 225, 66, 67, 165, 124, 130, 176])]

private theorem bananaImages_exact :
    BlocksExact (.ofBzip2 (.ofTable bananaBlocksTable)) bananaImages 4 := by
  intro block member _
  have blocks : imageBlocks bananaImages 4 = [
      { type := .normal, newInfo := ⟨0, 4⟩, oldInfo := ⟨0, 3⟩ },
      { type := .normal, newInfo := ⟨4, 4⟩, oldInfo := ⟨3, 3⟩ }] := by
    decide
  rw [blocks, List.mem_cons, List.mem_singleton] at member
  rcases member with rfl | rfl
  · apply BlockPatch.ofBzip2_exactAt _ (by decide) (by decide)
    intro sections found
    have made : makeSections [98, 97, 110, 97] [98, 97, 110] = some {
        control := [3, 0, 0, 0, 0, 0, 0, 0, 1, 0, 0, 0, 0, 0, 0, 0, 2, 0, 0, 0, 0, 0, 0, 128]
        diff := [0, 0, 0]
        extra := [97] } := by
      decide +kernel
    change makeSections [98, 97, 110, 97] [98, 97, 110] = some sections at found
    rw [made] at found
    cases found
    refine ⟨⟨by decide, ?_⟩, ⟨by decide, ?_⟩, fun rest => ⟨by decide, ?_⟩⟩
    · exact Bzip2.ofTable_yields bananaBlocksTable _
    · exact Bzip2.ofTable_yields bananaBlocksTable _
    · exact Bzip2.ofTable_yields bananaBlocksTable _
  · apply BlockPatch.ofBzip2_exactAt _ (by decide) (by decide)
    intro sections found
    have made : makeSections [110, 97, 115, 33] [97, 110, 97] = some {
        control := [0, 0, 0, 0, 0, 0, 0, 0, 4, 0, 0, 0, 0, 0, 0, 0, 2, 0, 0, 0, 0, 0, 0, 0]
        diff := []
        extra := [110, 97, 115, 33] } := by
      decide +kernel
    change makeSections [110, 97, 115, 33] [97, 110, 97] = some sections at found
    rw [made] at found
    cases found
    refine ⟨⟨by decide, ?_⟩, ⟨by decide, ?_⟩, fun rest => ⟨by decide, ?_⟩⟩
    · exact Bzip2.ofTable_yields bananaBlocksTable _
    · exact Bzip2.ofTable_yields bananaBlocksTable _
    · exact Bzip2.ofTable_yields bananaBlocksTable _

theorem imageRoundTrips_banana :
    ∃ patch, imageMakePatch (.ofBzip2 (.ofTable bananaBlocksTable)) bananaImages 4 = some patch ∧
      (ImageRoundTrips 4 bananaImages patch ↔
        ImageFits 4 bananaImages.old.length bananaImages.new.length) := by
  have good : (imageMakePatch (.ofBzip2 (.ofTable bananaBlocksTable)) bananaImages 4).any
      (fun patch => patch.length < 2 ^ 63) = true := by
    decide +kernel
  cases made : imageMakePatch (.ofBzip2 (.ofTable bananaBlocksTable)) bananaImages 4 with
  | none =>
      rw [made] at good
      cases good
  | some patch =>
      rw [made] at good
      exact ⟨patch, rfl, imageRoundTrips_iff _ 4 bananaImages patch made bananaImages_exact
        (by decide) (of_decide_eq_true good)⟩

/-- An exact block patch: the length of the new block and the block itself. -/
def storedPatch : BlockPatch where
  make new _ := if new.length < 2 ^ 63 then some (leBytes 8 new.length ++ new) else none
  apply _ file start := readRange file (start + 8) (leValue (slice file start 8))

theorem storedPatch_exactAt (new old : Bytes) : storedPatch.ExactAt new old := by
  intro patch made before after _
  have width : 256 ^ 8 = 2 ^ 64 := by norm_num
  simp only [storedPatch] at made
  split at made
  · rename_i small
    cases made
    have stands : (before ++ (leBytes 8 new.length ++ new) ++ after).drop before.length =
        leBytes 8 new.length ++ (new ++ after) := by
      rw [List.append_assoc, List.drop_left, List.append_assoc]
    have length := @readLE_field ⟨old, before ++ (leBytes 8 new.length ++ new) ++ after⟩ 8
      new.length before.length (new ++ after) (by omega) stands
    rw [readLE] at length
    have behind := drop_append_length stands
    rw [length_leBytes] at behind
    have room := congrArg List.length behind
    simp only [List.length_drop, List.length_append] at room
    simp only [storedPatch, length]
    rw [readRange, if_pos, slice, behind, List.take_left]
    simp only [List.length_append, length_leBytes]
    omega
  · cases made

theorem div_mul_add_le (length : Nat) {count index : Nat} (before : index < count) :
    length / count * index + length / count ≤ length := by
  calc length / count * index + length / count
      = length / count * (index + 1) := (Nat.mul_succ _ _).symm
    _ ≤ length / count * count := Nat.mul_le_mul_left _ before
    _ ≤ length := Nat.div_mul_le_self length count

/-- The ranges of all blocks lie in the images. -/
theorem imageBlocks_inside (images : Images) (limit : Nat) :
    ∀ block ∈ imageBlocks images limit, block.Inside images := by
  intro block member
  unfold imageBlocks at member
  split at member
  · rw [List.mem_singleton] at member
    rw [member]
    constructor
    · simp
    · simp
  · simp only [splitImage, List.mem_append, List.mem_map, List.mem_range, List.mem_singleton]
      at member
    rcases member with ⟨index, before, rfl⟩ | rfl
    · have counted : index < blockCount limit images.new.length := by omega
      constructor
      · exact div_mul_add_le images.new.length counted
      · intro _
        exact div_mul_add_le images.old.length counted
    · have newStart : images.new.length / blockCount limit images.new.length *
          (blockCount limit images.new.length - 1) ≤ images.new.length :=
        Nat.le_trans (Nat.mul_le_mul_left _ (Nat.sub_le _ 1)) (Nat.div_mul_le_self _ _)
      have oldStart : images.old.length / blockCount limit images.new.length *
          (blockCount limit images.new.length - 1) ≤ images.old.length :=
        Nat.le_trans (Nat.mul_le_mul_left _ (Nat.sub_le _ 1)) (Nat.div_mul_le_self _ _)
      constructor
      · simp only
        omega
      · intro _
        simp only
        omega

theorem writeHeaders_some {writeHeader : DiffFiles → ImageBlock → Option (DiffFiles × ImageBlock)}
    {blocks : List ImageBlock} (files : DiffFiles)
    (each : ∀ block ∈ blocks, ∀ files, ∃ written, writeHeader files block = some written) :
    ∃ written, writeHeaders writeHeader files blocks = some written := by
  induction blocks generalizing files with
  | nil => exact ⟨_, rfl⟩
  | cons block blocks ih =>
      obtain ⟨⟨middle, block'⟩, first⟩ := each block (.head _)
        { files with patchFile := files.patchFile ++ leBytes 4 block.type.code }
      obtain ⟨⟨last, rest⟩, later⟩ := ih middle fun other member => each other (.tail _ member)
      refine ⟨(last, block' :: rest), ?_⟩
      simp only [writeHeaders, first, later, Option.bind_eq_bind, Option.bind_some, Option.pure_def]

/-- If all block patches can be made, so can the image patch. -/
theorem imageMakePatch_some
    (makes : ∀ block ∈ imageBlocks images limit, block.type = .normal →
      ∃ own, blockPatch.make (newData images block) (oldData images block) = some own) :
    ∃ patch, imageMakePatch blockPatch images limit = some patch := by
  have each (usePatchFile : Bool) : ∀ block ∈ imageBlocks images limit, ∀ files,
      ∃ written, imageWriteHeader blockPatch images usePatchFile files block = some written := by
    intro block member files
    have inside := imageBlocks_inside images limit block member
    have newRead : readRange images.new block.newInfo.start block.newInfo.length =
        some (newData images block) := if_pos inside.new
    rcases imageBlocks_plain member with type | type
    · obtain ⟨own, made⟩ := makes block member type
      have oldRead : readRange images.old block.oldInfo.start block.oldInfo.length =
          some (oldData images block) := if_pos (inside.old (by simp [type]))
      simp only [imageWriteHeader, type, newRead, oldRead, makeBlockPatch, made,
        Option.bind_eq_bind, Option.bind_some]
      split
      · exact ⟨_, rfl⟩
      · exact ⟨_, rfl⟩
    · simp only [imageWriteHeader, type, newRead, Option.bind_eq_bind, Option.bind_some]
      exact ⟨_, rfl⟩
  obtain ⟨⟨files, blocks⟩, written⟩ := writeHeaders_some (startFiles (imageBlocks images limit))
    (each (needsPatchFile (imageBlocks images limit)))
  simp only [imageMakePatch, diffImage, written]
  exact ⟨_, rfl⟩

/-- One byte becomes 2^31 blocks of the smallest limit. -/
def hugeImages : Images where
  new := List.replicate (2 ^ 31 * imgdiffLimitUnit) 0
  old := [0]

/-- Its block count is read back as a negative number, and nothing is written. -/
theorem huge_image_lost :
    BlocksExact storedPatch hugeImages imgdiffLimitUnit ∧
      ∃ patch, imageMakePatch storedPatch hugeImages imgdiffLimitUnit = some patch ∧
        ¬ ImageRoundTrips imgdiffLimitUnit hugeImages patch := by
  have newLength : hugeImages.new.length = 2 ^ 31 * imgdiffLimitUnit := List.length_replicate
  have unit : imgdiffLimitUnit = 10240 := rfl
  have several : ¬ (imgdiffLimitUnit = 0 ∨ hugeImages.new.length ≤ imgdiffLimitUnit) := by
    rw [newLength, unit]
    omega
  have counted : blockCount imgdiffLimitUnit hugeImages.new.length = 2 ^ 31 := by
    rw [newLength, blockCount, Nat.mul_mod_left, if_pos rfl, Nat.mul_div_cancel _ (by rw [unit]; omega)]
  have blocks : (imageBlocks hugeImages imgdiffLimitUnit).length = 2 ^ 31 := by
    rw [imageBlocks, if_neg several, length_splitImage, counted]
    rw [counted]
    exact Nat.two_pow_pos 31
  have exact : BlocksExact storedPatch hugeImages imgdiffLimitUnit :=
    fun block _ _ => storedPatch_exactAt _ _
  obtain ⟨patch, made⟩ : ∃ patch,
      imageMakePatch storedPatch hugeImages imgdiffLimitUnit = some patch := by
    apply imageMakePatch_some
    intro block member _
    have inside := imageBlocks_inside hugeImages imgdiffLimitUnit block member
    have small : (newData hugeImages block).length < 2 ^ 63 := by
      rw [inside.length_newData]
      have room := inside.new
      rw [newLength, unit] at room
      omega
    exact ⟨_, if_pos small⟩
  refine ⟨exact, patch, made, fun trips => ?_⟩
  obtain ⟨applied, _⟩ := trips storedPatch noCodec [] made exact
  obtain ⟨owns, _, layout⟩ := imageMakePatch_layout made
  rw [List.append_assoc] at layout
  obtain ⟨checked, field⟩ := @layout_front ⟨hugeImages.old, patch⟩ _ _ layout
  have negative : (toInt32 (2 ^ 31 % 2 ^ 32)).toNat = 0 := by decide
  rw [applyImagePatch, if_pos checked, field, blocks] at applied
  simp only [negative, applyChunks] at applied
  have empty := congrArg List.length (Option.some.inj applied)
  rw [newLength, unit, List.length_nil] at empty
  omega

end Updater.DiffPatch
