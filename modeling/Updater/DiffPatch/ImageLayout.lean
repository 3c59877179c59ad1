import Updater.DiffPatch.ImageDiff
import Updater.DiffPatch.ImagePatch

/-! The layout of an image patch: what `DiffImage` writes for blocks whose headers
and block patches are known, and how the chunks are read back from it. -/

set_option autoImplicit false

namespace Updater.DiffPatch

open Updater.Base

/-- What a kind of image diff writes for a block: its header behind the type, given
where its block patch stands, and which data is its own block patch. -/
structure BlockFormat where
  record : ImageBlock → Nat → Bytes
  Own : ImageBlock → Bytes → Prop

/-- The headers of the blocks, each with the offset of its own patch. -/
def BlockFormat.records (format : BlockFormat) : Nat → List ImageBlock → List Bytes → Bytes
  | dataOffset, block :: blocks, own :: owns =>
      leBytes 4 block.type.code ++ format.record block dataOffset ++
        format.records (dataOffset + own.length) blocks owns
  | _, _, _ => []

/-- One call of `WriteHeader`: the header behind the ones before it, and the block's
own patch in the block or behind the patches before it. -/
structure BlockFormat.Writes (format : BlockFormat) (usePatchFile : Bool)
    (files : DiffFiles) (block : ImageBlock) (files' : DiffFiles) (block' : ImageBlock)
    (own : Bytes) : Prop where
  header : files'.patchFile = files.patchFile ++ format.record block files.dataOffset
  next : files'.dataOffset = files.dataOffset + own.length
  inFile : usePatchFile = true → files'.blockPatchFile = files.blockPatchFile ++ own
  inBlock : usePatchFile = false → block.type ≠ .raw → block'.patchData = own
  raw : block.type = .raw → own = []
  type : block'.type = block.type
  own : format.Own block own

variable {format : BlockFormat} {usePatchFile : Bool}
variable {writeHeader : DiffFiles → ImageBlock → Option (DiffFiles × ImageBlock)}

/-- Run lemma: all headers, with the data offsets running along, and all patches. -/
theorem writeHeaders_layout {files files' : DiffFiles} {blocks blocks' : List ImageBlock}
    (writes : ∀ block ∈ blocks, ∀ {files files' block'},
      writeHeader files block = some (files', block') →
        ∃ own, format.Writes usePatchFile files block files' block' own)
    (written : writeHeaders writeHeader files blocks = some (files', blocks')) :
    ∃ owns, List.Forall₂ format.Own blocks owns ∧
      files'.patchFile = files.patchFile ++ format.records files.dataOffset blocks owns ∧
      (usePatchFile = true → files'.blockPatchFile = files.blockPatchFile ++ owns.flatten) ∧
      (usePatchFile = false →
        (blocks'.filter fun block => block.type ≠ .raw).flatMap ImageBlock.patchData =
          owns.flatten) := by
  induction blocks generalizing files blocks' with
  | nil =>
      cases written
      refine ⟨[], .nil, ?_, ?_, fun _ => rfl⟩
      · simp [BlockFormat.records]
      · simp
  | cons block blocks ih =>
      simp only [writeHeaders, Option.bind_eq_bind] at written
      obtain ⟨⟨middle, block'⟩, first, written⟩ := Option.bind_eq_some_iff.mp written
      obtain ⟨⟨last, rest⟩, later, written⟩ := Option.bind_eq_some_iff.mp written
      cases written
      obtain ⟨own, header⟩ := writes block (.head _) first
      obtain ⟨owns, each, patchFile, inFile, inBlocks⟩ :=
        ih (fun other member => writes other (.tail _ member)) later
      refine ⟨own :: owns, .cons header.own each, ?_, ?_, ?_⟩
      · rw [patchFile, header.header, header.next]
        simp only [BlockFormat.records, List.append_assoc]
      · intro use
        rw [inFile use, header.inFile use, List.flatten_cons, List.append_assoc]
      · intro use
        rw [List.flatten_cons, ← inBlocks use]
        by_cases raw : block.type = .raw
        · simp [header.type, raw, header.raw raw]
        · simp [header.type, raw, header.inBlock use raw]

theorem copyBlockPatches_eq (bspatch : Bytes) : copyBlockPatches bspatch = bspatch := by
  induction bspatch using copyBlockPatches.induct with
  | case1 => rw [copyBlockPatches, dif_pos rfl]
  | case2 bspatch more ih => rw [copyBlockPatches, dif_neg more, ih, List.take_append_drop]

/-- Where the block patches start. -/
def dataStart (blocks : List ImageBlock) : Nat :=
  pkgdiffMagic.length + 4 + (blocks.map getHeaderSize).sum

/-- The whole file: magic, block count, headers, block patches. -/
theorem diffImage_layout {writeHeader : Bool → DiffFiles → ImageBlock → Option (DiffFiles × ImageBlock)}
    {blocks : List ImageBlock} {patch : Bytes}
    (writes : ∀ block ∈ blocks, ∀ {usePatchFile files files' block'},
      writeHeader usePatchFile files block = some (files', block') →
        ∃ own, format.Writes usePatchFile files block files' block' own)
    (made : diffImage writeHeader blocks = some patch) :
    ∃ owns, List.Forall₂ format.Own blocks owns ∧
      patch = pkgdiffMagic ++ leBytes 4 blocks.length ++
        format.records (dataStart blocks) blocks owns ++ owns.flatten := by
  simp only [diffImage, Option.bind_eq_bind] at made
  obtain ⟨⟨files, blocks'⟩, written, made⟩ := Option.bind_eq_some_iff.mp made
  cases made
  obtain ⟨owns, each, patchFile, inFile, inBlocks⟩ :=
    writeHeaders_layout (fun block member => writes block member) written
  refine ⟨owns, each, ?_⟩
  unfold writePatch
  split
  · rename_i use
    rw [copyBlockPatches_eq, patchFile, inFile use]
    rfl
  · rename_i use
    rw [patchFile, inBlocks (Bool.eq_false_iff.mpr use)]
    rfl

/-- The headers are as long as `GetHeaderSize` says. -/
def BlockFormat.Sized (format : BlockFormat) : Prop :=
  ∀ {block own}, format.Own block own → ∀ dataOffset,
    4 + (format.record block dataOffset).length = getHeaderSize block

theorem length_records {blocks : List ImageBlock} {owns : List Bytes} {dataOffset : Nat}
    (sized : format.Sized) (each : List.Forall₂ format.Own blocks owns) :
    (format.records dataOffset blocks owns).length = (blocks.map getHeaderSize).sum := by
  induction each generalizing dataOffset with
  | nil => rfl
  | @cons block own blocks owns ownPatch _ ih =>
      have first := sized ownPatch dataOffset
      have rest := @ih (dataOffset + own.length)
      simp only [BlockFormat.records, List.length_append, length_leBytes, rest, List.map_cons,
        List.sum_cons]
      omega

theorem drop_append_length {xs front rest : Bytes} {offset : Nat}
    (same : xs.drop offset = front ++ rest) : xs.drop (offset + front.length) = rest := by
  rw [← List.drop_drop, same, List.drop_left]

/-- A field is read back from where it was written. -/
theorem readLE_field {param : PatchParam} {width value offset : Nat} {rest : Bytes}
    (fits : value < 256 ^ width) (same : param.patch.drop offset = leBytes width value ++ rest) :
    readLE param width offset = value := by
  have taken : (leBytes width value ++ rest).take width = leBytes width value :=
    List.take_left' (length_leBytes width value)
  rw [readLE, slice, same, taken, leValue_leBytes_of_lt fits]

theorem lt_length_of_drop {xs front rest : Bytes} {offset : Nat}
    (same : xs.drop offset = front ++ rest) (nonempty : 0 < front.length) :
    offset + front.length ≤ xs.length := by
  have lengths := congrArg List.length same
  simp only [List.length_drop, List.length_append] at lengths
  omega

variable {blockPatch : BlockPatch} {codec : Codec} {param : PatchParam} {bonusData : Bytes}

/-- A chunk whose header and block patch stand in the patch gives `result`; if it is
applied, the next chunk follows its header. -/
def BlockFormat.Reads (format : BlockFormat) (blockPatch : BlockPatch) (codec : Codec)
    (param : PatchParam) (bonusData : Bytes) (block : ImageBlock) (result : Option Bytes) : Prop :=
  ∀ ⦃own tail more : Bytes⦄ ⦃i offset dataOffset : Nat⦄, format.Own block own →
    param.patch.drop offset = format.record block dataOffset ++ tail →
    param.patch.drop dataOffset = own ++ more → dataOffset + own.length ≤ param.patch.length →
    applyChunk blockPatch codec param bonusData block.type.code i offset =
      result.map fun data => (data, offset + (format.record block dataOffset).length)

/-- Step lemma: a chunk that is read moves on to the headers and patches of the rest. -/
theorem applyChunks_step {block : ImageBlock} {own tail more : Bytes} {result : Option Bytes}
    {blocks : List ImageBlock} {owns : List Bytes} {count i offset dataOffset : Nat}
    (reads : format.Reads blockPatch codec param bonusData block result)
    (ownPatch : format.Own block own)
    (headers : param.patch.drop offset =
      format.records dataOffset (block :: blocks) (own :: owns) ++ tail)
    (patches : param.patch.drop dataOffset = (own :: owns).flatten ++ more)
    (inside : dataOffset + (own :: owns).flatten.length ≤ param.patch.length) :
    ∃ next, applyChunks blockPatch codec param bonusData (count + 1) i offset =
        (result.bind fun data =>
          (applyChunks blockPatch codec param bonusData count (i + 1) next).map (data ++ ·)) ∧
      param.patch.drop next = format.records (dataOffset + own.length) blocks owns ++ tail ∧
      param.patch.drop (dataOffset + own.length) = owns.flatten ++ more ∧
      dataOffset + own.length + owns.flatten.length ≤ param.patch.length := by
  simp only [BlockFormat.records, List.append_assoc] at headers
  simp only [List.flatten_cons, List.append_assoc, List.length_append] at patches inside
  have typeInside := lt_length_of_drop headers (by simp)
  have typeSmall : block.type.code < 256 ^ 4 := Nat.lt_trans block.type.code_lt (by decide)
  have typeRead := readLE_field typeSmall headers
  have behind := drop_append_length headers
  rw [length_leBytes] at typeInside behind
  have chunk := reads (i := i) ownPatch behind patches (by omega)
  refine ⟨_, ?_, drop_append_length behind, drop_append_length patches, by omega⟩
  rw [applyChunks, if_neg (by omega), typeRead]
  simp only [chunk, Option.bind_eq_bind]
  cases result with
  | none => rfl
  | some data =>
      simp only [Option.map_some, Option.bind_some]
      cases applyChunks blockPatch codec param bonusData count (i + 1)
        (offset + 4 + (format.record block dataOffset).length) <;> rfl

/-- What the chunks of some blocks give one after another. -/
def joinResults (blockResult : ImageBlock → Option Bytes) : List ImageBlock → Option Bytes
  | [] => some []
  | block :: blocks =>
      (blockResult block).bind fun data => (joinResults blockResult blocks).map (data ++ ·)

@[simp] theorem joinResults_some (blockData : ImageBlock → Bytes) (blocks : List ImageBlock) :
    joinResults (fun block => some (blockData block)) blocks = some (blocks.flatMap blockData) := by
  induction blocks with
  | nil => rfl
  | cons block blocks ih => simp [joinResults, ih]

/-- Run lemma: as many chunks as are asked for give the results of their blocks. -/
theorem applyChunks_layout {blockResult : ImageBlock → Option Bytes} {blocks : List ImageBlock}
    {owns : List Bytes} {count i offset dataOffset : Nat} {tail more : Bytes}
    (reads : ∀ block ∈ blocks.take count,
      format.Reads blockPatch codec param bonusData block (blockResult block))
    (each : List.Forall₂ format.Own blocks owns) (enough : count ≤ blocks.length)
    (headers : param.patch.drop offset = format.records dataOffset blocks owns ++ tail)
    (patches : param.patch.drop dataOffset = owns.flatten ++ more)
    (inside : dataOffset + owns.flatten.length ≤ param.patch.length) :
    applyChunks blockPatch codec param bonusData count i offset =
      joinResults blockResult (blocks.take count) := by
  induction each generalizing count i offset dataOffset with
  | nil =>
      have none : count = 0 := Nat.le_zero.mp enough
      subst none
      rfl
  | @cons block own blocks owns ownPatch _ ih =>
      cases count with
      | zero => rfl
      | succ count =>
          obtain ⟨next, step, headers, patches, inside⟩ :=
            applyChunks_step (reads block (.head _)) ownPatch headers patches inside
          rw [step, ih (fun other member => reads other (.tail _ member))
            (Nat.le_of_succ_le_succ enough) headers patches inside]
          rfl

/-- Where the header of a block starts, its type counted in. -/
def headerStart (blocks : List ImageBlock) (index : Nat) : Nat :=
  pkgdiffMagic.length + 4 + ((blocks.take index).map getHeaderSize).sum

/-- The header of each block stands where the sizes before it lead, and the offset in
it is that of its own patch. -/
theorem records_getElem {patch : Bytes} {blocks : List ImageBlock} {owns : List Bytes}
    {offset dataOffset index : Nat} {block : ImageBlock} {tail more : Bytes}
    (sized : format.Sized) (each : List.Forall₂ format.Own blocks owns)
    (headers : patch.drop offset = format.records dataOffset blocks owns ++ tail)
    (patches : patch.drop dataOffset = owns.flatten ++ more)
    (inside : dataOffset + owns.flatten.length ≤ patch.length)
    (found : blocks[index]? = some block) :
    ∃ own ownOffset tail' more', format.Own block own ∧
      patch.drop (offset + ((blocks.take index).map getHeaderSize).sum) =
        leBytes 4 block.type.code ++ format.record block ownOffset ++ tail' ∧
      patch.drop ownOffset = own ++ more' ∧ ownOffset + own.length ≤ patch.length := by
  induction each generalizing index offset dataOffset with
  | nil => cases found
  | @cons first own blocks owns ownPatch _ ih =>
      simp only [BlockFormat.records, List.append_assoc] at headers
      simp only [List.flatten_cons, List.append_assoc, List.length_append] at patches inside
      cases index with
      | zero =>
          cases found
          refine ⟨own, dataOffset,
            format.records (dataOffset + own.length) blocks owns ++ tail, owns.flatten ++ more,
            ownPatch, ?_, patches, by omega⟩
          rw [List.append_assoc]
          exact headers
      | succ index =>
          have behind := drop_append_length (drop_append_length headers)
          have size := sized ownPatch dataOffset
          rw [length_leBytes, Nat.add_assoc, size] at behind
          obtain ⟨own', ownOffset, tail', more', ownPatch', header, stands, fits⟩ :=
            ih behind (drop_append_length patches) (by omega) found
          refine ⟨own', ownOffset, tail', more', ownPatch', ?_, stands, fits⟩
          rw [List.take_succ_cons, List.map_cons, List.sum_cons, ← Nat.add_assoc]
          exact header

/-- How many chunks are read back of `count`: the field has 32 bits and a sign. -/
def readCount (count : Nat) : Nat :=
  (toInt32 (count % 2 ^ 32)).toNat

theorem readCount_of_lt {count : Nat} (small : count < 2 ^ 31) : readCount count = count := by
  unfold readCount toInt32
  rw [Int.bmod]
  split <;> omega

theorem readCount_lt {count : Nat} (large : 2 ^ 31 ≤ count) : readCount count < count := by
  unfold readCount toInt32
  rw [Int.bmod]
  split <;> omega

theorem readCount_le (count : Nat) : readCount count ≤ count := by
  rcases Nat.lt_or_ge count (2 ^ 31) with small | large
  · exact Nat.le_of_eq (readCount_of_lt small)
  · exact Nat.le_of_lt (readCount_lt large)

theorem layout_front {blocks : List ImageBlock} {rest : Bytes}
    (layout : param.patch = pkgdiffMagic ++ leBytes 4 blocks.length ++ rest) :
    preCheck param = true ∧ readLE param 4 pkgdiffMagic.length = blocks.length % 2 ^ 32 := by
  have magic : pkgdiffMagic.length = 8 := rfl
  constructor
  · have front : param.patch.take 8 = pkgdiffMagic := by
      rw [layout, List.append_assoc]
      exact List.take_left' magic
    have size := congrArg List.length layout
    simp only [List.length_append, length_leBytes, magic] at size
    simp only [preCheck, magic, front, decide_eq_true_eq, and_true]
    omega
  · have behindMagic : param.patch.drop 8 = leBytes 4 blocks.length ++ rest := by
      rw [layout, List.append_assoc]
      exact List.drop_left' magic
    have taken : (leBytes 4 blocks.length ++ rest).take 4 = leBytes 4 blocks.length :=
      List.take_left' (length_leBytes 4 _)
    rw [readLE, slice, magic, behindMagic, taken, leValue_leBytes]
    congr 1

/-- The two parts of a patch of this layout. -/
theorem layout_parts {patch : Bytes} {blocks : List ImageBlock} {owns : List Bytes}
    (sized : format.Sized) (each : List.Forall₂ format.Own blocks owns)
    (layout : patch = pkgdiffMagic ++ leBytes 4 blocks.length ++
      format.records (dataStart blocks) blocks owns ++ owns.flatten) :
    patch.drop (pkgdiffMagic.length + 4) =
        format.records (dataStart blocks) blocks owns ++ owns.flatten ∧
      patch.drop (dataStart blocks) = owns.flatten ∧
      patch.length = dataStart blocks + owns.flatten.length := by
  have front : (pkgdiffMagic ++ leBytes 4 blocks.length).length = pkgdiffMagic.length + 4 := by
    rw [List.length_append, length_leBytes]
  have headers : patch.drop (pkgdiffMagic.length + 4) =
      format.records (dataStart blocks) blocks owns ++ owns.flatten := by
    rw [layout, List.append_assoc]
    exact List.drop_left' front
  have patches := drop_append_length headers
  rw [length_records sized each] at patches
  refine ⟨headers, patches, ?_⟩
  rw [layout, List.length_append, List.length_append, front, length_records sized each]
  rfl

/-- Applying a patch of this layout gives the results of the blocks it counts. -/
theorem applyImagePatch_layout {blockResult : ImageBlock → Option Bytes}
    {blocks : List ImageBlock} {owns : List Bytes} (sized : format.Sized)
    (reads : ∀ block ∈ blocks.take (readCount blocks.length),
      format.Reads blockPatch codec param bonusData block (blockResult block))
    (each : List.Forall₂ format.Own blocks owns)
    (layout : param.patch = pkgdiffMagic ++ leBytes 4 blocks.length ++
      format.records (dataStart blocks) blocks owns ++ owns.flatten) :
    applyImagePatch blockPatch codec param bonusData =
      joinResults blockResult (blocks.take (readCount blocks.length)) := by
  obtain ⟨headers, patches, size⟩ := layout_parts sized each layout
  have front := layout
  rw [List.append_assoc] at front
  obtain ⟨checked, counted⟩ := layout_front front
  rw [applyImagePatch, if_pos checked, counted]
  exact applyChunks_layout reads each (readCount_le blocks.length) headers
    (show param.patch.drop (dataStart blocks) = owns.flatten ++ [] by rw [patches, List.append_nil])
    (Nat.le_of_eq size.symm)

end Updater.DiffPatch
