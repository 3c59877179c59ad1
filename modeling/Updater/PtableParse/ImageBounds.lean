import Updater.PtableParse.EmmcPtable

/-! What `ParsePartitionFromBuffer` reads of the image and uses of the data of a lun, and which
images keep all of it inside. -/

set_option autoImplicit false

namespace Updater.PtableParse

open Updater.Base

/-- All of them lie in a buffer of so many bytes. -/
def AllInside (accesses : List Access) (size : Nat) : Prop :=
  ∀ access ∈ accesses, access.end_ ≤ size

section AllInside

variable {accesses others : List Access} {access : Access} {start length size : Nat}

@[simp] theorem allInside_nil : AllInside [] size :=
  fun _ made => nomatch made

@[simp] theorem allInside_cons :
    AllInside (access :: accesses) size ↔ access.end_ ≤ size ∧ AllInside accesses size :=
  List.forall_mem_cons

@[simp] theorem allInside_append :
    AllInside (accesses ++ others) size ↔ AllInside accesses size ∧ AllInside others size :=
  List.forall_mem_append

@[simp] theorem end_mk : (Access.mk start length).end_ = start + length := rfl

end AllInside

/-- The types of entries that `CheckProtectiveMbr` reads, up to the one it looks for. -/
def mbrTypeReads (memory : Memory) (start imgLen : Nat) : Nat → Nat → List Access
  | 0, _ => []
  | left + 1, i =>
      let type := 0x1BE + i * 0x10 + 4
      if imgLen ≤ type then []
      else
        { start := start + type, length := 1 } ::
          if memory (start + type) = 0xEE then []
          else mbrTypeReads memory start imgLen left (i + 1)

/-- What `CheckProtectiveMbr` reads of a block at an address. -/
def protectiveMbrReads (memory : Memory) (start imgLen : Nat) : List Access :=
  if imgLen < mbrMagicNumPos + 1 then []
  else
    { start := start + mbrMagicNumPos, length := 1 } ::
      if memory (start + mbrMagicNumPos) ≠ 0x55 then []
      else
        { start := start + mbrMagicNumPos + 1, length := 1 } ::
          if memory (start + mbrMagicNumPos + 1) ≠ 0xAA then []
          else mbrTypeReads memory start imgLen 4 0

/-- What `CheckIfValidGpt` reads. -/
def validGptReads (start gptImageLen : Nat) : List Access :=
  if gptImageLen < 8 then [] else [{ start := start, length := 8 }]

/-- What `memcpy_s` reads, which is nothing where the room is too small. -/
def copyReads (start destMax count : Nat) : List Access :=
  if count ≤ destMax then [{ start := start, length := count }] else []

/-- What `memcpy_s` writes: the zeros where the room is too small. -/
def copyWrites (dest destMax count : Nat) : List Access :=
  [{ start := dest, length := if count ≤ destMax then count else destMax }]

/-- What `GetPartitionGptHeaderInfo` reads of a header at an address. -/
def gptHeaderInfoReads (gptImage : Memory) (start bufferLen : Nat) : List Access :=
  if bufferLen < lbaLength then []
  else
    validGptReads start bufferLen ++
      if checkIfValidGpt (gptImage.behind start) bufferLen = false then []
      else
        [{ start := start + headerSizeOffset, length := 4 },
          { start := start + firstUsableLbaOffset, length := 8 },
          { start := start + partitionCountOffset, length := 4 },
          { start := start + pentrySizeOffset, length := 4 }]

namespace UfsPtable

variable (ptable : UfsPtable) (ptbImgBuffer : Memory) (imgBufSize : Nat)

/-- The check of the first block passes. -/
def Protective (i : Nat) : Prop :=
  checkProtectiveMbr (ptbImgBuffer.behind (ptable.getPtableImageUfsLunPmbrStart i))
    ptable.ptableData.lbaLen = true

/-- The checks of the first two blocks pass. -/
def HasTable (i : Nat) : Prop :=
  ptable.Protective ptbImgBuffer i ∧
    checkIfValidGpt (ptbImgBuffer.behind (ptable.getPtableImageUfsLunGptHeaderStart i))
      ptable.ptableData.lbaLen = true

instance (i : Nat) : Decidable (ptable.Protective ptbImgBuffer i) :=
  inferInstanceAs (Decidable (_ = true))

instance (i : Nat) : Decidable (ptable.HasTable ptbImgBuffer i) :=
  inferInstanceAs (Decidable (_ ∧ _))

/-- What a turn of the loop reads of the image. -/
def imageReads (i : Nat) : List Access :=
  let imgBlockSize := ptable.ptableData.lbaLen
  let deviceBlockSize := ptable.ptableData.blockSize
  let lunStart := ptable.getPtableImageUfsLunPmbrStart i
  let gptHeaderStart := ptable.getPtableImageUfsLunGptHeaderStart i
  protectiveMbrReads ptbImgBuffer lunStart imgBlockSize ++
    (if ptable.Protective ptbImgBuffer i then validGptReads gptHeaderStart imgBlockSize else []) ++
    if ptable.HasTable ptbImgBuffer i then
      copyReads lunStart tmpDataSize imgBlockSize ++
        copyReads gptHeaderStart (tmpDataSize - deviceBlockSize) imgBlockSize ++
        copyReads (ptable.getPtableImageUfsLunEntryStart i) (tmpDataSize - 2 * deviceBlockSize)
          gptEntrysSize
    else []

/-- What `UfsPatchGptHeader` uses of the data. -/
def ufsPatchGptHeaderAccesses (info : UfsPartitionDataInfo) (blockSize : Nat) : List Access :=
  if blockSize = 0 ∨ info.writeDataLen < 2 * blockSize ∨ info.lunSize = 0 ∨
      ptable.ptableData.blockSize = 0 then []
  else
    let sectors := info.lunSize / ptable.ptableData.blockSize
    let cardSizeSector := if sectors = 0 then defaultSectorNum else sectors
    let lastUsable := ptable.lastUsableSector cardSizeSector
    let data := putLongLong info.data (blockSize + backupHeaderOffset) (sub64 cardSizeSector 1)
    let data := putLongLong data (blockSize + lastUsableLbaOffset) lastUsable
    let entries := (tmpDataSize - 2 * blockSize + partitionEntrySize - 1) / partitionEntrySize
    let total := totalPart data (2 * blockSize) entries 0
    { start := blockSize + backupHeaderOffset, length := 8 } ::
      { start := blockSize + lastUsableLbaOffset, length := 8 } ::
      (List.range (min (total + 1) entries)).map
        (fun k => { start := 2 * blockSize + k * partitionEntrySize, length := 1 }) ++
      if total = 0 then []
      else
        let lastPartOffset := 2 * blockSize + (total - 1) * partitionEntrySize
        let data := ptable.patchLastPartition data lastPartOffset total lastUsable
        let partCount := getLword data (blockSize + partitionCountOffset)
        let entrySize := getLword data (blockSize + pentrySizeOffset)
        [{ start := lastPartOffset + firstLbaOffset, length := 16 },
          { start := lastPartOffset + gptPartitionNameOffset, length := maxGptNameSize },
          { start := blockSize + partitionCountOffset, length := 8 },
          { start := 2 * blockSize, length := partCount * entrySize % 2 ^ 32 },
          { start := blockSize + partitionCrcOffset, length := 4 },
          { start := blockSize, length := gptCrcLen }]

/-- What `SetLunPtnDataInfoNeedWrite` reads of the data, in `MatchSuffix`. -/
def needWriteReads (lunIndex : Nat) : List Access :=
  if ptable.isVabDevice = false ∨ lunIndex < 2 ∨
      (ptable.updateSlot ≠ slotA ∧ ptable.updateSlot ≠ slotB) ∨
      ptable.curSlot = ptable.updateSlot then []
  else
    [{ start := 2 * ptable.ptableData.blockSize + gptPartitionNameOffset,
       length := maxGptNameSize }]

/-- What `PartitionCheckGptHeader` reads, with the checksum of the entries. -/
def partitionCheckGptHeaderReads (gptImage : Memory) (len lbaNum lunNum blockSize : Nat)
    (gptHeaderInfo : GptHeaderInfo) : List Access :=
  if len < ptable.ptableData.writeDeviceLunSize ∨ lbaNum = 0 ∨ ptableMaxLunNumbers < lunNum ∨
      len < 2 * blockSize then []
  else
    let buffer := gptImage.behind blockSize
    { start := blockSize, length := blockSize } ::
      if checkGptHeader buffer blockSize lbaNum gptHeaderInfo = false then []
      else
        let offset := getLlword buffer partitionEntriesOffset % 2 ^ 32 * blockSize % 2 ^ 32
        let crcLen := gptHeaderInfo.maxPartitionCount * gptHeaderInfo.partitionEntrySize % 2 ^ 32
        if offset ≠ defaultEntryOffset * ptable.ptableData.blockSize ∨
            len < (offset + crcLen) % 2 ^ 32 then []
        else [{ start := offset, length := crcLen }]

/-- What `UfsReadGptEntry` reads. -/
def entryReads (gptImage : Memory) (blockSize : Nat) : Nat → Nat → List Access
  | 0, _ => []
  | left + 1, k =>
      let offset := entryOffset blockSize k
      { start := offset, length := 16 } ::
        if gptImage offset = 0 ∧ gptImage (offset + 1) = 0 then []
        else
          { start := offset + firstLbaOffset, length := 16 } ::
            { start := offset + gptPartitionNameOffset, length := maxGptNameSize } ::
            entryReads gptImage blockSize left (k + 1)

/-- What `UfsReadGpt` reads. -/
def ufsReadGptReads (gptImage : Memory) (len lun blockSize : Nat) : List Access :=
  if len < ptable.ptableData.writeDeviceLunSize ∨ maxLunNumbers ≤ lun ∨ blockSize = 0 ∨
      len < 2 * blockSize then []
  else
    gptHeaderInfoReads gptImage blockSize blockSize ++
      (match getPartitionGptHeaderInfo (gptImage.behind blockSize) blockSize with
        | none => []
        | some gptHeaderInfo =>
            if ptable.ptableData.blockSize = 0 then []
            else
              ptable.partitionCheckGptHeaderReads gptImage len
                (ptable.capacity lun / ptable.ptableData.blockSize % 2 ^ 32) lun blockSize
                gptHeaderInfo) ++
      if ptable.parseGptHeaderByUfsLun gptImage len lun blockSize = false then []
      else
        let partEntryCnt := blockSize / partitionEntrySize
        entryReads gptImage blockSize (maxPartitionNum / partEntryCnt * partEntryCnt) 0

/-- The data of a lun with the blocks and the entries copied from the image. -/
def copiedData (data : Memory) (i : Nat) : Memory :=
  let imgBlockSize := ptable.ptableData.lbaLen
  let deviceBlockSize := ptable.ptableData.blockSize
  let data := copyInto (clearedData data) 0 tmpDataSize
    (ptbImgBuffer.read (ptable.getPtableImageUfsLunPmbrStart i) imgBlockSize)
  let data := copyInto data deviceBlockSize (tmpDataSize - deviceBlockSize)
    (ptbImgBuffer.read (ptable.getPtableImageUfsLunGptHeaderStart i) imgBlockSize)
  copyInto data (2 * deviceBlockSize) (tmpDataSize - 2 * deviceBlockSize)
    (ptbImgBuffer.read (ptable.getPtableImageUfsLunEntryStart i) gptEntrysSize)

/-- `startLunNumber` added. -/
def deviceLun (i : Nat) : Nat :=
  (i + ptable.ptableData.startLunNumber) % 2 ^ 32

/-- The information that `UfsPatchGptHeader` is given. -/
def copiedInfo (stale : UfsPartitionDataInfo) (i : Nat) : UfsPartitionDataInfo :=
  { stale with
    data := ptable.copiedData ptbImgBuffer stale.data i
    writeDataLen := ptable.ptableData.writeDeviceLunSize
    lunIndex := ptable.deviceLun i
    lunSize := ptable.capacity (ptable.deviceLun i) }

section CopiedInfo

variable (stale : UfsPartitionDataInfo) (i : Nat)

@[simp] theorem copiedInfo_data : (ptable.copiedInfo ptbImgBuffer stale i).data =
    ptable.copiedData ptbImgBuffer stale.data i := by rw [copiedInfo]

@[simp] theorem copiedInfo_writeDataLen : (ptable.copiedInfo ptbImgBuffer stale i).writeDataLen =
    ptable.ptableData.writeDeviceLunSize := rfl

@[simp] theorem copiedInfo_lunSize : (ptable.copiedInfo ptbImgBuffer stale i).lunSize =
    ptable.capacity (ptable.deviceLun i) := rfl

end CopiedInfo

/-- The information that `AddUfsPtnDataInfo` adds, unless it throws. -/
def addedInfo (stale : UfsPartitionDataInfo) (i : Nat) : Option UfsPartitionDataInfo :=
  ptable.addUfsPtnDataInfo
    { stale with data := ptable.copiedData ptbImgBuffer stale.data i } ptable.ptableData.blockSize i

/-- What a turn of the loop uses of the data of its lun. -/
def dataAccesses (stale : UfsPartitionDataInfo) (i : Nat) : List Access :=
  let imgBlockSize := ptable.ptableData.lbaLen
  let deviceBlockSize := ptable.ptableData.blockSize
  { start := 0, length := tmpDataSize } ::
    if ptable.HasTable ptbImgBuffer i then
      copyWrites 0 tmpDataSize imgBlockSize ++
        copyWrites deviceBlockSize (tmpDataSize - deviceBlockSize) imgBlockSize ++
        copyWrites (2 * deviceBlockSize) (tmpDataSize - 2 * deviceBlockSize) gptEntrysSize ++
        ptable.ufsPatchGptHeaderAccesses (ptable.copiedInfo ptbImgBuffer stale i) deviceBlockSize ++
        ptable.needWriteReads (ptable.deviceLun i) ++
        match ptable.addedInfo ptbImgBuffer stale i with
        | none => []
        | some info =>
            ptable.ufsReadGptReads info.data info.writeDataLen info.lunIndex deviceBlockSize
    else []

/-- The luns that the loop comes to. -/
def lunsVisited (stale : Nat → UfsPartitionDataInfo) : List Nat → Tables → List Nat
  | [], _ => []
  | i :: luns, tables =>
      i ::
        match ptable.parseLun ptbImgBuffer (stale i) i tables with
        | none => []
        | some (_, false) => []
        | some (tables, true) => lunsVisited stale luns tables

/-- A size of blocks that the parser works with. -/
def KnownBlocks : Prop :=
  ptable.ptableData.blockSize = imgBlockSize512 ∨
    ptable.ptableData.blockSize = deviceBlockSize4096

instance : Decidable ptable.KnownBlocks :=
  inferInstanceAs (Decidable (_ ∨ _))

/-- The size check, and the one of the block size, pass. -/
def Accepts : Prop :=
  (ptable.ptableData.emmcGptDataLen + ptable.ptableData.imgLuSize +
      getPtableExtraOffset) % 2 ^ 32 ≤ imgBufSize ∧ ptable.KnownBlocks

instance : Decidable (ptable.Accepts imgBufSize) :=
  inferInstanceAs (Decidable (_ ∧ _))

/-- The luns that `ParsePartitionFromBuffer` comes to. -/
def lunsParsed (stale : Nat → UfsPartitionDataInfo) (tables : Tables) : List Nat :=
  if ptable.Accepts imgBufSize then
    ptable.lunsVisited ptbImgBuffer stale (List.range ptable.deviceLunNum)
      { tables with ufsPtnDataInfo := [] }
  else []

theorem parsePartitionFromBuffer_eq (stale : Nat → UfsPartitionDataInfo) (tables : Tables) :
    ptable.parsePartitionFromBuffer ptbImgBuffer imgBufSize stale tables =
      if ptable.Accepts imgBufSize then
        ptable.parseLuns ptbImgBuffer stale (List.range ptable.deviceLunNum)
          { tables with ufsPtnDataInfo := [] }
      else some (tables, false) := by
  rw [parsePartitionFromBuffer]
  by_cases size : imgBufSize < (ptable.ptableData.emmcGptDataLen + ptable.ptableData.imgLuSize +
      getPtableExtraOffset) % 2 ^ 32
  · rw [if_pos size, if_neg fun held => Nat.not_lt.mpr held.1 size]
  · by_cases blocks : ptable.ptableData.blockSize ≠ imgBlockSize512 ∧
        ptable.ptableData.blockSize ≠ deviceBlockSize4096
    · rw [if_neg size, if_pos blocks, if_neg fun held => held.2.elim blocks.1 blocks.2]
    · rw [if_neg size, if_neg blocks, if_pos ⟨Nat.le_of_not_lt size, by
        rwa [ne_eq, ne_eq, not_and_or, not_not, not_not] at blocks⟩]

/-- The loop goes on behind a lun: there is no table in its part of the image, or one that can be
read. -/
def GoesOn (stale : UfsPartitionDataInfo) (i : Nat) : Prop :=
  ptable.HasTable ptbImgBuffer i → ∃ info, ptable.addedInfo ptbImgBuffer stale i = some info ∧
    ptable.ufsReadGpt info.data info.writeDataLen info.lunIndex ptable.ptableData.blockSize [] ≠ none

/-- What a turn of the loop reads of the image lies in it. The entries are read with a fixed length,
and all places are sums in 32 bits. -/
structure ImageFits (i : Nat) : Prop where
  mbr : mbrMagicNumPos + 1 ≤ ptable.ptableData.lbaLen →
    ptable.getPtableImageUfsLunPmbrStart i + mbrMagicNumPos + 1 ≤ imgBufSize
  magic : mbrMagicNumPos + 1 ≤ ptable.ptableData.lbaLen →
    ptbImgBuffer (ptable.getPtableImageUfsLunPmbrStart i + mbrMagicNumPos) = 0x55 →
    ptable.getPtableImageUfsLunPmbrStart i + mbrMagicNumPos + 2 ≤ imgBufSize
  signature : ptable.Protective ptbImgBuffer i →
    ptable.getPtableImageUfsLunGptHeaderStart i + 8 ≤ imgBufSize
  firstBlock : ptable.HasTable ptbImgBuffer i → ptable.ptableData.lbaLen ≤ tmpDataSize →
    ptable.getPtableImageUfsLunPmbrStart i + ptable.ptableData.lbaLen ≤ imgBufSize
  header : ptable.HasTable ptbImgBuffer i →
    ptable.ptableData.lbaLen ≤ tmpDataSize - ptable.ptableData.blockSize →
    ptable.getPtableImageUfsLunGptHeaderStart i + ptable.ptableData.lbaLen ≤ imgBufSize
  entries : ptable.HasTable ptbImgBuffer i →
    ptable.getPtableImageUfsLunEntryStart i + gptEntrysSize ≤ imgBufSize

/-- The entries that the header of a lun promises lie in its data, unless no checksum of them is
taken. -/
def CrcFits (i : Nat) : Prop :=
  ptable.HasTable ptbImgBuffer i →
    ptable.ptableData.lbaLen ≤ tmpDataSize - ptable.ptableData.blockSize →
    2 * ptable.ptableData.blockSize ≤ ptable.ptableData.writeDeviceLunSize →
    ptable.capacity (ptable.deviceLun i) ≠ 0 →
    ptbImgBuffer (ptable.getPtableImageUfsLunEntryStart i) ≠ 0 →
    2 * ptable.ptableData.blockSize +
      getLword ptbImgBuffer (ptable.getPtableImageUfsLunGptHeaderStart i + partitionCountOffset) *
        getLword ptbImgBuffer (ptable.getPtableImageUfsLunGptHeaderStart i + pentrySizeOffset) %
        2 ^ 32 ≤ tmpDataSize

end UfsPtable

section Image

variable {memory : Memory} {start imgLen size : Nat}

theorem mbrTypeReads_inside (room : start + mbrMagicNumPos ≤ size) (left i : Nat)
    (few : i + left ≤ 4) : AllInside (mbrTypeReads memory start imgLen left i) size := by
  induction left generalizing i with
  | zero => exact allInside_nil
  | succ left hypothesis =>
      rw [mbrTypeReads]
      split
      · exact allInside_nil
      · rw [mbrMagicNumPos] at room
        refine allInside_cons.mpr ⟨by rw [end_mk]; omega, ?_⟩
        split
        · exact allInside_nil
        · exact hypothesis (i + 1) (by omega)

theorem protectiveMbrReads_inside_iff :
    AllInside (protectiveMbrReads memory start imgLen) size ↔
      (mbrMagicNumPos + 1 ≤ imgLen → start + mbrMagicNumPos + 1 ≤ size) ∧
      (mbrMagicNumPos + 1 ≤ imgLen → memory (start + mbrMagicNumPos) = 0x55 →
        start + mbrMagicNumPos + 2 ≤ size) := by
  rw [protectiveMbrReads]
  by_cases short : imgLen < mbrMagicNumPos + 1
  · rw [if_pos short]
    exact ⟨fun _ => ⟨fun long => absurd long (Nat.not_le.mpr short),
      fun long => absurd long (Nat.not_le.mpr short)⟩, fun _ => allInside_nil⟩
  · rw [if_neg short, allInside_cons, end_mk]
    have long := Nat.le_of_not_lt short
    by_cases first : memory (start + mbrMagicNumPos) = 0x55
    · rw [if_neg (not_not.mpr first), allInside_cons, end_mk]
      constructor
      · rintro ⟨inside, next, -⟩
        exact ⟨fun _ => inside, fun _ _ => next⟩
      · rintro ⟨inside, next⟩
        refine ⟨inside long, next long first, ?_⟩
        split
        · exact allInside_nil
        · exact mbrTypeReads_inside (Nat.le_of_succ_le (inside long)) 4 0 (Nat.le_refl 4)
    · rw [if_pos first]
      exact ⟨fun inside => ⟨fun _ => inside.1, fun _ held => absurd held first⟩,
        fun inside => ⟨inside.1 long, allInside_nil⟩⟩

theorem copyReads_inside_iff {destMax count : Nat} :
    AllInside (copyReads start destMax count) size ↔ (count ≤ destMax → start + count ≤ size) := by
  rw [copyReads]
  split
  case isTrue fits => simp [fits]
  case isFalse much => simp [much]

theorem mbr_long {block : Memory} (passes : checkProtectiveMbr block imgLen = true) :
    mbrMagicNumPos + 1 ≤ imgLen := by
  simp only [checkProtectiveMbr, Bool.and_eq_true, decide_eq_true_eq] at passes
  exact passes.1.1.1

end Image

namespace UfsPtable

variable {ptable : UfsPtable} {ptbImgBuffer : Memory} {imgBufSize i : Nat}

/-- All that is to be known of the two sizes. -/
theorem KnownBlocks.sizes (blocks : ptable.KnownBlocks) :
    512 ≤ ptable.ptableData.blockSize ∧
      2 * ptable.ptableData.blockSize + gptEntrysSize ≤ tmpDataSize ∧
      2 * ptable.ptableData.blockSize + (tmpDataSize - 2 * ptable.ptableData.blockSize +
        partitionEntrySize - 1) / partitionEntrySize * partitionEntrySize = tmpDataSize ∧
      ∃ perBlock, ptable.ptableData.blockSize = partitionEntrySize * perBlock ∧
        maxPartitionNum / perBlock * perBlock = maxPartitionNum := by
  cases blocks with
  | inl small =>
      rw [small]
      exact ⟨by decide, by decide, by decide, 4, by decide, by decide⟩
  | inr large =>
      rw [large]
      exact ⟨by decide, by decide, by decide, 32, by decide, by decide⟩

theorem imageReads_inside_iff (blocks : ptable.KnownBlocks) :
    AllInside (ptable.imageReads ptbImgBuffer i) imgBufSize ↔
      ptable.ImageFits ptbImgBuffer imgBufSize i := by
  have room : gptEntrysSize ≤ tmpDataSize - 2 * ptable.ptableData.blockSize :=
    Nat.le_sub_of_add_le' blocks.sizes.2.1
  have signature : AllInside (if ptable.Protective ptbImgBuffer i then
      validGptReads (ptable.getPtableImageUfsLunGptHeaderStart i) ptable.ptableData.lbaLen
      else []) imgBufSize ↔ (ptable.Protective ptbImgBuffer i →
        ptable.getPtableImageUfsLunGptHeaderStart i + 8 ≤ imgBufSize) := by
    split
    case isTrue passes =>
      have long : ¬ptable.ptableData.lbaLen < 8 := by
        have least := mbr_long passes
        rw [mbrMagicNumPos] at least
        omega
      simp [validGptReads, long, passes]
    case isFalse fails => simp [fails]
  have copies : AllInside (if ptable.HasTable ptbImgBuffer i then
      copyReads (ptable.getPtableImageUfsLunPmbrStart i) tmpDataSize ptable.ptableData.lbaLen ++
        copyReads (ptable.getPtableImageUfsLunGptHeaderStart i)
          (tmpDataSize - ptable.ptableData.blockSize) ptable.ptableData.lbaLen ++
        copyReads (ptable.getPtableImageUfsLunEntryStart i)
          (tmpDataSize - 2 * ptable.ptableData.blockSize) gptEntrysSize
      else []) imgBufSize ↔ (ptable.HasTable ptbImgBuffer i →
        ((ptable.ptableData.lbaLen ≤ tmpDataSize →
            ptable.getPtableImageUfsLunPmbrStart i + ptable.ptableData.lbaLen ≤ imgBufSize) ∧
          (ptable.ptableData.lbaLen ≤ tmpDataSize - ptable.ptableData.blockSize →
            ptable.getPtableImageUfsLunGptHeaderStart i + ptable.ptableData.lbaLen ≤
              imgBufSize)) ∧
        ptable.getPtableImageUfsLunEntryStart i + gptEntrysSize ≤ imgBufSize) := by
    split
    case isTrue has =>
      rw [allInside_append, allInside_append, copyReads_inside_iff, copyReads_inside_iff,
        copyReads_inside_iff]
      simp [has, room]
    case isFalse hasNot => simp [hasNot]
  rw [imageReads, allInside_append, allInside_append, protectiveMbrReads_inside_iff, signature,
    copies]
  constructor
  · rintro ⟨⟨⟨mbr, magic⟩, signature⟩, copies⟩
    exact ⟨mbr, magic, signature, fun has => (copies has).1.1, fun has => (copies has).1.2,
      fun has => (copies has).2⟩
  · intro fits
    exact ⟨⟨⟨fits.mbr, fits.magic⟩, fits.signature⟩,
      fun has => ⟨⟨fits.firstBlock has, fits.header has⟩, fits.entries has⟩⟩

end UfsPtable

section Header

variable {gptImage : Memory} {blockSize size : Nat}

theorem gptHeaderInfoReads_inside (blocks : 512 ≤ blockSize) (room : 2 * blockSize ≤ size) :
    AllInside (gptHeaderInfoReads gptImage blockSize blockSize) size := by
  rw [gptHeaderInfoReads]
  split
  · exact allInside_nil
  · refine allInside_append.mpr ⟨?_, ?_⟩
    · rw [validGptReads, if_neg (Nat.not_lt.mpr (Nat.le_trans (by decide) blocks)), allInside_cons,
        end_mk]
      exact ⟨by omega, allInside_nil⟩
    · split
      · exact allInside_nil
      · simp only [allInside_cons, end_mk, allInside_nil, headerSizeOffset, firstUsableLbaOffset,
          partitionCountOffset, pentrySizeOffset, and_true]
        omega

/-- The check of a header bounds the entries that it promises. -/
theorem checkGptHeader_entries {lbaNum : Nat} {info : GptHeaderInfo}
    (checked : checkGptHeader gptImage blockSize lbaNum info = true) :
    info.maxPartitionCount * info.partitionEntrySize % 2 ^ 32 ≤ gptEntrysSize := by
  simp only [checkGptHeader, Bool.and_eq_true, decide_eq_true_eq] at checked
  obtain ⟨⟨⟨-, size⟩, few⟩, -⟩ := checked
  rw [minPartitionArraySize, partitionEntrySize] at few
  rw [size, partitionEntrySize, gptEntrysSize]
  omega

end Header

namespace UfsPtable

/-- Whole entries follow each other, as the blocks hold a whole number of them. -/
theorem entryOffset_eq (perBlock k : Nat) :
    entryOffset (partitionEntrySize * perBlock) k =
      2 * (partitionEntrySize * perBlock) + partitionEntrySize * k := by
  have entries : partitionEntrySize * perBlock / partitionEntrySize = perBlock :=
    Nat.mul_div_cancel_left perBlock (by decide)
  have whole := Nat.div_add_mod k perBlock
  rw [entryOffset, entries, defaultEntryOffset]
  calc (2 + k / perBlock) * (partitionEntrySize * perBlock) + k % perBlock * partitionEntrySize
      = 2 * (partitionEntrySize * perBlock) +
          partitionEntrySize * (perBlock * (k / perBlock) + k % perBlock) := by ring
    _ = 2 * (partitionEntrySize * perBlock) + partitionEntrySize * k := by rw [whole]

theorem entryReads_inside {gptImage : Memory} {perBlock size : Nat} (left k : Nat)
    (room : 2 * (partitionEntrySize * perBlock) + partitionEntrySize * (k + left) ≤ size) :
    AllInside (entryReads gptImage (partitionEntrySize * perBlock) left k) size := by
  induction left generalizing k with
  | zero => exact allInside_nil
  | succ left hypothesis =>
      rw [entryReads, entryOffset_eq]
      have entry : 2 * (partitionEntrySize * perBlock) + partitionEntrySize * k + 128 ≤ size := by
        rw [partitionEntrySize] at room ⊢
        omega
      refine allInside_cons.mpr ⟨by rw [end_mk]; omega, ?_⟩
      split
      · exact allInside_nil
      · rw [allInside_cons, allInside_cons, end_mk, end_mk, firstLbaOffset, gptPartitionNameOffset,
          maxGptNameSize]
        exact ⟨by omega, by omega, hypothesis (k + 1) (by rwa [Nat.add_right_comm])⟩

theorem totalPart_le (data : Memory) (start left found : Nat) :
    totalPart data start left found ≤ found + left := by
  induction left generalizing found with
  | zero => exact Nat.le_refl found
  | succ left hypothesis =>
      rw [totalPart]
      split
      · exact (hypothesis (found + 1)).trans_eq (Nat.add_right_comm found 1 left)
      · exact Nat.le_add_right found _

theorem le_totalPart (data : Memory) (start left found : Nat) :
    found ≤ totalPart data start left found := by
  induction left generalizing found with
  | zero => exact Nat.le_refl found
  | succ left hypothesis =>
      rw [totalPart]
      split
      · exact Nat.le_of_succ_le (hypothesis (found + 1))
      · exact Nat.le_refl found

theorem totalPart_eq_zero_iff {data : Memory} {start left : Nat} (some_ : 0 < left) :
    totalPart data start left 0 = 0 ↔ data start = 0 := by
  obtain ⟨left, rfl⟩ := Nat.exists_eq_succ_of_ne_zero (Nat.ne_of_gt some_)
  rw [totalPart, Nat.zero_mul, Nat.add_zero]
  by_cases zero : data start = 0
  · rw [if_neg (not_not.mpr zero)]
    exact iff_of_true rfl zero
  · rw [if_pos zero]
    exact iff_of_false (Nat.ne_of_gt (le_totalPart data start left 1)) zero

section Data

variable {ptable : UfsPtable} {ptbImgBuffer : Memory} {imgBufSize i : Nat}

theorem needWriteReads_inside (blocks : ptable.KnownBlocks) (lunIndex : Nat) :
    AllInside (ptable.needWriteReads lunIndex) tmpDataSize := by
  have room := blocks.sizes.2.1
  rw [gptEntrysSize] at room
  rw [needWriteReads]
  split
  · exact allInside_nil
  · rw [allInside_cons, end_mk, gptPartitionNameOffset, maxGptNameSize]
    exact ⟨by omega, allInside_nil⟩

theorem partitionCheckGptHeaderReads_inside (blocks : ptable.KnownBlocks) (gptImage : Memory)
    (len lbaNum lunNum : Nat) (info : GptHeaderInfo) :
    AllInside (ptable.partitionCheckGptHeaderReads gptImage len lbaNum lunNum
      ptable.ptableData.blockSize info) tmpDataSize := by
  have room := blocks.sizes.2.1
  rw [partitionCheckGptHeaderReads]
  split
  · exact allInside_nil
  · dsimp only
    refine allInside_cons.mpr ⟨by rw [end_mk]; omega, ?_⟩
    split
    · exact allInside_nil
    · rename_i checked
      split
      · exact allInside_nil
      · rename_i local_
        rw [not_or, not_not, defaultEntryOffset] at local_
        have entries := checkGptHeader_entries (Bool.not_eq_false _ ▸ checked)
        rw [allInside_cons, end_mk, local_.1]
        exact ⟨by omega, allInside_nil⟩

theorem ufsReadGptReads_inside (blocks : ptable.KnownBlocks) (gptImage : Memory) (len lun : Nat) :
    AllInside (ptable.ufsReadGptReads gptImage len lun ptable.ptableData.blockSize)
      tmpDataSize := by
  obtain ⟨least, room, -, perBlock, whole, all⟩ := blocks.sizes
  rw [ufsReadGptReads]
  split
  · exact allInside_nil
  · refine allInside_append.mpr ⟨allInside_append.mpr
      ⟨gptHeaderInfoReads_inside least (Nat.le_of_add_right_le room), ?_⟩, ?_⟩
    · split
      · exact allInside_nil
      · split
        · exact allInside_nil
        · exact partitionCheckGptHeaderReads_inside blocks gptImage len _ lun _
    · split
      · exact allInside_nil
      · have entries : ptable.ptableData.blockSize / partitionEntrySize = perBlock := by
          rw [whole, Nat.mul_div_cancel_left perBlock (by decide)]
        dsimp only
        rw [entries, all, whole]
        refine entryReads_inside maxPartitionNum 0 ?_
        rw [← whole]
        exact room

theorem copyWrites_inside {dest destMax count : Nat} (room : dest + destMax ≤ tmpDataSize) :
    AllInside (copyWrites dest destMax count) tmpDataSize := by
  rw [copyWrites, allInside_cons, end_mk]
  refine ⟨?_, allInside_nil⟩
  split
  case isTrue fits => omega
  case isFalse => exact room

/-- The fields of the header that the patch reads are the ones it is given. -/
theorem patchLastPartition_header {data : Memory} {blockSize lastPartOffset total lastUsable at_
    first second : Nat} (behind : 2 * blockSize ≤ lastPartOffset)
    (low : gptPartitionNameOffset ≤ at_) (high : at_ + 4 ≤ blockSize) :
    getLword (ptable.patchLastPartition
        (putLongLong (putLongLong data (blockSize + backupHeaderOffset) first)
          (blockSize + lastUsableLbaOffset) second) lastPartOffset total lastUsable)
      (blockSize + at_) = getLword data (blockSize + at_) := by
  rw [gptPartitionNameOffset] at low
  have fields : getLword (putLongLong (putLongLong data (blockSize + backupHeaderOffset) first)
      (blockSize + lastUsableLbaOffset) second) (blockSize + at_) =
        getLword data (blockSize + at_) := by
    rw [getLword_putLongLong_apart _ (.inr _), getLword_putLongLong_apart _ (.inr _)]
    · rw [backupHeaderOffset]
      omega
    · rw [lastUsableLbaOffset]
      omega
  rw [patchLastPartition]
  split
  · rw [getLword_putLongLong_apart _ (.inl (by omega))]
    exact fields
  · exact fields

theorem copyInto_outside {data : Memory} {dest destMax address : Nat} {bytes : Bytes}
    (before : address < dest) : copyInto data dest destMax bytes address = data address := by
  rw [copyInto]
  split
  · exact Memory.write_of_lt _ before
  · exact Memory.write_of_lt _ before

theorem copiedData_entries (blocks : ptable.KnownBlocks) (data : Memory) :
    ptable.copiedData ptbImgBuffer data i (2 * ptable.ptableData.blockSize) =
      ptbImgBuffer (ptable.getPtableImageUfsLunEntryStart i) := by
  have room := blocks.sizes.2.1
  rw [copiedData, copyInto, if_pos (by rw [Memory.length_read]; omega)]
  exact Memory.write_read_within _ ptbImgBuffer (by decide : 0 < gptEntrysSize)

/-- The header is copied, unless a block of the image is too large. -/
theorem copiedData_header (blocks : ptable.KnownBlocks) (has : ptable.HasTable ptbImgBuffer i)
    (data : Memory) {at_ : Nat} (inHeader : at_ + 4 ≤ mbrMagicNumPos) :
    getLword (ptable.copiedData ptbImgBuffer data i) (ptable.ptableData.blockSize + at_) =
      if ptable.ptableData.lbaLen ≤ tmpDataSize - ptable.ptableData.blockSize then
        getLword ptbImgBuffer (ptable.getPtableImageUfsLunGptHeaderStart i + at_)
      else 0 := by
  obtain ⟨least, room, -⟩ := blocks.sizes
  have long := mbr_long has.1
  rw [mbrMagicNumPos] at long inHeader
  have behind : ∀ copied : Memory, ∀ bytes : Bytes,
      getLword (copyInto copied (2 * ptable.ptableData.blockSize)
          (tmpDataSize - 2 * ptable.ptableData.blockSize) bytes)
        (ptable.ptableData.blockSize + at_) =
        getLword copied (ptable.ptableData.blockSize + at_) := fun copied bytes =>
    congrArg leValue (Memory.read_congr _ fun j within => copyInto_outside (by omega))
  rw [copiedData, behind, copyInto, Memory.length_read]
  by_cases fits : ptable.ptableData.lbaLen ≤ tmpDataSize - ptable.ptableData.blockSize
  · rw [if_pos fits, if_pos fits]
    refine congrArg leValue (Memory.read_congr _ fun j within => ?_)
    rw [Nat.add_assoc, Nat.add_assoc]
    exact Memory.write_read_within _ ptbImgBuffer (by omega)
  · rw [if_neg fits, if_neg fits]
    have zeros : ∀ copied : Memory, getLword (copied.write ptable.ptableData.blockSize
        (List.replicate (tmpDataSize - ptable.ptableData.blockSize) 0))
          (ptable.ptableData.blockSize + at_) = getLword (fun _ => 0) 0 := fun copied => by
      refine congrArg leValue (Memory.read_congr _ fun j within => ?_)
      rw [Nat.add_assoc]
      refine Memory.write_within _ (List.getElem?_replicate_of_lt ?_)
      rw [gptEntrysSize] at room
      omega
    exact zeros _

theorem ufsPatchGptHeaderAccesses_inside_iff (blocks : ptable.KnownBlocks)
    (info : UfsPartitionDataInfo) :
    AllInside (ptable.ufsPatchGptHeaderAccesses info ptable.ptableData.blockSize) tmpDataSize ↔
      (2 * ptable.ptableData.blockSize ≤ info.writeDataLen → info.lunSize ≠ 0 →
        info.data (2 * ptable.ptableData.blockSize) ≠ 0 →
        2 * ptable.ptableData.blockSize +
          getLword info.data (ptable.ptableData.blockSize + partitionCountOffset) *
            getLword info.data (ptable.ptableData.blockSize + pentrySizeOffset) % 2 ^ 32 ≤
          tmpDataSize) := by
  obtain ⟨least, room, entries, -⟩ := blocks.sizes
  rw [gptEntrysSize] at room
  rw [ufsPatchGptHeaderAccesses]
  by_cases refused : ptable.ptableData.blockSize = 0 ∨
      info.writeDataLen < 2 * ptable.ptableData.blockSize ∨ info.lunSize = 0 ∨
        ptable.ptableData.blockSize = 0
  · rw [if_pos refused]
    refine iff_of_true allInside_nil fun long some_ => ?_
    omega
  · rw [if_neg refused]
    dsimp only
    have some_ : 0 < (tmpDataSize - 2 * ptable.ptableData.blockSize + partitionEntrySize - 1) /
        partitionEntrySize := Nat.pos_of_ne_zero fun none_ => by
      rw [none_] at entries
      omega
    generalize (tmpDataSize - 2 * ptable.ptableData.blockSize + partitionEntrySize - 1) /
      partitionEntrySize = most at entries some_ ⊢
    generalize ptable.lastUsableSector _ = lastUsable
    generalize sub64 _ 1 = backup
    generalize filled : putLongLong (putLongLong info.data
      (ptable.ptableData.blockSize + backupHeaderOffset) backup)
      (ptable.ptableData.blockSize + lastUsableLbaOffset) lastUsable = fields
    have start : fields (2 * ptable.ptableData.blockSize) =
        info.data (2 * ptable.ptableData.blockSize) := by
      rw [← filled, putLongLong_outside (.inr _), putLongLong_outside (.inr _)]
      · rw [backupHeaderOffset]
        omega
      · rw [lastUsableLbaOffset]
        omega
    have bound := totalPart_le fields (2 * ptable.ptableData.blockSize) most 0
    have none_iff := (@totalPart_eq_zero_iff fields (2 * ptable.ptableData.blockSize) most some_).trans
      (by rw [start])
    generalize totalPart fields (2 * ptable.ptableData.blockSize) most 0 = total at bound none_iff ⊢
    have firstBytes : AllInside ((List.range (min (total + 1) most)).map fun k =>
        { start := 2 * ptable.ptableData.blockSize + k * partitionEntrySize, length := 1 })
        tmpDataSize := by
      intro access made
      obtain ⟨k, within, rfl⟩ := List.mem_map.mp made
      have inside : k < most := Nat.lt_of_lt_of_le (List.mem_range.mp within) (Nat.min_le_right _ _)
      rw [partitionEntrySize] at entries ⊢
      rw [end_mk]
      omega
    rw [allInside_append, allInside_cons, allInside_cons, end_mk, end_mk, backupHeaderOffset,
      lastUsableLbaOffset]
    have fieldsFit : ptable.ptableData.blockSize + 32 + 8 ≤ tmpDataSize ∧
        ptable.ptableData.blockSize + 48 + 8 ≤ tmpDataSize := by omega
    by_cases none_ : total = 0
    · rw [if_pos none_]
      exact iff_of_true ⟨⟨fieldsFit.1, fieldsFit.2, firstBytes⟩, allInside_nil⟩
        fun _ _ held => absurd (none_iff.mp none_) held
    · have behind : 2 * ptable.ptableData.blockSize ≤
          2 * ptable.ptableData.blockSize + (total - 1) * partitionEntrySize := Nat.le_add_right _ _
      have lastEntry : 2 * ptable.ptableData.blockSize + (total - 1) * partitionEntrySize +
          partitionEntrySize ≤ tmpDataSize := by
        rw [partitionEntrySize] at entries ⊢
        omega
      have count := @patchLastPartition_header ptable info.data _ _ total lastUsable
        partitionCountOffset backup lastUsable behind (by decide)
        (Nat.le_trans (by decide) least)
      have size := @patchLastPartition_header ptable info.data _ _ total lastUsable
        pentrySizeOffset backup lastUsable behind (by decide) (Nat.le_trans (by decide) least)
      rw [filled] at count size
      rw [if_neg none_, count, size]
      rw [partitionEntrySize] at lastEntry
      simp only [allInside_cons, end_mk, allInside_nil, and_true, partitionEntrySize,
        firstLbaOffset, gptPartitionNameOffset, maxGptNameSize, partitionCountOffset,
        pentrySizeOffset, partitionCrcOffset, gptCrcLen]
      constructor
      · rintro ⟨-, -, -, -, crc, -⟩ - - -
        exact crc
      · intro crc
        refine ⟨⟨fieldsFit.1, fieldsFit.2, firstBytes⟩, by omega, by omega, by omega,
          crc ?_ ?_ ?_, by omega, by omega⟩
        · omega
        · omega
        · exact fun zero => none_ (none_iff.mpr zero)

theorem dataAccesses_inside_iff (blocks : ptable.KnownBlocks) (stale : UfsPartitionDataInfo) :
    AllInside (ptable.dataAccesses ptbImgBuffer stale i) tmpDataSize ↔
      ptable.CrcFits ptbImgBuffer i := by
  have room := blocks.sizes.2.1
  rw [dataAccesses, allInside_cons, end_mk, Nat.zero_add]
  by_cases has : ptable.HasTable ptbImgBuffer i
  · rw [if_pos has, allInside_append, allInside_append, allInside_append, allInside_append,
      allInside_append, ufsPatchGptHeaderAccesses_inside_iff blocks, copiedInfo_data,
      copiedInfo_writeDataLen, copiedInfo_lunSize]
    have patched : (2 * ptable.ptableData.blockSize ≤ ptable.ptableData.writeDeviceLunSize →
        ptable.capacity (ptable.deviceLun i) ≠ 0 →
        ptable.copiedData ptbImgBuffer stale.data i (2 * ptable.ptableData.blockSize) ≠ 0 →
        2 * ptable.ptableData.blockSize +
          getLword (ptable.copiedData ptbImgBuffer stale.data i)
              (ptable.ptableData.blockSize + partitionCountOffset) *
            getLword (ptable.copiedData ptbImgBuffer stale.data i)
              (ptable.ptableData.blockSize + pentrySizeOffset) % 2 ^ 32 ≤ tmpDataSize) ↔
          ptable.CrcFits ptbImgBuffer i := by
      rw [copiedData_entries blocks, copiedData_header blocks has _ (by decide),
        copiedData_header blocks has _ (by decide), CrcFits]
      by_cases fits : ptable.ptableData.lbaLen ≤ tmpDataSize - ptable.ptableData.blockSize
      · rw [if_pos fits, if_pos fits]
        exact ⟨fun inside _ _ => inside, fun inside => inside has fits⟩
      · rw [if_neg fits, Nat.zero_mul, Nat.zero_mod, Nat.add_zero]
        exact iff_of_true (fun _ _ _ => Nat.le_of_add_right_le room)
          fun _ held => absurd held fits
    constructor
    · rintro ⟨-, ⟨⟨-, inside⟩, -⟩, -⟩
      exact patched.mp inside
    · intro crc
      refine ⟨Nat.le_refl _, ⟨⟨⟨⟨copyWrites_inside (Nat.le_of_eq (Nat.zero_add _)),
        copyWrites_inside (by omega)⟩, copyWrites_inside (by omega)⟩, patched.mpr crc⟩,
        needWriteReads_inside blocks _⟩, ?_⟩
      split
      · exact allInside_nil
      · exact ufsReadGptReads_inside blocks _ _ _
  · rw [if_neg has]
    exact iff_of_true ⟨Nat.le_refl _, allInside_nil⟩ fun held => absurd held has

/-- Which partitions are known does not matter to whether a table can be read. -/
theorem ufsReadGpt_none_iff (gptImage : Memory) (len lun blockSize : Nat)
    (partitionInfo : List PtnInfo) :
    ptable.ufsReadGpt gptImage len lun blockSize partitionInfo = none ↔
      ptable.ufsReadGpt gptImage len lun blockSize [] = none := by
  rw [ufsReadGpt, ufsReadGpt]
  split
  · rfl
  · split
    · rfl
    · exact iff_of_false nofun nofun

theorem parseLun_goesOn_iff (stale : UfsPartitionDataInfo) (tables : Tables) :
    (∃ next, ptable.parseLun ptbImgBuffer stale i tables = some (next, true)) ↔
      ptable.GoesOn ptbImgBuffer stale i := by
  rw [parseLun]
  by_cases has : ptable.HasTable ptbImgBuffer i
  · rw [if_neg (by
      rw [HasTable, Protective] at has
      simp [has.1, has.2])]
    change (∃ next, (match ptable.addedInfo ptbImgBuffer stale i with
      | none => none
      | some info => _) = some (next, true)) ↔ _
    rw [GoesOn]
    cases added : ptable.addedInfo ptbImgBuffer stale i with
    | none => exact iff_of_false nofun fun goesOn => nomatch goesOn has
    | some info =>
        have known := @ufsReadGpt_none_iff ptable info.data info.writeDataLen
          info.lunIndex ptable.ptableData.blockSize tables.partitionInfo
        dsimp only
        cases read : ptable.ufsReadGpt info.data info.writeDataLen info.lunIndex
            ptable.ptableData.blockSize tables.partitionInfo with
        | none =>
            refine iff_of_false nofun fun goesOn => ?_
            obtain ⟨_, same, readable⟩ := goesOn has
            cases same
            exact readable (known.mp read)
        | some partitionInfo =>
            refine iff_of_true ⟨_, rfl⟩ fun _ => ⟨info, rfl, fun unreadable => ?_⟩
            rw [known.mpr unreadable] at read
            cases read
  · rw [if_pos (by
      rw [HasTable, Protective, not_and_or, Bool.not_eq_true, Bool.not_eq_true] at has
      exact has)]
    exact iff_of_true ⟨_, rfl⟩ fun held => absurd held has

theorem mem_lunsVisited_iff (stale : Nat → UfsPartitionDataInfo) (first count : Nat)
    (tables : Tables) :
    i ∈ ptable.lunsVisited ptbImgBuffer stale (List.range' first count) tables ↔
      (first ≤ i ∧ i < first + count) ∧
        ∀ j, first ≤ j → j < i → ptable.GoesOn ptbImgBuffer (stale j) j := by
  induction count generalizing first tables with
  | zero =>
      refine iff_of_false nofun fun held => ?_
      omega
  | succ count hypothesis =>
      rw [List.range'_succ, lunsVisited, List.mem_cons]
      have goesOn := @parseLun_goesOn_iff ptable ptbImgBuffer first (stale first) tables
      have later : (i ∈ match ptable.parseLun ptbImgBuffer (stale first) first tables with
          | none => []
          | some (_, false) => []
          | some (tables, true) =>
              ptable.lunsVisited ptbImgBuffer stale (List.range' (first + 1) count) tables) ↔
          ptable.GoesOn ptbImgBuffer (stale first) first ∧
            (first + 1 ≤ i ∧ i < first + 1 + count) ∧
              ∀ j, first + 1 ≤ j → j < i → ptable.GoesOn ptbImgBuffer (stale j) j := by
        rw [← goesOn]
        split
        case h_1 read => exact iff_of_false nofun fun held => by simp [read] at held
        case h_2 read => exact iff_of_false nofun fun held => by simp [read] at held
        case h_3 next read =>
          rw [hypothesis]
          exact ⟨fun held => ⟨⟨next, read⟩, held⟩, fun held => held.2⟩
      rw [later]
      constructor
      · rintro (rfl | ⟨firstOn, between, laterOn⟩)
        · exact ⟨⟨Nat.le_refl i, by omega⟩, fun j least most => by omega⟩
        · refine ⟨⟨by omega, by omega⟩, fun j least most => ?_⟩
          cases Nat.eq_or_lt_of_le least with
          | inl same => exact same ▸ firstOn
          | inr behind => exact laterOn j behind most
      · rintro ⟨between, allOn⟩
        by_cases same : i = first
        · exact .inl same
        · exact .inr ⟨allOn first (Nat.le_refl first) (by omega), ⟨by omega, by omega⟩,
            fun j least most => allOn j (Nat.le_of_succ_le least) most⟩

end Data

/-- A size check for the parts of all luns would keep the reads of the image inside. -/
theorem imageFits_of_room {ptable : UfsPtable} {imgBufSize i : Nat} (ptbImgBuffer : Memory)
    (whole : ptable.ptableData.emmcGptDataLen + (i + 1) * ptable.ptableData.imgLuSize ≤ imgBufSize)
    (small : imgBufSize < 2 ^ 32)
    (room : ptable.ptableData.lbaLen + ptable.ptableData.gptHeaderLen + gptEntrysSize ≤
      ptable.ptableData.imgLuSize)
    (header : ptable.ptableData.lbaLen ≤ ptable.ptableData.gptHeaderLen + gptEntrysSize) :
    ptable.ImageFits ptbImgBuffer imgBufSize i := by
  rw [Nat.succ_mul] at whole
  rw [gptEntrysSize] at room header
  have place : ∀ at_, at_ ≤ ptable.ptableData.imgLuSize →
      (ptable.ptableData.emmcGptDataLen + getPtableExtraOffset + i * ptable.ptableData.imgLuSize +
        at_) % 2 ^ 32 = ptable.ptableData.emmcGptDataLen + i * ptable.ptableData.imgLuSize + at_ :=
    fun at_ low => by
      rw [getPtableExtraOffset, Nat.add_zero, Nat.mod_eq_of_lt (by omega)]
  have pmbr := place 0 (Nat.zero_le _)
  have headerStart := place ptable.ptableData.lbaLen (by omega)
  have entryStart := place (ptable.ptableData.lbaLen + ptable.ptableData.gptHeaderLen) (by omega)
  rw [Nat.add_zero] at pmbr
  rw [← Nat.add_assoc] at entryStart
  constructor
  case mbr =>
    rw [getPtableImageUfsLunPmbrStart, pmbr, mbrMagicNumPos]
    omega
  case magic =>
    rw [getPtableImageUfsLunPmbrStart, pmbr, mbrMagicNumPos]
    omega
  case signature =>
    rw [getPtableImageUfsLunGptHeaderStart, headerStart]
    omega
  case firstBlock =>
    rw [getPtableImageUfsLunPmbrStart, pmbr]
    omega
  case header =>
    rw [getPtableImageUfsLunGptHeaderStart, headerStart]
    omega
  case entries =>
    rw [getPtableImageUfsLunEntryStart, entryStart, gptEntrysSize]
    omega

/-- The parser stays inside the image and the data of the luns if and only if, for every lun that it
comes to, the blocks and entries read lie in the image, and the entries that the header promises in
the data. -/
theorem parsePartitionFromBuffer_inside_iff (ptable : UfsPtable) (ptbImgBuffer : Memory)
    (imgBufSize : Nat) (stale : Nat → UfsPartitionDataInfo) (tables : Tables) :
    (∀ i ∈ ptable.lunsParsed ptbImgBuffer imgBufSize stale tables,
      AllInside (ptable.imageReads ptbImgBuffer i) imgBufSize ∧
        AllInside (ptable.dataAccesses ptbImgBuffer (stale i) i) tmpDataSize) ↔
      (ptable.Accepts imgBufSize → ∀ i < ptable.deviceLunNum,
        (∀ j < i, ptable.GoesOn ptbImgBuffer (stale j) j) →
          ptable.ImageFits ptbImgBuffer imgBufSize i ∧ ptable.CrcFits ptbImgBuffer i) := by
  rw [lunsParsed]
  by_cases accepts : ptable.Accepts imgBufSize
  · have visited : ∀ i, i ∈ ptable.lunsVisited ptbImgBuffer stale (List.range ptable.deviceLunNum)
        { tables with ufsPtnDataInfo := [] } ↔ i < ptable.deviceLunNum ∧
          ∀ j < i, ptable.GoesOn ptbImgBuffer (stale j) j := fun i => by
      rw [List.range_eq_range', mem_lunsVisited_iff]
      simp
    rw [if_pos accepts]
    constructor
    · intro inside _ i within goesOn
      have lun := inside i ((visited i).mpr ⟨within, goesOn⟩)
      exact ⟨(imageReads_inside_iff accepts.2).mp lun.1,
        (dataAccesses_inside_iff accepts.2 (stale i)).mp lun.2⟩
    · intro fits i comes
      obtain ⟨within, goesOn⟩ := (visited i).mp comes
      have lun := fits accepts i within goesOn
      exact ⟨(imageReads_inside_iff accepts.2).mpr lun.1,
        (dataAccesses_inside_iff accepts.2 (stale i)).mpr lun.2⟩
  · rw [if_neg accepts]
    exact iff_of_true nofun fun held => absurd held accepts

/-- A device with two luns, whose image has 34 blocks for each. -/
def twoLuns : UfsPtable where
  ptableData := {
    emmcGptDataLen := 17408
    lbaLen := 512
    gptHeaderLen := 512
    blockSize := 4096
    imgLuSize := 17408
    startLunNumber := 0
    writeDeviceLunSize := 32768
    wholeMbr := by decide
    inBuffer := by decide }
  hasBackupPtable := false
  reservedSize := 0
  isVabDevice := false
  isUpdaterMode := true
  lunOffset := fun _ => 0
  updateSlot := 0
  curSlot := 0
  nodeExists := fun lun => decide (lun < 2)
  removable := fun _ => false
  capacity := fun _ => 2 ^ 30
  memRead := fun _ _ _ => none

/-- The size check asks for the part of the first lun only: the block of the second one is read
behind the end. -/
theorem twoLuns_outside :
    ¬∀ i ∈ twoLuns.lunsParsed (fun _ => 0) (2 * 17408)
        (fun _ => ⟨false, 0, 0, 0, fun _ => 0, true⟩) ⟨[], []⟩,
      AllInside (twoLuns.imageReads (fun _ => 0) i) (2 * 17408) ∧
        AllInside (twoLuns.dataAccesses (fun _ => 0) ⟨false, 0, 0, 0, fun _ => 0, true⟩ i)
          tmpDataSize := by
  intro inside
  have read : Access.mk (2 * 17408 + 510) 1 ∈ twoLuns.imageReads (fun _ => 0) 1 :=
    List.mem_append_left _ (List.mem_append_left _ (.head _))
  exact absurd ((inside 1 (by decide)).1 _ read) (by decide)

end UfsPtable

end Updater.PtableParse
