import Updater.PtableParse.BackupTable
import Updater.PtableParse.EmmcPtable

/-! Whether a table whose header was patched for the device passes the checksums of
`PartitionCheckGptHeader`. -/

set_option autoImplicit false

namespace Updater.PtableParse

open Updater.Base UfsPtable

/-- How `GetGptEntryCrc` takes the checksum of a part of an image. -/
abbrev EntryCrc : Type := Memory → Nat → Nat → Nat

/-- Where a header says that the entries begin. -/
def checkedStart (header : Memory) (blockSize : Nat) : Nat :=
  getLlword header partitionEntriesOffset % 2 ^ 32 * blockSize % 2 ^ 32

/-- The bytes of the entries as a header counts them. -/
def checkedLength (header : Memory) : Nat :=
  getLword header partitionCountOffset * getLword header pentrySizeOffset % 2 ^ 32

/-- The checksums of the header and of the entries that `PartitionCheckGptHeader` compares. -/
structure CrcsValidate (entryCrc : EntryCrc) (data : Memory) (blockSize : Nat) : Prop where
  header : HeaderCrcValidates (data.behind blockSize) blockSize
  entries : entryCrc data (checkedStart (data.behind blockSize) blockSize)
      (checkedLength (data.behind blockSize)) =
    getLword (data.behind blockSize) partitionCrcOffset

/-- A patched table validates, and no partition that was patched ends behind the usable LBAs. -/
structure PatchedValid (entryCrc : EntryCrc) (data : Memory) (blockSize : Nat)
    (patched : List Nat) : Prop extends CrcsValidate entryCrc data blockSize where
  usable : ∀ entry ∈ patched, getLlword data (entry + lastLbaOffset) ≤
    getLlword data (blockSize + lastUsableLbaOffset)

/-- The header with the checksum of the entries behind it, before its own. -/
def clearedHeader (data : Memory) (blockSize : Nat) : Memory :=
  let header := data.behind blockSize
  putLong
    (putLong header partitionCrcOffset
      (calculateCrc32 (data.read (2 * blockSize) (checkedLength header))))
    headerCrcOffset 0

/-- The rewritten fields of a header leave the checksums as they were. -/
structure KeepsCrcs (entryCrc : EntryCrc) (data fields : Memory) (blockSize : Nat) : Prop where
  header :
    let size := getLword (data.behind blockSize) headerSizeOffset
    calculateCrc32 ((putLong (fields.behind blockSize) headerCrcOffset 0).read 0 size) =
      calculateCrc32 ((putLong (data.behind blockSize) headerCrcOffset 0).read 0 size)
  entries :
    let start := checkedStart (data.behind blockSize) blockSize
    let length := checkedLength (data.behind blockSize)
    entryCrc fields start length = entryCrc data start length

/-- The header counts no more bytes than the checksum is taken over, or such that its checksum is
the same. -/
def HeaderCovered (settled : Memory) (blockSize : Nat) : Prop :=
  let cleared := clearedHeader settled blockSize
  calculateCrc32 (cleared.read 0 (getLword (settled.behind blockSize) headerSizeOffset)) =
    calculateCrc32 (cleared.read 0 gptCrcLen)

/-- What the header says of its size and its entries, apart from checksums. -/
structure SameShape (header other : Memory) : Prop where
  size : getLword other headerSizeOffset = getLword header headerSizeOffset
  count : getLword other partitionCountOffset = getLword header partitionCountOffset
  entrySize : getLword other pentrySizeOffset = getLword header pentrySizeOffset
  start : getLlword other partitionEntriesOffset = getLlword header partitionEntriesOffset

namespace SameShape

variable {header other third : Memory}

theorem trans (first : SameShape header other) (second : SameShape other third) :
    SameShape header third where
  size := second.size.trans first.size
  count := second.count.trans first.count
  entrySize := second.entrySize.trans first.entrySize
  start := second.start.trans first.start

theorem checkedStart (same : SameShape header other) (blockSize : Nat) :
    checkedStart other blockSize = PtableParse.checkedStart header blockSize := by
  rw [PtableParse.checkedStart, PtableParse.checkedStart, same.start]

theorem checkedLength (same : SameShape header other) :
    checkedLength other = PtableParse.checkedLength header := by
  rw [PtableParse.checkedLength, PtableParse.checkedLength, same.count, same.entrySize]

end SameShape

section Headers

variable {header : Memory} {blockSize : Nat}

/-- A header whose checksum is taken over its first bytes. -/
theorem headerCrcValidates_withHeaderCrc_iff :
    HeaderCrcValidates (withHeaderCrc header) blockSize ↔
      gptHeaderSize ≤ getLword header headerSizeOffset ∧
        getLword header headerSizeOffset ≤ blockSize ∧
        calculateCrc32 ((putLong header headerCrcOffset 0).read 0
            (getLword header headerSizeOffset)) =
          calculateCrc32 ((putLong header headerCrcOffset 0).read 0 gptCrcLen) := by
  rw [HeaderCrcValidates, withHeaderCrc, getLword_putLong_apart _ (by decide),
    getLword_putLong_apart _ (by decide), getLword_putLong _ (calculateCrc32_lt _), putLong_putLong,
    putLong_putLong]

theorem putLong_behind (data : Memory) (start at_ value : Nat) :
    (putLong data (start + at_) value).behind start = putLong (data.behind start) at_ value :=
  data.write_behind start at_ (leBytes 4 value)

theorem putLongLong_behind (data : Memory) (start at_ value : Nat) :
    (putLongLong data (start + at_) value).behind start =
      putLongLong (data.behind start) at_ value :=
  data.write_behind start at_ (leBytes 8 value)

theorem sameShape_putLongLong {at_ value : Nat} (apart : at_ = 32 ∨ at_ = 48) :
    SameShape header (putLongLong header at_ value) := by
  constructor
  · exact getLword_putLongLong_apart _ (by rw [headerSizeOffset]; omega)
  · exact getLword_putLongLong_apart _ (by rw [partitionCountOffset]; omega)
  · exact getLword_putLongLong_apart _ (by rw [pentrySizeOffset]; omega)
  · exact getLlword_putLongLong_apart _ (by rw [partitionEntriesOffset]; omega)

theorem sameShape_putLong {at_ value : Nat} (apart : at_ = 16 ∨ at_ = 88) :
    SameShape header (putLong header at_ value) := by
  constructor
  · exact getLword_putLong_apart _ (by rw [headerSizeOffset]; omega)
  · exact getLword_putLong_apart _ (by rw [partitionCountOffset]; omega)
  · exact getLword_putLong_apart _ (by rw [pentrySizeOffset]; omega)
  · exact getLlword_putLong_apart _ (by rw [partitionEntriesOffset]; omega)

/-- The patched checksums, as a change of the header. -/
theorem behind_patchCrcs (settled : Memory) (blockSize : Nat) :
    (patchCrcs settled blockSize (2 * blockSize)).behind blockSize =
      withHeaderCrc (putLong (settled.behind blockSize) partitionCrcOffset
        (calculateCrc32
          (settled.read (2 * blockSize) (checkedLength (settled.behind blockSize))))) := by
  have length : checkedLength (settled.behind blockSize) =
      getLword settled (blockSize + partitionCountOffset) *
        getLword settled (blockSize + pentrySizeOffset) % 2 ^ 32 := by
    rw [checkedLength, getLword_behind, getLword_behind]
  rw [patchCrcs, putLong_behind, putLong_behind, putLong_behind, withHeaderCrc, length,
    ← putLong_behind, ← putLong_behind, Memory.read_behind, Nat.add_zero]

theorem clearedHeader_eq (settled : Memory) (blockSize : Nat) :
    clearedHeader settled blockSize =
      putLong
        (putLong (settled.behind blockSize) partitionCrcOffset
          (calculateCrc32
            (settled.read (2 * blockSize) (checkedLength (settled.behind blockSize)))))
        headerCrcOffset 0 := rfl

end Headers

section Patched

variable {entryCrc : EntryCrc} {data fields settled : Memory} {blockSize : Nat}

/-- Where the patch ends with the fields of the device, the checksums of before have to hold. -/
theorem crcsValidate_fields_iff (accepted : CrcsValidate entryCrc data blockSize)
    (shape : SameShape (data.behind blockSize) (fields.behind blockSize))
    (headerCrc : getLword (fields.behind blockSize) headerCrcOffset =
      getLword (data.behind blockSize) headerCrcOffset)
    (entriesCrc : getLword (fields.behind blockSize) partitionCrcOffset =
      getLword (data.behind blockSize) partitionCrcOffset) :
    CrcsValidate entryCrc fields blockSize ↔ KeepsCrcs entryCrc data fields blockSize := by
  obtain ⟨least, most, crc⟩ := accepted.header
  constructor
  · intro valid
    constructor
    · have validated := valid.header.2.2
      rw [shape.size, headerCrc] at validated
      exact validated.trans crc.symm
    · have validated := valid.entries
      rw [shape.checkedStart, shape.checkedLength, entriesCrc] at validated
      exact validated.trans accepted.entries.symm
  · intro keeps
    constructor
    · rw [HeaderCrcValidates, shape.size, headerCrc]
      exact ⟨least, most, keeps.header.trans crc⟩
    · rw [shape.checkedStart, shape.checkedLength, entriesCrc]
      exact keeps.entries.trans accepted.entries

/-- Where the patch takes new checksums, the header has to be covered by the one, and the entries
have to be those of the other. -/
theorem crcsValidate_patchCrcs_iff (accepted : CrcsValidate entryCrc data blockSize)
    (shape : SameShape (data.behind blockSize) (settled.behind blockSize)) :
    CrcsValidate entryCrc (patchCrcs settled blockSize (2 * blockSize)) blockSize ↔
      HeaderCovered settled blockSize ∧
        entryCrc (patchCrcs settled blockSize (2 * blockSize))
            (checkedStart (data.behind blockSize) blockSize)
            (checkedLength (data.behind blockSize)) =
          calculateCrc32
            (settled.read (2 * blockSize) (checkedLength (data.behind blockSize))) := by
  obtain ⟨least, most, -⟩ := accepted.header
  have patchedShape : SameShape (data.behind blockSize)
      ((patchCrcs settled blockSize (2 * blockSize)).behind blockSize) := by
    rw [behind_patchCrcs, withHeaderCrc]
    exact ((shape.trans (sameShape_putLong (.inr rfl))).trans (sameShape_putLong (.inl rfl))).trans
      (sameShape_putLong (.inl rfl))
  have crcField : getLword ((patchCrcs settled blockSize (2 * blockSize)).behind blockSize)
      partitionCrcOffset =
        calculateCrc32 (settled.read (2 * blockSize) (checkedLength (data.behind blockSize))) := by
    rw [behind_patchCrcs, withHeaderCrc, getLword_putLong_apart _ (by decide),
      getLword_putLong_apart _ (by decide), getLword_putLong _ (calculateCrc32_lt _),
      shape.checkedLength]
  have size : getLword (putLong (settled.behind blockSize) partitionCrcOffset
      (calculateCrc32 (settled.read (2 * blockSize) (checkedLength (settled.behind blockSize)))))
        headerSizeOffset = getLword (settled.behind blockSize) headerSizeOffset :=
    getLword_putLong_apart _ (by decide)
  have headerIff : HeaderCrcValidates
      ((patchCrcs settled blockSize (2 * blockSize)).behind blockSize) blockSize ↔
        HeaderCovered settled blockSize := by
    rw [behind_patchCrcs, headerCrcValidates_withHeaderCrc_iff, size, HeaderCovered, shape.size]
    exact ⟨fun valid => valid.2.2, fun covered => ⟨least, most, covered⟩⟩
  constructor
  · intro valid
    have entries := valid.entries
    rw [patchedShape.checkedStart, patchedShape.checkedLength, crcField] at entries
    exact ⟨headerIff.mp valid.header, entries⟩
  · intro both
    refine ⟨headerIff.mpr both.1, ?_⟩
    rw [patchedShape.checkedStart, patchedShape.checkedLength, crcField]
    exact both.2

end Patched

/-- What a patch makes of a table: two fields of the header that depend on the device, and the
partition that takes the rest of it. -/
structure HeaderPatch where
  data : Memory
  blockSize : Nat
  refused : Bool
  backupLba : Nat
  usableLba : Nat
  partitions : Nat
  takesRest : Bool
  usable_lt : usableLba < 2 ^ 64

namespace HeaderPatch

variable (patch : HeaderPatch)

def fields : Memory :=
  putLongLong (putLongLong patch.data (patch.blockSize + backupHeaderOffset) patch.backupLba)
    (patch.blockSize + lastUsableLbaOffset) patch.usableLba

/-- The entry of the last partition. -/
def lastPart : Nat :=
  2 * patch.blockSize + (patch.partitions - 1) * partitionEntrySize

def settled : Memory :=
  if patch.takesRest then putLongLong patch.fields (patch.lastPart + lastLbaOffset) patch.usableLba
  else patch.fields

/-- The table behind the patch: without partitions it returns before the checksums. -/
def result : Memory :=
  if patch.refused then patch.data
  else if patch.partitions = 0 then patch.fields
  else patchCrcs patch.settled patch.blockSize (2 * patch.blockSize)

/-- The entries of the partitions that are patched. -/
def patched : List Nat :=
  if patch.refused = false ∧ patch.partitions ≠ 0 ∧ patch.takesRest then [patch.lastPart] else []

/-- The entries that the check reads have the checksum of those behind the header. -/
def EntriesCovered (entryCrc : EntryCrc) : Prop :=
  let start := checkedStart (patch.data.behind patch.blockSize) patch.blockSize
  let length := checkedLength (patch.data.behind patch.blockSize)
  entryCrc (if 2 * patch.blockSize ≤ start then patch.settled else patch.result) start length =
    calculateCrc32 (patch.settled.read (2 * patch.blockSize) length)

/-- When a patch keeps a table valid. -/
def Keeps (entryCrc : EntryCrc) : Prop :=
  patch.refused ∨
    (patch.partitions = 0 ∧ KeepsCrcs entryCrc patch.data patch.fields patch.blockSize) ∨
    (patch.partitions ≠ 0 ∧ HeaderCovered patch.settled patch.blockSize ∧
      patch.EntriesCovered entryCrc)

variable {patch}

theorem behind_fields :
    patch.fields.behind patch.blockSize =
      putLongLong
        (putLongLong (patch.data.behind patch.blockSize) backupHeaderOffset patch.backupLba)
        lastUsableLbaOffset patch.usableLba := by
  rw [fields, putLongLong_behind, putLongLong_behind]

theorem sameShape_fields :
    SameShape (patch.data.behind patch.blockSize) (patch.fields.behind patch.blockSize) := by
  rw [behind_fields]
  exact (sameShape_putLongLong (.inl rfl)).trans (sameShape_putLongLong (.inr rfl))

/-- The last partition lies behind the block of the header. -/
theorem settled_header {i : Nat} (within : i < patch.blockSize) :
    patch.settled (patch.blockSize + i) = patch.fields (patch.blockSize + i) := by
  rw [settled]
  split
  · exact Memory.write_of_lt _ (by rw [lastPart]; omega)
  · rfl

theorem sameShape_settled (blocks : 512 ≤ patch.blockSize) :
    SameShape (patch.data.behind patch.blockSize) (patch.settled.behind patch.blockSize) := by
  have same : ∀ at_ length, at_ + length ≤ 512 →
      (patch.settled.behind patch.blockSize).read at_ length =
        (patch.fields.behind patch.blockSize).read at_ length :=
    fun at_ length within =>
      Memory.read_congr _ fun i inside => settled_header (by omega)
  refine sameShape_fields.trans ⟨?_, ?_, ?_, ?_⟩
  · exact congrArg leValue (same headerSizeOffset 4 (by decide))
  · exact congrArg leValue (same partitionCountOffset 4 (by decide))
  · exact congrArg leValue (same pentrySizeOffset 4 (by decide))
  · exact congrArg leValue (same partitionEntriesOffset 8 (by decide))

/-- The checksums are written to the header. -/
theorem patchCrcs_behind_header (blocks : 512 ≤ patch.blockSize) {address : Nat}
    (behind : 2 * patch.blockSize ≤ address) :
    patchCrcs patch.settled patch.blockSize (2 * patch.blockSize) address =
      patch.settled address := by
  have past : ∀ at_, at_ ≤ 88 → ∀ value,
      patch.blockSize + at_ + (leBytes 4 value).length ≤ address := by
    intro at_ low value
    rw [length_leBytes]
    omega
  rw [patchCrcs]
  exact (Memory.write_of_ge _ (past 16 (by decide) _)).trans
    ((Memory.write_of_ge _ (past 16 (by decide) _)).trans
      (Memory.write_of_ge _ (past 88 (by decide) _)))

/-- The last LBA that is given to a partition is the usable one. -/
theorem result_usable (blocks : 512 ≤ patch.blockSize) :
    ∀ entry ∈ patch.patched, getLlword patch.result (entry + lastLbaOffset) ≤
      getLlword patch.result (patch.blockSize + lastUsableLbaOffset) := by
  intro entry member
  rw [patched] at member
  split at member
  case isTrue taken =>
    obtain ⟨accepted, some_, takes⟩ := taken
    have result : patch.result =
        patchCrcs patch.settled patch.blockSize (2 * patch.blockSize) := by
      rw [HeaderPatch.result, if_neg (by rw [accepted]; exact Bool.false_ne_true), if_neg some_]
    have last : 2 * patch.blockSize ≤ patch.lastPart := Nat.le_add_right _ _
    have ends : getLlword patch.result (patch.lastPart + lastLbaOffset) = patch.usableLba := by
      have same : getLlword patch.result (patch.lastPart + lastLbaOffset) =
          getLlword patch.settled (patch.lastPart + lastLbaOffset) := by
        rw [result]
        refine congrArg leValue (Memory.read_congr _ fun i _ => ?_)
        exact patchCrcs_behind_header blocks (by omega)
      rw [same, settled, if_pos takes, getLlword_putLongLong _ patch.usable_lt]
    have usable : getLlword patch.result (patch.blockSize + lastUsableLbaOffset) =
        patch.usableLba := by
      have header : getLlword patch.settled (patch.blockSize + lastUsableLbaOffset) =
          getLlword patch.fields (patch.blockSize + lastUsableLbaOffset) := by
        refine congrArg leValue (Memory.read_congr _ fun i inside => ?_)
        rw [Nat.add_assoc]
        exact settled_header (by rw [lastUsableLbaOffset]; omega)
      rw [result, ← getLlword_behind, behind_patchCrcs, withHeaderCrc,
        getLlword_putLong_apart _ (by decide), getLlword_putLong_apart _ (by decide),
        getLlword_putLong_apart _ (by decide), getLlword_behind, header, fields,
        getLlword_putLongLong _ patch.usable_lt]
    rw [List.mem_singleton.mp member, ends, usable]
  case isFalse => cases member

variable {entryCrc : EntryCrc}

/-- A patch keeps an accepted table valid under its condition, and under no other. -/
theorem patchedValid_iff
    (accepted : CrcsValidate entryCrc patch.data patch.blockSize)
    (blocks : 512 ≤ patch.blockSize)
    (local_ : ∀ (memory other : Memory) (start length : Nat), 2 * patch.blockSize ≤ start →
      (∀ address, 2 * patch.blockSize ≤ address → memory address = other address) →
        entryCrc memory start length = entryCrc other start length) :
    PatchedValid entryCrc patch.result patch.blockSize patch.patched ↔ patch.Keeps entryCrc := by
  have valid_iff : PatchedValid entryCrc patch.result patch.blockSize patch.patched ↔
      CrcsValidate entryCrc patch.result patch.blockSize :=
    ⟨fun valid => valid.toCrcsValidate, fun valid => ⟨valid, result_usable blocks⟩⟩
  rw [valid_iff, Keeps]
  cases refused : patch.refused with
  | true =>
      rw [result, refused, if_pos rfl]
      exact ⟨fun _ => .inl rfl, fun _ => accepted⟩
  | false =>
      by_cases none_ : patch.partitions = 0
      · have headerCrc : getLword (patch.fields.behind patch.blockSize) headerCrcOffset =
            getLword (patch.data.behind patch.blockSize) headerCrcOffset := by
          rw [behind_fields, getLword_putLongLong_apart _ (by decide),
            getLword_putLongLong_apart _ (by decide)]
        have entriesCrc : getLword (patch.fields.behind patch.blockSize) partitionCrcOffset =
            getLword (patch.data.behind patch.blockSize) partitionCrcOffset := by
          rw [behind_fields, getLword_putLongLong_apart _ (by decide),
            getLword_putLongLong_apart _ (by decide)]
        rw [result, refused, if_neg Bool.false_ne_true, if_pos none_,
          crcsValidate_fields_iff accepted sameShape_fields headerCrc entriesCrc]
        constructor
        · exact fun keeps => .inr (.inl ⟨none_, keeps⟩)
        · rintro (absurd_ | ⟨-, keeps⟩ | ⟨some_, -⟩)
          · cases absurd_
          · exact keeps
          · exact absurd none_ some_
      · have result : patch.result =
            patchCrcs patch.settled patch.blockSize (2 * patch.blockSize) := by
          rw [HeaderPatch.result, refused, if_neg Bool.false_ne_true, if_neg none_]
        have read : ∀ start length, entryCrc
              (if 2 * patch.blockSize ≤ start then patch.settled else patch.result) start length =
            entryCrc patch.result start length := by
          intro start length
          split
          case isTrue behind =>
            refine local_ _ _ start length behind fun address past => ?_
            rw [result, patchCrcs_behind_header blocks past]
          case isFalse => rfl
        rw [EntriesCovered, read, result,
          crcsValidate_patchCrcs_iff accepted (sameShape_settled blocks)]
        constructor
        · exact fun both => .inr (.inr ⟨none_, both⟩)
        · rintro (absurd_ | ⟨none', -⟩ | ⟨-, both⟩)
          · cases absurd_
          · exact absurd none' none_
          · exact both

end HeaderPatch

theorem crcsValidate_of_checkGptHeader {header : Memory} {bufferLen lbaNum : Nat}
    {info : GptHeaderInfo} (size : info.headerSize = getLword header headerSizeOffset)
    (checked : checkGptHeader header bufferLen lbaNum info = true) :
    HeaderCrcValidates header bufferLen := by
  simp only [checkGptHeader, Bool.and_eq_true, decide_eq_true_eq] at checked
  obtain ⟨⟨⟨⟨⟨⟨⟨⟨⟨-, -⟩, least⟩, most⟩, crc⟩, -⟩, -⟩, -⟩, -⟩, -⟩ := checked
  rw [size] at least most crc
  exact ⟨least, most, crc⟩

theorem getPartitionGptHeaderInfo_some {header : Memory} {bufferLen : Nat} {info : GptHeaderInfo}
    (read : getPartitionGptHeaderInfo header bufferLen = some info) :
    512 ≤ bufferLen ∧ info.headerSize = getLword header headerSizeOffset ∧
      info.maxPartitionCount = getLword header partitionCountOffset ∧
      info.partitionEntrySize = getLword header pentrySizeOffset := by
  rw [getPartitionGptHeaderInfo] at read
  split at read
  · cases read
  · rename_i long
    split at read
    · cases read
    · cases read
      exact ⟨Nat.le_of_not_lt fun short => long (.inl short), rfl, rfl, rfl⟩

namespace UfsPtable

variable (ptable : UfsPtable) (info : UfsPartitionDataInfo)

theorem lastUsableSector_lt (cardSizeSector : Nat) :
    ptable.lastUsableSector cardSizeSector < 2 ^ 64 := by
  rw [lastUsableSector]
  have bound := sub64_lt cardSizeSector
    (1 + if ptable.hasBackupPtable then gptPtableBackupSize else 0)
  generalize sub64 cardSizeSector _ = last at bound ⊢
  split
  · exact Nat.lt_of_le_of_lt (Nat.sub_le last _) bound
  · exact bound

/-- `UfsPatchGptHeader` with the block size of the device. -/
def headerPatch : HeaderPatch :=
  let blockSize := ptable.ptableData.blockSize
  let sectors := info.lunSize / blockSize
  let cardSizeSector := if sectors = 0 then defaultSectorNum else sectors
  let lastUsable := ptable.lastUsableSector cardSizeSector
  let fields := putLongLong
    (putLongLong info.data (blockSize + backupHeaderOffset) (sub64 cardSizeSector 1))
    (blockSize + lastUsableLbaOffset) lastUsable
  let total := totalPart fields (2 * blockSize)
    ((tmpDataSize - 2 * blockSize + partitionEntrySize - 1) / partitionEntrySize) 0
  let lastPartOffset := 2 * blockSize + (total - 1) * partitionEntrySize
  let lastLba := getLlword fields (lastPartOffset + lastLbaOffset)
  let firstLba := getLlword fields (lastPartOffset + firstLbaOffset)
  { data := info.data
    blockSize
    refused := blockSize = 0 ∨ info.writeDataLen < 2 * blockSize ∨ info.lunSize = 0
    backupLba := sub64 cardSizeSector 1
    usableLba := lastUsable
    partitions := total
    takesRest :=
      parsePartitionName fields (lastPartOffset + gptPartitionNameOffset) = userdataPartition ∨
        (total = 1 ∧ (sub64 lastLba firstLba + 1) * blockSize % 2 ^ 64 = 0)
    usable_lt := ptable.lastUsableSector_lt cardSizeSector }

theorem ufsPatchGptHeader_eq :
    (ptable.ufsPatchGptHeader info ptable.ptableData.blockSize).data =
      (ptable.headerPatch info).result := by
  have same : (ptable.ptableData.blockSize = 0 ∨
      info.writeDataLen < 2 * ptable.ptableData.blockSize ∨ info.lunSize = 0 ∨
        ptable.ptableData.blockSize = 0) ↔ (ptable.headerPatch info).refused = true := by
    rw [headerPatch, decide_eq_true_iff]
    omega
  by_cases refused : (ptable.headerPatch info).refused = true
  · rw [ufsPatchGptHeader, if_pos (same.mpr refused), HeaderPatch.result, if_pos refused]
    rfl
  · rw [ufsPatchGptHeader, if_neg fun held => refused (same.mp held), HeaderPatch.result,
      if_neg refused]
    dsimp only
    by_cases none_ : (ptable.headerPatch info).partitions = 0
    · rw [if_pos none_]
      rw [headerPatch] at none_
      rw [if_pos none_]
      rfl
    · rw [if_neg none_]
      rw [headerPatch] at none_
      rw [if_neg none_, HeaderPatch.settled, patchLastPartition, headerPatch]
      simp only [decide_eq_true_eq]
      rfl

/-- `GetGptEntryCrc` of a lun and an image of so many bytes. -/
def entryCrc (len lun : Nat) : EntryCrc := fun image start length =>
  ptable.getGptEntryCrc image len lun start length

variable {ptable info} {len lun : Nat}

theorem accepted_validates
    (accepted : ptable.parseGptHeaderByUfsLun info.data len lun ptable.ptableData.blockSize = true) :
    512 ≤ ptable.ptableData.blockSize ∧
      CrcsValidate (ptable.entryCrc len lun) info.data ptable.ptableData.blockSize := by
  rw [parseGptHeaderByUfsLun] at accepted
  split at accepted
  case h_1 => cases accepted
  case h_2 headerInfo read =>
    obtain ⟨blocks, size, count, entrySize⟩ := getPartitionGptHeaderInfo_some read
    split at accepted
    · cases accepted
    · dsimp only at accepted
      rw [partitionCheckGptHeader] at accepted
      split at accepted
      · cases accepted
      · dsimp only at accepted
        split at accepted
        · cases accepted
        · rename_i checked
          refine ⟨blocks, crcsValidate_of_checkGptHeader size (by simpa using checked), ?_⟩
          rw [decide_eq_true_iff, count, entrySize] at accepted
          exact accepted

theorem entryCrc_local (memory other : Memory) (start length : Nat)
    (same : ∀ address, 2 * ptable.ptableData.blockSize ≤ address → memory address = other address) :
    ptable.entryCrc len lun memory start length = ptable.entryCrc len lun other start length := by
  rw [entryCrc, entryCrc, getGptEntryCrc, getGptEntryCrc]
  split
  case isTrue place =>
    have read : memory.read start length = other.read start length := by
      refine Memory.read_congr _ fun i _ => same _ ?_
      rw [place, defaultEntryOffset]
      omega
    rw [read]
  case isFalse => rfl

end UfsPtable

namespace EmmcPtable

variable (ptable : EmmcPtable) (data : Memory) (writeDataLen : Nat)

/-- `EmmcPatchGptHeader` with the block size of the device. -/
def headerPatch : HeaderPatch :=
  let fields := ptable.patchFields data emmcBlockSize
  let total := totalPart fields emmcBlockSize
  let lastPartOffset := 2 * emmcBlockSize + (total - 1) * partitionEntrySize
  let lastLba := getLlword fields (lastPartOffset + lastLbaOffset)
  let firstLba := getLlword fields (lastPartOffset + firstLbaOffset)
  { data
    blockSize := emmcBlockSize
    refused := emmcBlockSize = 0 ∨ writeDataLen < 2 * emmcBlockSize
    backupLba := ptable.lastSector
    usableLba := ptable.lastSector
    partitions := total
    takesRest :=
      parsePartitionName fields (lastPartOffset + gptPartitionNameOffset) = userdataPartition ∨
        (total = 1 ∧ (sub64 lastLba firstLba + 1) * emmcBlockSize % 2 ^ 64 = 0)
    usable_lt := sub64_lt _ _ }

theorem emmcPatchGptHeader_eq :
    ptable.emmcPatchGptHeader data writeDataLen emmcBlockSize =
      (ptable.headerPatch data writeDataLen).result := by
  have same : (emmcBlockSize = 0 ∨ writeDataLen < 2 * emmcBlockSize) ↔
      (ptable.headerPatch data writeDataLen).refused = true := by
    rw [headerPatch, decide_eq_true_iff]
  by_cases refused : (ptable.headerPatch data writeDataLen).refused = true
  · rw [emmcPatchGptHeader, if_pos (same.mpr refused), HeaderPatch.result, if_pos refused]
    rfl
  · rw [emmcPatchGptHeader, if_neg fun held => refused (same.mp held), HeaderPatch.result,
      if_neg refused]
    dsimp only
    by_cases none_ : (ptable.headerPatch data writeDataLen).partitions = 0
    · rw [if_pos none_]
      rw [headerPatch] at none_
      rw [if_pos none_]
      rfl
    · rw [if_neg none_]
      rw [headerPatch] at none_
      rw [if_neg none_, HeaderPatch.settled, patchLastPartition, headerPatch]
      simp only [decide_eq_true_eq]
      rfl

variable {ptable data} {len : Nat}

theorem accepted_validates (accepted : ptable.parseGptHeaderByEmmc data len = true) :
    CrcsValidate (getGptEntryCrc · len) data emmcBlockSize := by
  rw [parseGptHeaderByEmmc] at accepted
  split at accepted
  case h_1 => cases accepted
  case h_2 headerInfo read =>
    obtain ⟨-, size, count, entrySize⟩ := getPartitionGptHeaderInfo_some read
    rw [partitionCheckGptHeader] at accepted
    split at accepted
    · cases accepted
    · dsimp only at accepted
      split at accepted
      · cases accepted
      · rename_i checked
        refine ⟨crcsValidate_of_checkGptHeader size (by simpa using checked), ?_⟩
        rw [decide_eq_true_iff, count, entrySize] at accepted
        exact accepted

end EmmcPtable

theorem getGptEntryCrc_local {len : Nat} (memory other : Memory) (start length : Nat)
    (behind : 2 * emmcBlockSize ≤ start)
    (same : ∀ address, 2 * emmcBlockSize ≤ address → memory address = other address) :
    getGptEntryCrc memory len start length = getGptEntryCrc other len start length := by
  have read : memory.read start length = other.read start length :=
    Memory.read_congr _ fun i _ => same _ (by omega)
  rw [getGptEntryCrc, getGptEntryCrc, read]

/-- A table whose header was accepted still validates behind the patch of its header if and only if
the patch keeps its checksums, on UFS and on eMMC devices. -/
theorem patchGptHeader_valid_iff (ufs : UfsPtable) (info : UfsPartitionDataInfo)
    (ufsLen lun : Nat) (emmc : EmmcPtable) (data : Memory) (writeDataLen emmcLen : Nat) :
    (ufs.parseGptHeaderByUfsLun info.data ufsLen lun ufs.ptableData.blockSize = true →
      (PatchedValid (ufs.entryCrc ufsLen lun)
          (ufs.ufsPatchGptHeader info ufs.ptableData.blockSize).data
          ufs.ptableData.blockSize (ufs.headerPatch info).patched ↔
        (ufs.headerPatch info).Keeps (ufs.entryCrc ufsLen lun))) ∧
      (emmc.parseGptHeaderByEmmc data emmcLen = true →
        (PatchedValid (getGptEntryCrc · emmcLen)
            (emmc.emmcPatchGptHeader data writeDataLen emmcBlockSize) emmcBlockSize
            (emmc.headerPatch data writeDataLen).patched ↔
          (emmc.headerPatch data writeDataLen).Keeps (getGptEntryCrc · emmcLen))) := by
  constructor
  · intro accepted
    obtain ⟨blocks, validates⟩ := UfsPtable.accepted_validates accepted
    rw [UfsPtable.ufsPatchGptHeader_eq]
    exact (ufs.headerPatch info).patchedValid_iff validates blocks
      fun memory other start length _ => UfsPtable.entryCrc_local memory other start length
  · intro accepted
    rw [EmmcPtable.emmcPatchGptHeader_eq]
    exact (emmc.headerPatch data writeDataLen).patchedValid_iff
      (EmmcPtable.accepted_validates accepted) (Nat.le_refl 512) getGptEntryCrc_local

/-- A header of a given size over one entry, with its checksum and the one of the entry. -/
def smallHeader (headerSize headerCrc entryCrc : Nat) : Bytes :=
  leBytes 8 efiMagicNumber ++ leBytes 4 0 ++ leBytes 4 headerSize ++ leBytes 8 headerCrc ++
    leBytes 8 1 ++ leBytes 16 0 ++ leBytes 8 50 ++ leBytes 16 0 ++ leBytes 8 2 ++ leBytes 4 1 ++
    leBytes 4 partitionEntrySize ++ leBytes 4 entryCrc

/-- The table with this header, and with an entry whose first byte is given. -/
def smallTable (header : Bytes) (entryByte : UInt8) : Memory := fun address =>
  if address < emmcBlockSize then 0
  else if address < 2 * emmcBlockSize then header.getD (address - emmcBlockSize) 0
  else if address = 2 * emmcBlockSize then entryByte
  else 0

/-- A table without partitions. -/
def emptyTable : Memory :=
  smallTable (smallHeader 92 0xa2932984 0xc2a8fa9d) 0

/-- A table of one partition with a header of a hundred bytes. -/
def longTable : Memory :=
  smallTable (smallHeader 100 0x43067836 0xf1570fae) 1

def smallEmmc : EmmcPtable where
  capacity := 100 * 512
  writeDeviceLunSize := 2048
  emmcGptDataLen := 2048

def smallUfs : UfsPtable where
  ptableData :=
    { emmcGptDataLen := 0
      lbaLen := 512
      gptHeaderLen := 512
      blockSize := 512
      imgLuSize := 32768
      startLunNumber := 0
      writeDeviceLunSize := 2048
      wholeMbr := sector_wholeMbr
      inBuffer := sector_inBuffer }
  hasBackupPtable := false
  reservedSize := 0
  isVabDevice := false
  isUpdaterMode := true
  lunOffset := fun _ => 0
  updateSlot := 0
  curSlot := 0
  nodeExists := fun _ => true
  removable := fun _ => false
  capacity := fun _ => 100 * 512
  memRead := fun _ _ _ => none

def smallLun : UfsPartitionDataInfo where
  isGptValid := true
  lunIndex := 0
  lunSize := 100 * 512
  writeDataLen := 2048
  data := longTable

set_option maxRecDepth 20000 in
theorem longTable_accepted : smallEmmc.parseGptHeaderByEmmc longTable 2048 = true := by
  decide +kernel

set_option maxRecDepth 20000 in
theorem longTable_valid_iff :
    (PatchedValid (smallUfs.entryCrc 2048 0)
        (smallUfs.ufsPatchGptHeader smallLun smallUfs.ptableData.blockSize).data
        smallUfs.ptableData.blockSize (smallUfs.headerPatch smallLun).patched ↔
      (smallUfs.headerPatch smallLun).Keeps (smallUfs.entryCrc 2048 0)) ∧
    (PatchedValid (getGptEntryCrc · 2048)
        (smallEmmc.emmcPatchGptHeader longTable 2048 emmcBlockSize) emmcBlockSize
        (smallEmmc.headerPatch longTable 2048).patched ↔
      (smallEmmc.headerPatch longTable 2048).Keeps (getGptEntryCrc · 2048)) :=
  have both := patchGptHeader_valid_iff smallUfs smallLun 2048 0 smallEmmc longTable 2048 2048
  ⟨both.1 (by decide +kernel), both.2 longTable_accepted⟩

set_option maxRecDepth 20000 in
/-- Without a partition, and with a header of more than 92 bytes, an accepted table has a stale
checksum behind the patch. -/
theorem emptyTable_stale :
    (smallEmmc.parseGptHeaderByEmmc emptyTable 2048 = true ∧
      ¬PatchedValid (getGptEntryCrc · 2048)
        (smallEmmc.emmcPatchGptHeader emptyTable 2048 emmcBlockSize) emmcBlockSize
        (smallEmmc.headerPatch emptyTable 2048).patched) ∧
      smallEmmc.parseGptHeaderByEmmc longTable 2048 = true ∧
      ¬PatchedValid (getGptEntryCrc · 2048)
        (smallEmmc.emmcPatchGptHeader longTable 2048 emmcBlockSize) emmcBlockSize
        (smallEmmc.headerPatch longTable 2048).patched := by
  refine ⟨⟨by decide +kernel, fun valid => ?_⟩, longTable_accepted, fun valid => ?_⟩
  · exact absurd valid.header.2.2 (by decide +kernel)
  · exact absurd valid.header.2.2 (by decide +kernel)

end Updater.PtableParse
