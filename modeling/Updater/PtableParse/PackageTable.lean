import Updater.PtableParse.EmmcEdit
import Updater.PtableParse.PtableProcess

/-! The table of the last package is the one that the device has afterwards, and no update but one
from an SD card moves the user data. -/

set_option autoImplicit false

namespace Updater.PtableParse

open Updater.Base UfsPtable

section Same

variable {memory other : Memory}

theorem emmcPartitionAt_congr {offset : Nat}
    (same : ∀ i < partitionEntrySize, memory (offset + i) = other (offset + i)) :
    emmcPartitionAt memory offset = emmcPartitionAt other offset := by
  have field : ∀ at_, at_ + 8 ≤ partitionEntrySize →
      getLlword memory (offset + at_) = getLlword other (offset + at_) := fun at_ fits =>
    getLlword_congr fun i within => by
      rw [Nat.add_assoc]
      exact same (at_ + i) (by omega)
  have guid : memory.read offset 16 = other.read offset 16 :=
    memory.read_congr fun i within => same i (Nat.lt_trans within (by decide))
  have name : emmcPartitionName memory (offset + gptPartitionNameOffset) =
      emmcPartitionName other (offset + gptPartitionNameOffset) := by
    have bytes : (List.range gptDispNameLen).map
          (fun n => memory (offset + gptPartitionNameOffset + 2 * n)) =
        (List.range gptDispNameLen).map
          fun n => other (offset + gptPartitionNameOffset + 2 * n) := by
      refine List.map_congr_left fun n within => ?_
      have within : n < 32 := List.mem_range.mp within
      rw [Nat.add_assoc]
      refine same _ ?_
      rw [gptPartitionNameOffset, partitionEntrySize]
      omega
    rw [emmcPartitionName, emmcPartitionName, bytes]
  rw [emmcPartitionAt, emmcPartitionAt, field firstLbaOffset (by decide),
    field lastLbaOffset (by decide), guid, name]

theorem emmcReadEntries_congr {left offset : Nat}
    (same : ∀ i < offset + left * partitionEntrySize, memory i = other i) :
    emmcReadEntries memory left offset = emmcReadEntries other left offset := by
  induction left generalizing offset with
  | zero => rfl
  | succ left ih =>
      rw [Nat.succ_mul] at same
      have first : emmcPartitionAt memory offset = emmcPartitionAt other offset :=
        emmcPartitionAt_congr fun i within => same _ (by omega)
      rw [emmcReadEntries, emmcReadEntries, first, ih fun i within => same i (by omega)]

end Same

section Reload

variable {ptable : EmmcPtable} {data other : Memory} {len : Nat}

/-- The entries that the header of a table counts are in the buffer. -/
def EntriesInside (header : Memory) : Prop :=
  checkedStart header emmcBlockSize + checkedLength header ≤ gptPartitionSize

instance (header : Memory) : Decidable (EntriesInside header) :=
  inferInstanceAs (Decidable (_ ≤ _))

/-- A table that was accepted is accepted again where it is read from. -/
theorem parseGptHeaderByEmmc_of_same (lun : ptable.writeDeviceLunSize ≤ gptPartitionSize)
    (long : gptPartitionSize ≤ len) (inside : EntriesInside (data.behind emmcBlockSize))
    (same : ∀ i < gptPartitionSize, other i = data i)
    (accepted : ptable.parseGptHeaderByEmmc data len = true) :
    ptable.parseGptHeaderByEmmc other gptPartitionSize = true := by
  have header : ∀ i < lbaLength, other.behind emmcBlockSize i = data.behind emmcBlockSize i :=
    fun i within => same _ (by simp only [lbaLength, emmcBlockSize, gptPartitionSize] at *; omega)
  have size : gptPartitionSize = 131072 := rfl
  have block : emmcBlockSize = 512 := rfl
  rw [EmmcPtable.parseGptHeaderByEmmc] at accepted ⊢
  rw [getPartitionGptHeaderInfo_congr header]
  cases read : getPartitionGptHeaderInfo (data.behind emmcBlockSize) emmcBlockSize with
  | none => rw [read] at accepted; exact absurd accepted Bool.false_ne_true
  | some info =>
      rw [read] at accepted
      obtain ⟨-, -, count, entrySize⟩ := getPartitionGptHeaderInfo_some read
      dsimp only at accepted ⊢
      rw [EmmcPtable.partitionCheckGptHeader] at accepted ⊢
      split at accepted
      · exact absurd accepted Bool.false_ne_true
      · rename_i sizes
        rw [not_or, not_or] at sizes
        rw [if_neg (by rw [not_or, not_or]; exact ⟨by omega, sizes.2.1, by omega⟩)]
        dsimp only at accepted ⊢
        split at accepted
        · exact absurd accepted Bool.false_ne_true
        · rename_i checked
          have checked := checkGptHeader_congr header (Bool.eq_true_of_not_eq_false checked)
          have start := getLlword_header header
            (by decide : partitionEntriesOffset + 8 ≤ lbaLength)
          have crc := getLword_header header (by decide : partitionCrcOffset + 4 ≤ lbaLength)
          rw [if_neg (by rw [block] at *; rw [lbaLength] at checked; rw [checked]; decide), start, crc]
          rw [decide_eq_true_iff] at accepted ⊢
          rw [EntriesInside, checkedStart, checkedLength, ← count, ← entrySize] at inside
          have whole := Nat.mod_eq_of_lt (a := getLlword (data.behind emmcBlockSize)
            partitionEntriesOffset % 2 ^ 32 * emmcBlockSize % 2 ^ 32 +
            info.maxPartitionCount * info.partitionEntrySize % 2 ^ 32) (b := 2 ^ 32) (by omega)
          rw [getGptEntryCrc, whole, if_neg (by omega)] at accepted ⊢
          rw [← accepted]
          exact congrArg _ (Memory.read_congr _ fun i within => same _ (by omega))

theorem loadPtableFromDevice_eq (mbr : checkProtectiveMbr data emmcBlockSize = true)
    (magic : checkIfValidGpt (data.behind emmcBlockSize) emmcBlockSize = true) :
    ptable.loadPtableFromDevice data = ptable.emmcReadGpt data gptPartitionSize := by
  rw [EmmcPtable.loadPtableFromDevice, if_neg]
  simp [mbr, magic]

theorem checkProtectiveMbr_congr {room : Nat} (same : ∀ i < lbaLength, other i = data i)
    (checked : checkProtectiveMbr data room = true) :
    checkProtectiveMbr other lbaLength = true := by
  simp only [checkProtectiveMbr, Bool.and_eq_true, decide_eq_true_eq, List.any_eq_true,
    List.mem_range] at checked ⊢
  obtain ⟨⟨⟨-, low⟩, high⟩, i, four, -, type⟩ := checked
  refine ⟨⟨⟨by decide, ?_⟩, ?_⟩, i, four, ?_, ?_⟩
  · rw [same _ (by decide)]
    exact low
  · rw [same _ (by decide)]
    exact high
  · rw [lbaLength]
    omega
  · rw [same _ (by rw [lbaLength]; omega)]
    exact type

end Reload

namespace HeaderPatch

variable {patch : HeaderPatch}

/-- The patch begins behind the signature of the header. -/
theorem result_low {address : Nat} (low : address < patch.blockSize + headerCrcOffset) :
    patch.result address = patch.data address := by
  have before {memory : Memory} {start value : Nat} (behind : patch.blockSize + headerCrcOffset ≤ start) :
      putLong memory start value address = memory address :=
    Memory.write_of_lt _ (Nat.lt_of_lt_of_le low behind)
  have before' {memory : Memory} {start value : Nat}
      (behind : patch.blockSize + headerCrcOffset ≤ start) :
      putLongLong memory start value address = memory address :=
    Memory.write_of_lt _ (Nat.lt_of_lt_of_le low behind)
  have crc : headerCrcOffset = 16 := rfl
  have fields : patch.fields address = patch.data address := by
    rw [HeaderPatch.fields, before' (by rw [lastUsableLbaOffset]; omega),
      before' (by rw [backupHeaderOffset]; omega)]
  have settled : patch.settled address = patch.fields address := by
    rw [HeaderPatch.settled]
    split
    · exact Memory.write_of_lt _ (by rw [lastPart, lastLbaOffset]; omega)
    · rfl
  rw [result]
  split
  · rfl
  · split
    · exact fields
    · rw [patchCrcs, before (Nat.le_refl _), before (Nat.le_refl _),
        before (by rw [partitionCrcOffset]; omega), settled, fields]

theorem sameShape_result (blocks : 512 ≤ patch.blockSize) :
    SameShape (patch.data.behind patch.blockSize) (patch.result.behind patch.blockSize) := by
  rw [result]
  split
  · exact ⟨rfl, rfl, rfl, rfl⟩
  · split
    · exact sameShape_fields
    · rw [behind_patchCrcs, withHeaderCrc]
      exact (sameShape_settled blocks).trans ((sameShape_putLong (.inr rfl)).trans
        ((sameShape_putLong (.inl rfl)).trans (sameShape_putLong (.inl rfl))))

end HeaderPatch

section Parsed

variable {ptable : EmmcPtable} {images : EmmcImages} {gptImage data device : Memory} {len : Nat}
  {table : List PtnInfo}

/-- The image of a package in the layout of the device, before its header is patched. -/
def deviceLayout (images : EmmcImages) (gptImage : Memory) : Memory :=
  (((Memory.write (fun _ => 0) 0 (gptImage.read 0 images.lbaLen)).write emmcBlockSize
    ((gptImage.behind images.lbaLen).read 0 images.lbaLen)).write (2 * emmcBlockSize)
      (gptImage.read (lbaLength + lbaLength) (gptPartitionSize - 2 * emmcBlockSize)))

theorem deviceLayout_mbr {i : Nat} (within : i < lbaLength) :
    deviceLayout images gptImage i = gptImage i := by
  have whole := images.wholeBlock
  have block : emmcBlockSize = lbaLength := rfl
  have inside : i < images.lbaLen := Nat.lt_of_lt_of_le within whole
  rw [deviceLayout, Memory.write_of_lt _ (by omega), Memory.write_of_lt _ (by omega)]
  have byte := @Memory.write_read_within (fun _ => 0) gptImage 0 0 images.lbaLen i inside
  simpa only [Nat.zero_add] using byte

theorem deviceLayout_header {i : Nat} (within : i < lbaLength) :
    (deviceLayout images gptImage).behind emmcBlockSize i = gptImage.behind images.lbaLen i := by
  have inside : i < images.lbaLen := Nat.lt_of_lt_of_le within images.wholeBlock
  have block : emmcBlockSize = lbaLength := rfl
  rw [Memory.behind, deviceLayout, Memory.write_of_lt _ (by omega), Memory.write_read_within _ _ inside,
    Nat.zero_add]

/-- What `ParsePartitionFromBuffer` has checked and done. -/
theorem parsed_cases
    (parsed : ptable.updateCommInitializeGptPartition images gptImage len = some (data, table)) :
    gptPartitionSize ≤ len ∧ checkProtectiveMbr gptImage images.lbaLen = true ∧
      checkIfValidGpt (gptImage.behind images.lbaLen) images.lbaLen = true ∧
      data = (ptable.headerPatch (deviceLayout images gptImage) len).result ∧
      ptable.emmcReadGpt data len = some table := by
  rw [EmmcPtable.updateCommInitializeGptPartition] at parsed
  dsimp only at parsed
  split at parsed
  · cases parsed
  · rename_i long
    split at parsed
    · cases parsed
    · rename_i checks
      split at parsed
      · cases parsed
      · rw [EmmcPtable.emmcPatchGptHeader_eq] at parsed
        obtain ⟨found, read, same⟩ := Option.map_eq_some_iff.mp parsed
        obtain ⟨rfl, rfl⟩ := Prod.mk.inj same
        obtain ⟨mbr, magic⟩ := not_or.mp checks
        exact ⟨Nat.le_of_not_lt long, Bool.eq_true_of_not_eq_false mbr,
          Bool.eq_true_of_not_eq_false magic, rfl, read⟩

theorem emmcReadGpt_cases {ptable : EmmcPtable} {data : Memory} {len : Nat} {table : List PtnInfo} :
    ptable.emmcReadGpt data len = some table ↔
      ptable.parseGptHeaderByEmmc data len = true ∧
        emmcReadEntries data maxPartitionNum (2 * emmcBlockSize) = table ∧ table ≠ [] := by
  rw [EmmcPtable.emmcReadGpt]
  cases accepted : ptable.parseGptHeaderByEmmc data len with
  | false => simp
  | true =>
      cases entries : emmcReadEntries data maxPartitionNum (2 * emmcBlockSize) with
      | nil => simp [eq_comm]
      | cons first rest =>
          simp only [Bool.true_eq_false, if_false, Option.some_inj, true_and]
          exact ⟨fun same => ⟨same, same ▸ List.cons_ne_nil _ _⟩, fun both => both.1⟩

variable (parsed : ptable.updateCommInitializeGptPartition images gptImage len = some (data, table))
include parsed

/-- What is written is read again as an acceptable block with the same entries. -/
theorem written_loads {other : Memory} (same : ∀ i < gptPartitionSize, other i = data i) :
    ptable.loadPtableFromDevice other = ptable.emmcReadGpt other gptPartitionSize ∧
      emmcReadEntries other maxPartitionNum (2 * emmcBlockSize) = table := by
  obtain ⟨-, mbr, magic, layout, read⟩ := parsed_cases parsed
  have size : gptPartitionSize = 131072 := rfl
  have block : lbaLength = 512 := rfl
  have low : ∀ i < emmcBlockSize + headerCrcOffset, other i = deviceLayout images gptImage i := by
    intro i within
    have near : emmcBlockSize + headerCrcOffset = 528 := rfl
    rw [same i (by omega), layout]
    exact HeaderPatch.result_low within
  constructor
  · refine loadPtableFromDevice_eq ?_ ?_
    · exact checkProtectiveMbr_congr (fun i within => (low i (Nat.lt_trans within (by decide))).trans
        (deviceLayout_mbr within)) mbr
    · have signature : getLlword (other.behind emmcBlockSize) 0 =
          getLlword (gptImage.behind images.lbaLen) 0 := by
        refine getLlword_congr fun i within => ?_
        rw [Nat.zero_add, ← deviceLayout_header (Nat.lt_trans within (by decide))]
        exact low _ (Nat.add_lt_add_left (Nat.lt_trans within (by decide)) _)
      rw [checkIfValidGpt, Bool.and_eq_true] at magic ⊢
      refine ⟨by decide, ?_⟩
      rw [signature]
      exact magic.2
  · rw [← (emmcReadGpt_cases.mp read).2.1]
    exact emmcReadEntries_congr fun i within => same i (Nat.lt_of_lt_of_le within (by decide))

/-- Where the image counts no entries behind the buffer, the whole table is accepted again. -/
theorem written_accepted (lun : ptable.writeDeviceLunSize ≤ gptPartitionSize)
    (inside : EntriesInside (gptImage.behind images.lbaLen)) {other : Memory}
    (same : ∀ i < gptPartitionSize, other i = data i) :
    ptable.loadPtableFromDevice other = some table := by
  obtain ⟨long, -, -, layout, read⟩ := parsed_cases parsed
  obtain ⟨accepted, -, some_⟩ := emmcReadGpt_cases.mp read
  obtain ⟨loads, entries⟩ := written_loads parsed same
  have header : ∀ i < lbaLength, (deviceLayout images gptImage).behind emmcBlockSize i =
      gptImage.behind images.lbaLen i := fun i within => deviceLayout_header within
  have shape : SameShape (gptImage.behind images.lbaLen)
      ((deviceLayout images gptImage).behind emmcBlockSize) :=
    ⟨getLword_header header (by decide), getLword_header header (by decide),
      getLword_header header (by decide), getLlword_header header (by decide)⟩
  have patched : SameShape ((deviceLayout images gptImage).behind emmcBlockSize)
      (data.behind emmcBlockSize) := by
    rw [layout]
    exact @HeaderPatch.sameShape_result (ptable.headerPatch (deviceLayout images gptImage) len)
      (Nat.le_refl 512)
  have shape := shape.trans patched
  rw [loads]
  refine emmcReadGpt_cases.mpr ⟨parseGptHeaderByEmmc_of_same lun long ?_ same accepted, entries, some_⟩
  rw [EntriesInside, shape.checkedStart, shape.checkedLength]
  exact inside

end Parsed

section Changes

/-- What `IsPtableChanged` compares. -/
def PtnInfo.place (info : PtnInfo) : Bytes × Nat × Nat :=
  (info.dispName, info.startAddr, info.partitionSize)

/-- Start and size of the user data, where a table has it. -/
def userdataPlace (table : List PtnInfo) : Option (Nat × Nat) :=
  (table.find? (·.dispName = userdataPartition)).map fun info => (info.startAddr, info.partitionSize)

variable {device package : List PtnInfo}

theorem comparePartitionInfo_eq_false {lhs rhs : PtnInfo} :
    comparePartitionInfo lhs rhs = false ↔
      lhs.startAddr = rhs.startAddr ∧ lhs.partitionSize = rhs.partitionSize := by
  simp [comparePartitionInfo]

theorem isPtableChanged_eq_false (some_ : package ≠ []) :
    isPtableChanged device package = false ↔
      device.map PtnInfo.place = package.map PtnInfo.place := by
  rw [isPtableChanged, if_neg some_]
  induction package generalizing device with
  | nil => exact absurd rfl some_
  | cons first package ih =>
      cases device with
      | nil => simp
      | cons own device =>
          have heads : own.place = first.place ↔ own.dispName = first.dispName ∧
              comparePartitionInfo own first = false := by
            rw [comparePartitionInfo_eq_false, PtnInfo.place, PtnInfo.place, Prod.mk.injEq,
              Prod.mk.injEq]
          cases package with
          | nil =>
              cases device with
              | nil => simp [heads]
              | cons second device => simp
          | cons next package =>
              have rest := @ih device (List.cons_ne_nil _ _)
              rw [List.map_cons, List.map_cons, List.cons.injEq, heads, ← rest]
              cases device with
              | nil => simp
              | cons second device =>
                  by_cases same : (next :: package).length = (second :: device).length
                  · have more : (first :: next :: package).length = (own :: second :: device).length :=
                      congrArg (· + 1) same
                    rw [if_neg (by simp [more]), if_neg (by simp [same])]
                    simp [and_assoc]
                  · have more : (first :: next :: package).length ≠ (own :: second :: device).length :=
                      fun equal => same (Nat.succ.inj equal)
                    rw [if_pos (.inr more), if_pos (.inr same)]
                    simp

/-- The index of a partition is where its name is found first. -/
theorem getPartitionInfoIndexByName_some {ptnInfo : List PtnInfo} {name : Bytes} {index : Nat}
    (found : getPartitionInfoIndexByName ptnInfo name = some index) :
    ptnInfo[index]? = ptnInfo.find? (·.dispName = name) := by
  rw [getPartitionInfoIndexByName] at found
  split at found
  · cases found
  · induction ptnInfo generalizing index with
    | nil => cases found
    | cons first rest ih =>
        rw [List.findIdx?_cons] at found
        by_cases same : first.dispName = name
        · rw [if_pos (by simpa using same)] at found
          obtain rfl := Option.some.inj found
          rw [List.find?_cons_of_pos (by simpa using same)]
          rfl
        · rw [if_neg (by simpa using same)] at found
          obtain ⟨before, later, rfl⟩ := Option.map_eq_some_iff.mp found
          rw [List.find?_cons_of_neg (by simpa using same), List.getElem?_cons_succ]
          cases rest with
          | nil => cases later
          | cons second rest =>
              exact ih (by simp_all) later

theorem userdataPlace_of_unchanged (some_ : package ≠ [])
    (unchanged : isPartitionChanged device package userdataPartition = false) :
    userdataPlace package = userdataPlace device := by
  rw [isPartitionChanged, if_neg some_] at unchanged
  split at unchanged
  · cases unchanged
  · split at unchanged
    · rename_i deviceIndex updateIndex ofDevice ofPackage
      split at unchanged
      · rename_i own update ownFound updateFound
        rw [getPartitionInfoIndexByName_some ofDevice] at ownFound
        rw [getPartitionInfoIndexByName_some ofPackage] at updateFound
        obtain ⟨start, size⟩ := comparePartitionInfo_eq_false.mp unchanged
        rw [userdataPlace, userdataPlace, ownFound, updateFound, Option.map_some, Option.map_some,
          start, size]
      · cases unchanged
    · cases unchanged

end Changes

theorem writePartitionTable_same {data device : Memory} :
    (EmmcPtable.writePartitionTable none data device).2 = true ∧
      ∀ i < gptPartitionSize, (EmmcPtable.writePartitionTable none data device).1 i = data i := by
  have some_ : data.read 0 gptPartitionSize ≠ [] := fun empty => by
    have length := data.length_read 0 gptPartitionSize
    rw [empty] at length
    exact absurd length (by decide)
  rw [EmmcPtable.writePartitionTable, writeBufferToPath, if_neg some_, if_neg (by simp)]
  refine ⟨rfl, fun i within => ?_⟩
  have byte := @Memory.write_read_within device data 0 0 gptPartitionSize i within
  simpa only [Nat.zero_add] using byte

/-- Only a write that does not fail is one that succeeds. -/
theorem writePartitionTable_true {failing : Option Nat} {data device final : Memory}
    (wrote : EmmcPtable.writePartitionTable failing data device = (final, true)) :
    ∀ i < gptPartitionSize, final i = data i := by
  cases failing with
  | none =>
      have same := (@writePartitionTable_same data device).2
      rwa [wrote] at same
  | some reached =>
      rw [EmmcPtable.writePartitionTable, writeBufferToPath] at wrote
      split at wrote
      · exact absurd (Prod.mk.inj wrote).2 (by decide)
      · exact absurd (Prod.mk.inj wrote).2 (by decide)

section Process

variable {ptable : EmmcPtable} {images : EmmcImages} {sdcard : Bool} {device final : Memory}

/-- What one package does: nothing, or its table is on the device already, or is written there. -/
theorem ptableProcessPackage_cases {package : PtablePackage} {result : Bool}
    (ran : ptable.ptableProcessPackage images sdcard device package = (final, result)) :
    (final = device ∧ result = false) ∨
      ∃ image data table before, package.image = some image ∧
        ptable.updateCommInitializeGptPartition images image images.imgBufSize =
          some (data, table) ∧
        ptable.loadPtableFromDevice device = some before ∧
        ((isPtableChanged before table = false ∧ final = device ∧ result = true) ∨
          (¬ (sdcard = false ∧ isPartitionChanged before table userdataPartition = true) ∧
            EmmcPtable.writePartitionTable package.failing data device = (final, result))) := by
  rw [EmmcPtable.ptableProcessPackage] at ran
  split at ran
  · rename_i image before hasImage loaded
    split at ran
    · cases ran
      exact .inl ⟨rfl, rfl⟩
    · rename_i data table parsed
      split at ran
      · rename_i unchanged
        cases ran
        exact .inr ⟨image, data, table, before, hasImage, parsed, loaded, .inl ⟨unchanged, rfl, rfl⟩⟩
      · split at ran
        · cases ran
          exact .inl ⟨rfl, rfl⟩
        · rename_i allowed
          exact .inr ⟨image, data, table, before, hasImage, parsed, loaded, .inr ⟨allowed, ran⟩⟩
  · cases ran
    exact .inl ⟨rfl, rfl⟩

/-- The run over a list of packages, package by package. -/
theorem ptableProcess_cons {package : PtablePackage} {later : List PtablePackage} {result : Bool}
    (ran : ptable.ptableProcess images sdcard device (package :: later) = (final, result)) :
    (ptable.ptableProcessPackage images sdcard device package = (final, false) ∧ result = false) ∨
      ∃ next, ptable.ptableProcessPackage images sdcard device package = (next, true) ∧
        ptable.ptableProcess images sdcard next later = (final, result) := by
  rw [EmmcPtable.ptableProcess] at ran
  split at ran
  · rename_i next stopped
    cases ran
    exact .inl ⟨stopped, rfl⟩
  · rename_i next went
    exact .inr ⟨next, went, ran⟩

theorem ptableProcess_append {front back : List PtablePackage}
    (ran : ptable.ptableProcess images sdcard device (front ++ back) = (final, true)) :
    ∃ middle, ptable.ptableProcess images sdcard middle back = (final, true) := by
  induction front generalizing device with
  | nil => exact ⟨device, ran⟩
  | cons package front ih =>
      obtain stopped | ⟨next, -, later⟩ := ptableProcess_cons ran
      · exact absurd stopped.2 (by decide)
      · exact ih later

/-- A device whose table cannot be loaded is left alone. -/
theorem ptableProcess_unloaded {packages : List PtablePackage} {result : Bool}
    (unloaded : ptable.loadPtableFromDevice device = none)
    (ran : ptable.ptableProcess images sdcard device packages = (final, result)) :
    final = device := by
  cases packages with
  | nil => exact (Prod.mk.inj ran).1.symm
  | cons package later =>
      have stops {next : Memory} {success : Bool}
          (one : ptable.ptableProcessPackage images sdcard device package = (next, success)) :
          next = device ∧ success = false := by
        obtain stops | ⟨_, _, _, before, -, -, loaded, -⟩ := ptableProcessPackage_cases one
        · exact stops
        · exact absurd (unloaded.symm.trans loaded) (by simp)
      obtain ⟨one, -⟩ | ⟨next, one, -⟩ := ptableProcess_cons ran
      · exact (stops one).1
      · exact absurd (stops one).2 (by decide)

/-- A package whose partitions the device has already changes nothing. -/
theorem ptableProcess_unchanged {image data : Memory} {before table : List PtnInfo}
    (loaded : ptable.loadPtableFromDevice device = some before)
    (parsed : ptable.updateCommInitializeGptPartition images image images.imgBufSize =
      some (data, table))
    (same : before.map PtnInfo.place = table.map PtnInfo.place) (failing : Option Nat) :
    ptable.ptableProcess images sdcard device [⟨some image, failing⟩] = (device, true) := by
  have some_ := (emmcReadGpt_cases.mp (parsed_cases parsed).2.2.2.2).2.2
  have one : ptable.ptableProcessPackage images sdcard device ⟨some image, failing⟩ =
      (device, true) := by
    simp only [EmmcPtable.ptableProcessPackage, loaded, parsed,
      (isPtableChanged_eq_false some_).mpr same, if_true]
  simp only [EmmcPtable.ptableProcess, one]

/-- One package, while no write fails: the user data stay, and a table that is found was there
before or is the one of the package. -/
theorem ptableProcessPackage_keepsUserdata {package : PtablePackage} {result : Bool}
    {before : List PtnInfo} (written : package.failing = none)
    (loaded : ptable.loadPtableFromDevice device = some before)
    (ran : ptable.ptableProcessPackage images false device package = (final, result)) :
    ∀ after ∈ ptable.loadPtableFromDevice final, userdataPlace after = userdataPlace before := by
  have stays (same : final = device) :
      ∀ after ∈ ptable.loadPtableFromDevice final, userdataPlace after = userdataPlace before := by
    intro after reloaded
    subst same
    obtain rfl := Option.some.inj (loaded.symm.trans reloaded)
    rfl
  obtain stops | ⟨image, data, table, found, -, parsed, again, step⟩ :=
    ptableProcessPackage_cases ran
  · exact stays stops.1
  · obtain rfl := Option.some.inj (loaded.symm.trans again)
    obtain ⟨-, same, -⟩ | ⟨allowed, wrote⟩ := step
    · exact stays same
    · intro after reloaded
      have some_ := (emmcReadGpt_cases.mp (parsed_cases parsed).2.2.2.2).2.2
      have kept : userdataPlace table = userdataPlace before :=
        userdataPlace_of_unchanged some_
          (Bool.eq_false_of_not_eq_true fun moved => allowed ⟨rfl, moved⟩)
      obtain ⟨-, same⟩ := @writePartitionTable_same data device
      rw [written] at wrote
      rw [wrote] at same
      obtain ⟨loads, entries⟩ := written_loads parsed same
      have read := (emmcReadGpt_cases.mp (loads.symm.trans reloaded)).2.1
      rw [← kept, ← entries, read]

/-- A device that has a table has one at the end. -/
theorem ptableProcess_reloads {packages : List PtablePackage} {result : Bool}
    {before : List PtnInfo} (lun : ptable.writeDeviceLunSize ≤ gptPartitionSize)
    (written : ∀ package ∈ packages, package.failing = none)
    (inside : ∀ package ∈ packages, ∀ image, package.image = some image →
      EntriesInside (image.behind images.lbaLen))
    (loaded : ptable.loadPtableFromDevice device = some before)
    (ran : ptable.ptableProcess images sdcard device packages = (final, result)) :
    ∃ after, ptable.loadPtableFromDevice final = some after := by
  induction packages generalizing device before with
  | nil =>
      rw [← (Prod.mk.inj ran).1]
      exact ⟨before, loaded⟩
  | cons package later ih =>
      have one {next : Memory} {success : Bool}
          (ran : ptable.ptableProcessPackage images sdcard device package = (next, success)) :
          ∃ after, ptable.loadPtableFromDevice next = some after := by
        obtain ⟨rfl, -⟩ | ⟨image, data, table, found, hasImage, parsed, -, step⟩ :=
          ptableProcessPackage_cases ran
        · exact ⟨before, loaded⟩
        · obtain ⟨-, rfl, -⟩ | ⟨-, wrote⟩ := step
          · exact ⟨before, loaded⟩
          · obtain ⟨-, same⟩ := @writePartitionTable_same data device
            rw [written package List.mem_cons_self] at wrote
            rw [wrote] at same
            exact ⟨table, written_accepted parsed lun
              (inside package List.mem_cons_self image hasImage) same⟩
      obtain ⟨ran, -⟩ | ⟨next, first, ran⟩ := ptableProcess_cons ran
      · exact one ran
      · obtain ⟨found, again⟩ := one first
        exact ih (fun other member => written other (List.mem_cons_of_mem package member))
          (fun other member => inside other (List.mem_cons_of_mem package member)) again ran

/-- From an SD card a table that can be read is installed. -/
theorem ptableProcess_sdcard {image data : Memory} {before table : List PtnInfo}
    (loaded : ptable.loadPtableFromDevice device = some before)
    (parsed : ptable.updateCommInitializeGptPartition images image images.imgBufSize =
      some (data, table)) :
    ∃ final, ptable.ptableProcess images true device [⟨some image, none⟩] = (final, true) := by
  have one : ∃ final, ptable.ptableProcessPackage images true device ⟨some image, none⟩ =
      (final, true) := by
    have written := (@writePartitionTable_same data device).1
    cases changed : isPtableChanged before table with
    | false =>
        exact ⟨device, by simp only [EmmcPtable.ptableProcessPackage, loaded, parsed, changed, if_true]⟩
    | true =>
        cases wrote : EmmcPtable.writePartitionTable none data device with
        | mk final success =>
            rw [wrote] at written
            obtain rfl : success = true := written
            refine ⟨final, ?_⟩
            simp only [EmmcPtable.ptableProcessPackage, loaded, parsed, changed, Bool.true_eq_false,
              false_and, if_false, wrote]
  obtain ⟨final, one⟩ := one
  exact ⟨final, by simp only [EmmcPtable.ptableProcess, one]⟩

/-- Whatever the packages of an update bring, as long as it is not from an SD card and no write
fails, the user data keep their start and their size. -/
theorem ptableProcess_keepsUserdata {packages : List PtablePackage} {result : Bool}
    {before after : List PtnInfo} (written : ∀ package ∈ packages, package.failing = none)
    (loaded : ptable.loadPtableFromDevice device = some before)
    (ran : ptable.ptableProcess images false device packages = (final, result))
    (reloaded : ptable.loadPtableFromDevice final = some after) :
    userdataPlace after = userdataPlace before := by
  induction packages generalizing device before with
  | nil =>
      obtain rfl := (Prod.mk.inj ran).1
      obtain rfl := Option.some.inj (loaded.symm.trans reloaded)
      rfl
  | cons package later ih =>
      have rest := fun other member => written other (List.mem_cons_of_mem package member)
      obtain ⟨one, -⟩ | ⟨next, one, ran⟩ := ptableProcess_cons ran
      · exact ptableProcessPackage_keepsUserdata (written package List.mem_cons_self) loaded one
          after reloaded
      · cases again : ptable.loadPtableFromDevice next with
        | none =>
            rw [ptableProcess_unloaded again ran, again] at reloaded
            exact absurd reloaded (by simp)
        | some found =>
            have first := ptableProcessPackage_keepsUserdata
              (written package List.mem_cons_self) loaded one found again
            exact (ih rest again ran).trans first

/-- A table for user data from a given sector to the end of a device of a hundred sectors. -/
def userdataEntry (first : Nat) : Bytes :=
  leBytes 32 1 ++ leBytes 8 first ++ leBytes 8 99 ++ leBytes 8 0 ++
    [85, 0, 83, 0, 69, 0, 82, 0, 68, 0, 65, 0, 84, 0, 65]

def userdataHeader (headerCrc entryCrc lastLba : Nat) : Bytes :=
  leBytes 8 efiMagicNumber ++ leBytes 4 0 ++ leBytes 4 92 ++ leBytes 8 headerCrc ++ leBytes 8 1 ++
    leBytes 16 lastLba ++ leBytes 8 lastLba ++ leBytes 16 0 ++ leBytes 8 2 ++ leBytes 4 1 ++
    leBytes 4 partitionEntrySize ++ leBytes 4 entryCrc

def userdataTable (header entry : Bytes) : Memory := fun address =>
  if address < 512 then
    if address = 0x1C2 then 0xEE else if address = 510 then 0x55 else if address = 511 then 0xAA else 0
  else if address < 1024 then header.getD (address - 512) 0
  else entry.getD (address - 1024) 0

/-- A device whose user data begin at sector 50. -/
def userdataDevice : Memory :=
  userdataTable (userdataHeader 2419055201 3843586058 99) (userdataEntry 50)

/-- The image of a package whose user data begin at sector 40. -/
def userdataImage : Memory :=
  userdataTable (userdataHeader 0 0 0) (userdataEntry 40)

theorem lbaLength_wholeBlock : lbaLength ≤ 512 := by decide

def smallImages : EmmcImages where
  lbaLen := 512
  imgBufSize := gptPartitionSize
  wholeBlock := lbaLength_wholeBlock

set_option maxRecDepth 200000 in
theorem userdataDevice_place :
    (smallEmmc.loadPtableFromDevice userdataDevice).map userdataPlace = some (some (25600, 25600)) := by
  decide +kernel

theorem userdataImage_inside : EntriesInside (userdataImage.behind smallImages.lbaLen) := by
  decide +kernel

theorem userdataDevice_keepsUserdata :
    ∃ after, smallEmmc.loadPtableFromDevice (smallEmmc.ptableProcess smallImages false
      userdataDevice [⟨some userdataImage, none⟩]).1 = some after ∧
      userdataPlace after = some (25600, 25600) := by
  obtain ⟨before, loaded, place⟩ := Option.map_eq_some_iff.mp userdataDevice_place
  have written : ∀ package ∈ [(⟨some userdataImage, none⟩ : PtablePackage)],
      package.failing = none := fun package member => by
    rw [List.mem_singleton.mp member]
  have inside : ∀ package ∈ [(⟨some userdataImage, none⟩ : PtablePackage)],
      ∀ image, package.image = some image → EntriesInside (image.behind smallImages.lbaLen) := by
    intro package member image some_
    rw [List.mem_singleton.mp member] at some_
    rw [← Option.some.inj some_]
    exact userdataImage_inside
  cases ran : smallEmmc.ptableProcess smallImages false userdataDevice
    [⟨some userdataImage, none⟩] with
  | mk final result =>
      obtain ⟨after, reloaded⟩ := ptableProcess_reloads (by decide) written inside loaded ran
      have kept := ptableProcess_keepsUserdata written loaded ran reloaded
      exact ⟨after, reloaded, kept.trans place⟩

/-- When the tables of all packages are processed, the device has the one of the last package, and
to process that package again writes nothing. -/
theorem ptableProcess_settles {front : List PtablePackage} {package : PtablePackage}
    (lun : ptable.writeDeviceLunSize ≤ gptPartitionSize)
    (inside : ∀ image, package.image = some image → EntriesInside (image.behind images.lbaLen))
    (ran : ptable.ptableProcess images sdcard device (front ++ [package]) = (final, true)) :
    ∃ image data table after, package.image = some image ∧
      ptable.updateCommInitializeGptPartition images image images.imgBufSize = some (data, table) ∧
      ptable.loadPtableFromDevice final = some after ∧
      after.map PtnInfo.place = table.map PtnInfo.place ∧
      ∀ sdcard failing,
        ptable.ptableProcess images sdcard final [⟨some image, failing⟩] = (final, true) := by
  obtain ⟨middle, ran⟩ := ptableProcess_append ran
  obtain stopped | ⟨next, one, last⟩ := ptableProcess_cons ran
  · exact absurd stopped.2 (by decide)
  · obtain rfl : next = final := (Prod.mk.inj last).1
    obtain stops | ⟨image, data, table, before, hasImage, parsed, loaded, step⟩ :=
      ptableProcessPackage_cases one
    · exact absurd stops.2 (by decide)
    · have some_ := (emmcReadGpt_cases.mp (parsed_cases parsed).2.2.2.2).2.2
      have settled : ∃ after, ptable.loadPtableFromDevice next = some after ∧
          after.map PtnInfo.place = table.map PtnInfo.place := by
        obtain ⟨unchanged, rfl, -⟩ | ⟨-, wrote⟩ := step
        · exact ⟨before, loaded, (isPtableChanged_eq_false some_).mp unchanged⟩
        · have same := writePartitionTable_true wrote
          exact ⟨table, written_accepted parsed lun (inside image hasImage) same, rfl⟩
      obtain ⟨after, found, same⟩ := settled
      exact ⟨image, data, table, after, hasImage, parsed, found, same, fun sdcard failing =>
        ptableProcess_unchanged found parsed same failing⟩

set_option maxRecDepth 200000 in
theorem userdataImage_parsed :
    (smallEmmc.updateCommInitializeGptPartition smallImages userdataImage
      smallImages.imgBufSize).isSome = true := by
  decide +kernel

theorem userdataDevice_settles :
    ∃ final data table after,
      smallEmmc.ptableProcess smallImages true userdataDevice [⟨some userdataImage, none⟩] =
        (final, true) ∧
      smallEmmc.updateCommInitializeGptPartition smallImages userdataImage smallImages.imgBufSize =
        some (data, table) ∧
      smallEmmc.loadPtableFromDevice final = some after ∧
      after.map PtnInfo.place = table.map PtnInfo.place := by
  obtain ⟨before, loaded, -⟩ := Option.map_eq_some_iff.mp userdataDevice_place
  obtain ⟨pair, parsed⟩ := Option.isSome_iff_exists.mp userdataImage_parsed
  obtain ⟨final, ran⟩ := ptableProcess_sdcard loaded parsed
  have inside : ∀ image, (⟨some userdataImage, none⟩ : PtablePackage).image = some image →
      EntriesInside (image.behind smallImages.lbaLen) := fun image some_ => by
    rw [← Option.some.inj some_]
    exact userdataImage_inside
  have lun : smallEmmc.writeDeviceLunSize ≤ gptPartitionSize := by decide
  have whole : smallEmmc.ptableProcess smallImages true userdataDevice
      ([] ++ [⟨some userdataImage, none⟩]) = (final, true) := by
    rw [List.nil_append]
    exact ran
  obtain ⟨image, data, table, after, hasImage, parsed, found, same, -⟩ :=
    ptableProcess_settles lun inside whole
  rw [← Option.some.inj hasImage] at parsed
  exact ⟨final, data, table, after, ran, parsed, found, same⟩

end Process

end Updater.PtableParse
