import Updater.PtableParse.EmmcPtable

/-! When the table that `EmmcPtable::EditPartitionBuf` leaves is usable. -/

set_option autoImplicit false

namespace Updater.PtableParse

open Updater.Base

section Tables

variable {memory : Memory} {address count : Nat} {entries : List Entry}

theorem take_tableFrom {fewer : Nat} (less : fewer ≤ count) :
    (tableFrom memory address count).take fewer = tableFrom memory address fewer := by
  induction fewer generalizing address count with
  | zero => rfl
  | succ fewer hypothesis =>
      cases count with
      | zero => exact absurd less (Nat.not_succ_le_zero _)
      | succ count =>
          rw [tableFrom, tableFrom]
          split
          · rfl
          · rw [List.take_succ_cons, hypothesis (Nat.le_of_succ_le_succ less)]

/-- What is stored as it was changes nothing. -/
theorem storeTable_tableFrom : storeTable memory address (tableFrom memory address count) = memory := by
  induction count generalizing address with
  | zero => rfl
  | succ count hypothesis =>
      rw [tableFrom]
      split
      · rfl
      · rw [storeTable, storeEntry_entryAt, hypothesis]

/-- Only the entries in front of those that stay need to be stored. -/
theorem storeTable_append_drop {fewer : Nat} (stored : entries.length =
      ((tableFrom memory address count).take fewer).length) :
    storeTable memory address (entries ++ (tableFrom memory address count).drop fewer) =
      storeTable memory address entries := by
  induction fewer generalizing memory address count entries with
  | zero =>
      have empty : entries = [] := List.eq_nil_of_length_eq_zero stored
      rw [empty]
      exact storeTable_tableFrom
  | succ fewer hypothesis =>
      cases count with
      | zero => rw [tableFrom, List.drop_nil, List.append_nil]
      | succ count =>
          rw [tableFrom] at stored ⊢
          split
          case isTrue => rw [List.drop_nil, List.append_nil]
          case isFalse named =>
            rw [if_neg named] at stored
            cases entries with
            | nil => cases stored
            | cons entry entries =>
                have rest := tableFrom_storeEntry_behind memory address entry count
                rw [List.drop_succ_cons, List.cons_append, storeTable, storeTable, ← rest]
                refine hypothesis ?_
                rw [rest]
                exact Nat.succ.inj stored

/-- The low half of a field of eight bytes. -/
theorem getLlword_low : getLlword memory address % 2 ^ 32 = getLword memory address := by
  have halves : memory.read address 8 = memory.read address 4 ++ memory.read (address + 4) 4 := by
    simp only [Memory.read, List.range_succ, List.range_zero, List.nil_append, List.map_cons,
      List.map_nil, List.cons_append, Nat.add_assoc]
  have small : leValue (memory.read address 4) < 2 ^ 32 := getLword_lt memory address
  rw [getLlword, halves, leValue_append, Memory.length_read, getLword]
  omega

end Tables

section Requests

variable (deviceLast : Nat)

/-- The table that a list of requests asks for. -/
def requested (table : List Entry) (modifyList : List PtnInfo) : List Entry :=
  modifyList.foldl (fun table modifyInfo =>
    resized deviceLast modifyInfo.dispName (modifyInfo.partitionSize / lbaLength) table) table

/-- Every request is for a partition of the table, with its first sector and a size in sectors. -/
def Asks : List Entry → List PtnInfo → Prop
  | _, [] => True
  | table, modifyInfo :: modifyList =>
      (∃ entry, table.find? (fun entry => decide (entry.name = modifyInfo.dispName)) = some entry ∧
        modifyInfo.startAddr = entry.firstLba * lbaLength ∧
        lbaLength ∣ modifyInfo.partitionSize) ∧
      Asks (resized deviceLast modifyInfo.dispName (modifyInfo.partitionSize / lbaLength) table)
        modifyList

variable {deviceLast} {table : List Entry} {modifyList : List PtnInfo}

theorem names_requested (deviceLast : Nat) (table : List Entry) (modifyList : List PtnInfo) :
    (requested deviceLast table modifyList).map Entry.name = table.map Entry.name := by
  induction modifyList generalizing table with
  | nil => rfl
  | cons modifyInfo modifyList hypothesis =>
      rw [requested, List.foldl_cons]
      exact (hypothesis _).trans (names_resized _ _ _ _)

theorem length_requested :
    (requested deviceLast table modifyList).length = table.length := by
  have lengths := congrArg List.length
    (names_requested deviceLast table modifyList)
  rwa [List.length_map, List.length_map] at lengths

theorem take_requested {count : Nat} :
    (requested deviceLast table modifyList).take count =
      requested deviceLast (table.take count) modifyList := by
  induction modifyList generalizing table with
  | nil => rfl
  | cons modifyInfo modifyList hypothesis =>
      rw [requested, requested, List.foldl_cons, List.foldl_cons, ← take_resized]
      exact hypothesis

end Requests

section Walks

variable {ptable : EmmcPtable} {memory edited : Memory} {gptSize : Nat}

/-- The address of the entries of an image, and their number. -/
def entriesStart (image : Memory) : Nat :=
  getLlword image (emmcBlockSize + partitionEntriesOffset) * emmcBlockSize

def entryCount (image : Memory) : Nat :=
  getLword image (emmcBlockSize + partitionCountOffset)

/-- A table of entries of the usual size, behind the header and whole in the buffer. -/
structure EntriesBehind (image : Memory) (length : Nat) : Prop where
  entrySize : getLword image (emmcBlockSize + pentrySizeOffset) = partitionEntrySize
  behind : 2 ≤ getLlword image (emmcBlockSize + partitionEntriesOffset)
  inside : entriesStart image + partitionEntrySize * entryCount image ≤ length
  length_lt : length < 2 ^ 32

/-- How many entries an edit goes through: it takes them to begin at the third block. -/
def reach (image : Memory) : Nat :=
  (2 * emmcBlockSize + partitionEntrySize * entryCount image - entriesStart image) /
    partitionEntrySize

/-- The partitions that an edit goes through. -/
def reachedTable (image : Memory) : List Entry :=
  tableFrom image (entriesStart image) (reach image)

/-- All partitions. -/
def tableOf (image : Memory) : List Entry :=
  tableFrom image (entriesStart image) (entryCount image)

theorem reach_le {length : Nat} (entries : EntriesBehind memory length) :
    reach memory ≤ entryCount memory := by
  have behind : 2 * emmcBlockSize ≤ entriesStart memory := Nat.mul_le_mul_right _ entries.behind
  refine Nat.div_le_of_le_mul ?_
  omega

theorem same_below {length : Nat} (entries : EntriesBehind memory length) {table : List Entry}
    {place : Nat} (low : place < 2 * emmcBlockSize) :
    storeTable memory (entriesStart memory) table place = memory place := by
  have behind := entries.behind
  refine storeTable_outside (.inl (Nat.lt_of_lt_of_le low ?_))
  exact Nat.mul_le_mul_right _ behind

theorem EntriesBehind.congr {length : Nat} (entries : EntriesBehind memory length)
    (same : ∀ place < 2 * emmcBlockSize, edited place = memory place) :
    EntriesBehind edited length ∧ entriesStart edited = entriesStart memory ∧
      entryCount edited = entryCount memory := by
  have field : ∀ at_, at_ + 8 ≤ 2 * emmcBlockSize → getLlword edited at_ = getLlword memory at_ :=
    fun at_ fits => getLlword_congr fun i within => same _ (by omega)
  have half : ∀ at_, at_ + 8 ≤ 2 * emmcBlockSize → getLword edited at_ = getLword memory at_ := by
    intro at_ fits
    rw [← getLlword_low, field at_ fits, getLlword_low]
  have start : entriesStart edited = entriesStart memory :=
    congrArg (· * emmcBlockSize) (field _ (by decide))
  have count : entryCount edited = entryCount memory := half _ (by decide)
  refine ⟨⟨?_, ?_, ?_, entries.length_lt⟩, start, count⟩
  · exact (half _ (by decide)).trans entries.entrySize
  · exact Nat.le_trans entries.behind (Nat.le_of_eq (field _ (by decide)).symm)
  · rw [start, count]
    exact entries.inside

theorem EntriesBehind.start_eq {length : Nat} (entries : EntriesBehind memory length) :
    getLlword memory (emmcBlockSize + partitionEntriesOffset) * emmcBlockSize % 2 ^ 64 =
      entriesStart memory := by
  refine Nat.mod_eq_of_lt ?_
  have inside := entries.inside
  have small := entries.length_lt
  rw [entriesStart] at inside
  omega

theorem EntriesBehind.entrySize_low {length : Nat} (entries : EntriesBehind memory length) :
    getLlword memory (emmcBlockSize + pentrySizeOffset) % 2 ^ 32 = partitionEntrySize :=
  getLlword_low.trans entries.entrySize

theorem size_reach (size : gptSize = 2 * emmcBlockSize + partitionEntrySize * entryCount memory)
    (reached : entriesStart memory ≤ gptSize) :
    gptSize = entriesStart memory + partitionEntrySize * reach memory := by
  have blocks : partitionEntrySize ∣
      2 * emmcBlockSize + partitionEntrySize * entryCount memory - entriesStart memory := by
    refine Nat.dvd_sub (Nat.dvd_add (by decide) (Nat.dvd_mul_right _ _)) ?_
    exact Nat.dvd_mul_left_of_dvd (by decide) _
  rw [reach, Nat.mul_div_cancel' blocks, ← size]
  exact (Nat.add_sub_of_le reached).symm

/-- One change stores the resized entries that it reaches. -/
theorem changeGpt_stores {length fuel : Nat} {modifyInfo : PtnInfo}
    (entries : EntriesBehind memory length)
    (size : gptSize = 2 * emmcBlockSize + partitionEntrySize * entryCount memory)
    (begins : ∀ entry, (reachedTable memory).find?
      (fun entry => decide (entry.name = modifyInfo.dispName)) = some entry →
      modifyInfo.startAddr / lbaLength = entry.firstLba)
    (changed : changeGpt fuel memory 0 gptSize ptable.gptInfo modifyInfo = some edited) :
    edited = storeTable memory (entriesStart memory)
      (resized ptable.lastSector modifyInfo.dispName (modifyInfo.partitionSize / lbaLength)
        (reachedTable memory)) := by
  rw [changeGpt] at changed
  split at changed
  · cases changed
  · dsimp only [EmmcPtable.gptInfo] at changed
    rw [Nat.zero_add, Nat.zero_add, entries.entrySize_low, entries.start_eq] at changed
    by_cases reached : entriesStart memory ≤ gptSize
    case pos =>
      have blocks : ptable.gptInfo.devBlockSize = lbaLength := rfl
      have stored := changeGptLoop_resizes blocks (size_reach size reached) begins changed
      exact stored
    case neg =>
      have none_ : reach memory = 0 := by
        rw [reach, ← size, Nat.sub_eq_zero_of_le (Nat.le_of_not_le reached), Nat.zero_div]
      rw [reachedTable, none_, tableFrom, resized, storeTable]
      cases fuel with
      | zero => cases changed
      | succ fuel =>
          rw [changeGptLoop, if_pos (Nat.le_of_not_le reached)] at changed
          exact (Option.some.inj changed).symm

theorem take_tableOf {length : Nat} (entries : EntriesBehind memory length) :
    (tableOf memory).take (reach memory) = reachedTable memory :=
  take_tableFrom (reach_le entries)

/-- A request finds no other partition in the part that is gone through. -/
theorem begins_of_asks (fewer : Nat) {table : List Entry} {modifyInfo : PtnInfo} {deviceLast : Nat}
    {modifyList : List PtnInfo} (asks : Asks deviceLast table (modifyInfo :: modifyList)) :
    ∀ entry, (table.take fewer).find?
      (fun entry => decide (entry.name = modifyInfo.dispName)) = some entry →
      modifyInfo.startAddr / lbaLength = entry.firstLba := by
  intro entry found
  obtain ⟨⟨asked, first, start, _⟩, _⟩ := asks
  have whole : table.find? (fun entry => decide (entry.name = modifyInfo.dispName)) =
      some entry := by
    rw [← List.take_append_drop fewer table, List.find?_append, found]
    rfl
  rw [whole] at first
  injection first with same
  rw [start, ← same, Nat.mul_div_cancel _ (by decide)]

/-- What a change leaves for the next one. -/
theorem changeGpt_step {length fuel : Nat} {modifyInfo : PtnInfo} {modifyList : List PtnInfo}
    {table : List Entry} (entries : EntriesBehind memory length)
    (size : gptSize = 2 * emmcBlockSize + partitionEntrySize * entryCount memory)
    (asks : Asks ptable.lastSector table (modifyInfo :: modifyList))
    (reached : table.take (reach memory) = reachedTable memory)
    (changed : changeGpt fuel memory 0 gptSize ptable.gptInfo modifyInfo = some edited) :
    EntriesBehind edited length ∧ entriesStart edited = entriesStart memory ∧
      entryCount edited = entryCount memory ∧
      reachedTable edited = resized ptable.lastSector modifyInfo.dispName
        (modifyInfo.partitionSize / lbaLength) (reachedTable memory) ∧
      (resized ptable.lastSector modifyInfo.dispName (modifyInfo.partitionSize / lbaLength)
        table).take (reach edited) = reachedTable edited ∧
      edited = storeTable memory (entriesStart memory) (reachedTable edited) := by
  have begins := begins_of_asks (reach memory) asks
  rw [reached] at begins
  have stored := changeGpt_stores entries size begins changed
  have below : ∀ place < 2 * emmcBlockSize, edited place = memory place :=
    fun place low => stored ▸ same_below entries low
  obtain ⟨entries', start, count⟩ := entries.congr below
  have far : reach edited = reach memory := by rw [reach, reach, start, count]
  have names := names_resized ptable.lastSector modifyInfo.dispName
    (modifyInfo.partitionSize / lbaLength) (reachedTable memory)
  have read : reachedTable edited = resized ptable.lastSector modifyInfo.dispName
      (modifyInfo.partitionSize / lbaLength) (reachedTable memory) := by
    rw [reachedTable, start, far, stored]
    exact tableFrom_storeTable names
  refine ⟨entries', start, count, read, ?_, ?_⟩
  · rw [far, take_resized, reached, read]
  · rw [read]
    exact stored

/-- All changes store the table that is asked for, as far as they reach. -/
theorem changeAll_stores {length : Nat} {modifyList : List PtnInfo} {table : List Entry}
    (entries : EntriesBehind memory length)
    (size : gptSize = 2 * emmcBlockSize + partitionEntrySize * entryCount memory)
    (asks : Asks ptable.lastSector table modifyList)
    (reached : table.take (reach memory) = reachedTable memory)
    (changed : ptable.changeAll gptSize memory modifyList = some edited) :
    edited = storeTable memory (entriesStart memory)
      (requested ptable.lastSector (reachedTable memory) modifyList) := by
  induction modifyList generalizing memory table with
  | nil =>
      injection changed with changed
      rw [← changed]
      exact storeTable_tableFrom.symm
  | cons modifyInfo modifyList hypothesis =>
      rw [EmmcPtable.changeAll] at changed
      cases first : changeGpt (gptSize + 1) memory 0 gptSize ptable.gptInfo modifyInfo with
      | none =>
          rw [first] at changed
          exact nomatch changed
      | some next =>
          rw [first] at changed
          obtain ⟨entries', start, count, read, reached', stored⟩ :=
            changeGpt_step entries size asks reached first
          have rest := hypothesis entries' (by rw [count]; exact size) asks.2 reached' changed
          rw [read] at stored
          rw [rest, start, read, stored, storeTable_storeTable length_requested]
          rfl

end Walks

section Headers

variable {buffer other : Memory} {bufferLen lbaNum : Nat} {info : GptHeaderInfo}

theorem getLword_congr {at_ : Nat} (same : ∀ i < 4, buffer (at_ + i) = other (at_ + i)) :
    getLword buffer at_ = getLword other at_ :=
  congrArg leValue (buffer.read_congr same)

variable (same : ∀ i < lbaLength, buffer i = other i)

include same

theorem getLword_header {at_ : Nat} (fits : at_ + 4 ≤ lbaLength) :
    getLword buffer at_ = getLword other at_ :=
  getLword_congr fun i within => same (at_ + i) (by omega)

theorem getLlword_header {at_ : Nat} (fits : at_ + 8 ≤ lbaLength) :
    getLlword buffer at_ = getLlword other at_ :=
  getLlword_congr fun i within => same (at_ + i) (by omega)

theorem getPartitionGptHeaderInfo_congr :
    getPartitionGptHeaderInfo buffer bufferLen = getPartitionGptHeaderInfo other bufferLen := by
  have magic := getLlword_header same (by decide : 0 + 8 ≤ lbaLength)
  have count := getLword_header same (by decide : partitionCountOffset + 4 ≤ lbaLength)
  have size := getLword_header same (by decide : pentrySizeOffset + 4 ≤ lbaLength)
  have header := getLword_header same (by decide : headerSizeOffset + 4 ≤ lbaLength)
  have first := getLlword_header same (by decide : firstUsableLbaOffset + 8 ≤ lbaLength)
  rw [getPartitionGptHeaderInfo, getPartitionGptHeaderInfo, checkIfValidGpt, checkIfValidGpt, magic,
    count, size, header, first]

theorem checkGptHeader_congr (checked : checkGptHeader other lbaLength lbaNum info = true) :
    checkGptHeader buffer lbaLength lbaNum info = true := by
  have crc := getLword_header same (by decide : headerCrcOffset + 4 ≤ lbaLength)
  have last := getLlword_header same (by decide : lastUsableLbaOffset + 8 ≤ lbaLength)
  have current := getLlword_header same (by decide : gptHeaderOffset + 8 ≤ lbaLength)
  rw [checkGptHeader] at checked ⊢
  rw [crc, last, current]
  have bytes : (putLong buffer headerCrcOffset 0).read 0 info.headerSize =
      (putLong other headerCrcOffset 0).read 0 info.headerSize := by
    have fits : info.headerSize ≤ lbaLength := by
      simp only [Bool.and_eq_true, decide_eq_true_eq] at checked
      exact checked.1.1.1.1.1.1.2
    refine Memory.read_congr _ fun i within => ?_
    rw [Nat.zero_add, putLong, putLong]
    rcases Nat.lt_or_ge i headerCrcOffset with before | behind
    · rw [Memory.write_of_lt _ before, Memory.write_of_lt _ before, same i (by omega)]
    · rcases Nat.lt_or_ge i (headerCrcOffset + 4) with inside | past
      · obtain ⟨j, rfl⟩ := Nat.exists_eq_add_of_le behind
        have byte : j < (leBytes 4 0).length := by
          rw [length_leBytes]
          omega
        have found := List.getElem?_eq_getElem byte
        exact (Memory.write_within _ found).trans (Memory.write_within _ found).symm
      · have past' : headerCrcOffset + (leBytes 4 0).length ≤ i := by rwa [length_leBytes]
        rw [Memory.write_of_ge _ past', Memory.write_of_ge _ past', same i (by omega)]
  rw [bytes]
  exact checked

end Headers

/-- An image in the layout of the device whose header passes the check. -/
structure EmmcImage (ptable : EmmcPtable) where
  memory : Memory
  length : Nat
  valid : ptable.parseGptHeaderByEmmc memory length = true
  behind : 2 ≤ getLlword memory (emmcBlockSize + partitionEntriesOffset)
  inside : entriesStart memory + partitionEntrySize * entryCount memory ≤ length
  length_lt : length < 2 ^ 32

namespace EmmcImage

variable {ptable : EmmcPtable} (image : EmmcImage ptable)

/-- What the check has found. -/
theorem checked : ∃ info,
    getPartitionGptHeaderInfo (image.memory.behind emmcBlockSize) emmcBlockSize = some info ∧
    2 * emmcBlockSize ≤ image.length ∧ ptable.writeDeviceLunSize ≤ image.length ∧
    ptable.capacity / emmcBlockSize % 2 ^ 32 ≠ 0 ∧
    checkGptHeader (image.memory.behind emmcBlockSize) emmcBlockSize
      (ptable.capacity / emmcBlockSize % 2 ^ 32) info = true := by
  have valid := image.valid
  rw [EmmcPtable.parseGptHeaderByEmmc] at valid
  split at valid
  · exact nomatch valid
  case h_2 info found =>
    rw [EmmcPtable.partitionCheckGptHeader] at valid
    split at valid
    · exact nomatch valid
    case isFalse long =>
      obtain ⟨lun, long⟩ := not_or.mp long
      obtain ⟨lba, blocks⟩ := not_or.mp long
      dsimp only at valid
      split at valid
      · exact nomatch valid
      case isFalse header =>
        exact ⟨info, found, Nat.le_of_not_lt blocks, Nat.le_of_not_lt lun, lba,
          Bool.eq_true_of_not_eq_false header⟩

theorem info_eq {info : GptHeaderInfo}
    (found : getPartitionGptHeaderInfo (image.memory.behind emmcBlockSize) emmcBlockSize =
      some info) :
    info.maxPartitionCount = entryCount image.memory ∧
      info.partitionEntrySize = getLword image.memory (emmcBlockSize + pentrySizeOffset) := by
  rw [getPartitionGptHeaderInfo] at found
  split at found
  · exact nomatch found
  · split at found
    · exact nomatch found
    · injection found with found
      subst found
      exact ⟨getLword_behind _ _ _, getLword_behind _ _ _⟩

theorem few : entryCount image.memory ≤ minPartitionArraySize / partitionEntrySize := by
  obtain ⟨info, found, _, _, _, header⟩ := image.checked
  rw [checkGptHeader] at header
  simp only [Bool.and_eq_true, decide_eq_true_eq] at header
  rw [← (image.info_eq found).1]
  exact header.1.2

theorem entries : EntriesBehind image.memory image.length := by
  obtain ⟨info, found, _, _, _, header⟩ := image.checked
  rw [checkGptHeader] at header
  simp only [Bool.and_eq_true, decide_eq_true_eq] at header
  refine ⟨?_, image.behind, image.inside, image.length_lt⟩
  rw [← (image.info_eq found).2]
  exact header.1.1.2

/-- With the same header the check depends on the entries alone. -/
theorem valid_iff {edited : Memory}
    (same : ∀ place < 2 * emmcBlockSize, edited place = image.memory place) :
    ptable.parseGptHeaderByEmmc edited image.length = true ↔
      calculateCrc32 (edited.read (entriesStart image.memory)
        (partitionEntrySize * entryCount image.memory)) =
      getLword image.memory (emmcBlockSize + partitionCrcOffset) := by
  obtain ⟨info, found, blocks, lun, lba, header⟩ := image.checked
  have below : ∀ i < lbaLength, edited.behind emmcBlockSize i =
      image.memory.behind emmcBlockSize i :=
    fun i within => same (emmcBlockSize + i) (Nat.add_lt_add_left within _)
  have start : getLlword (edited.behind emmcBlockSize) partitionEntriesOffset % 2 ^ 32 *
      emmcBlockSize % 2 ^ 32 = entriesStart image.memory := by
    have inside := image.inside
    have small := image.length_lt
    rw [getLlword_header below (by decide), getLlword_behind]
    rw [entriesStart, emmcBlockSize] at *
    omega
  have crcLen : info.maxPartitionCount * info.partitionEntrySize % 2 ^ 32 =
      partitionEntrySize * entryCount image.memory := by
    have few := image.few
    have entrySize := image.entries.entrySize
    rw [(image.info_eq found).1, (image.info_eq found).2, entrySize, Nat.mul_comm]
    refine Nat.mod_eq_of_lt ?_
    rw [minPartitionArraySize, partitionEntrySize] at few
    rw [partitionEntrySize]
    omega
  have fits : ¬ image.length < (entriesStart image.memory +
      partitionEntrySize * entryCount image.memory) % 2 ^ 32 :=
    Nat.not_lt_of_le (Nat.le_trans (Nat.mod_le _ _) image.inside)
  have crc : getLword (edited.behind emmcBlockSize) partitionCrcOffset =
      getLword image.memory (emmcBlockSize + partitionCrcOffset) := by
    rw [getLword_header below (by decide), getLword_behind]
  have guards : ¬ (image.length < ptable.writeDeviceLunSize ∨
      ptable.capacity / emmcBlockSize % 2 ^ 32 = 0 ∨ image.length < 2 * emmcBlockSize) :=
    fun failed => failed.elim (Nat.not_lt_of_le lun)
      (fun rest => rest.elim lba (Nat.not_lt_of_le blocks))
  have passes : checkGptHeader (edited.behind emmcBlockSize) emmcBlockSize
      (ptable.capacity / emmcBlockSize % 2 ^ 32) info = true := checkGptHeader_congr below header
  rw [EmmcPtable.parseGptHeaderByEmmc, getPartitionGptHeaderInfo_congr below, found]
  dsimp only
  rw [EmmcPtable.partitionCheckGptHeader, if_neg guards]
  dsimp only
  rw [if_neg (fun failed => Bool.false_ne_true (failed.symm.trans passes)), start, crcLen, crc, getGptEntryCrc,
    if_neg fits, decide_eq_true_eq]

end EmmcImage

section Bounds

variable {ptable : EmmcPtable} {gptSize fuel : Nat} {gptInfo : GptParseInfo} {modifyInfo : PtnInfo}
  {memory : Memory} {address readSize : Nat} {access : Access}

/-- The loop stays in the entries that it goes through. -/
theorem changeGptLoopAccesses_inside {reach : Nat} {pre : Option Nat}
    (size : gptSize = readSize + partitionEntrySize * reach)
    (made : access ∈ changeGptLoopAccesses gptSize partitionEntrySize gptInfo modifyInfo fuel memory
      address readSize pre) :
    access.end_ ≤ address + partitionEntrySize * reach := by
  induction fuel generalizing memory address readSize reach pre with
  | zero => exact nomatch made
  | succ fuel hypothesis =>
      rw [changeGptLoopAccesses] at made
      cases reach with
      | zero =>
          have past : gptSize ≤ readSize := Nat.le_of_eq size
          rw [if_pos past] at made
          exact nomatch made
      | succ reach =>
          have next : gptSize = readSize + partitionEntrySize + partitionEntrySize * reach := by
            rw [size, Nat.mul_succ]
            omega
          have entry : ∀ start length : Nat, start + length ≤ partitionEntrySize →
              (Access.mk (address + start) length).end_ ≤
                address + partitionEntrySize * (reach + 1) := by
            intro start length fits
            rw [Access.end_, Nat.mul_succ]
            dsimp only
            omega
          have name := entry gptPartitionNameOffset maxGptNameSize (by decide)
          have lbas := entry firstLbaOffset 16 (by decide)
          have rest : ∀ {later : Memory} {pre : Option Nat},
              access ∈ changeGptLoopAccesses gptSize partitionEntrySize gptInfo modifyInfo fuel later
                (address + partitionEntrySize) (readSize + partitionEntrySize) pre →
              access.end_ ≤ address + partitionEntrySize * (reach + 1) := by
            intro later pre member
            have inside := hypothesis next member
            rw [Nat.mul_succ]
            omega
          rw [if_neg (by rw [partitionEntrySize] at size; omega)] at made
          dsimp only at made
          split at made
          · exact List.mem_singleton.mp made ▸ name
          · cases pre with
            | some pre =>
                dsimp only at made
                split at made
                · cases made with
                  | head => exact name
                  | tail _ made => exact List.mem_singleton.mp made ▸ lbas
                · cases made with
                  | head => exact name
                  | tail _ made =>
                      cases made with
                      | head => exact lbas
                      | tail _ made => exact rest made
            | none =>
                dsimp only at made
                split at made
                · split at made
                  · exact List.mem_singleton.mp made ▸ name
                  · cases made with
                    | head => exact name
                    | tail _ made =>
                        cases made with
                        | head => exact lbas
                        | tail _ made => exact rest made
                · cases made with
                  | head => exact name
                  | tail _ made => exact rest made

theorem changeGptAccesses_inside {length : Nat} (entries : EntriesBehind memory length)
    (blocks : 2 * emmcBlockSize ≤ length)
    (size : gptSize = 2 * emmcBlockSize + partitionEntrySize * entryCount memory)
    (made : access ∈ changeGptAccesses fuel memory 0 gptSize ptable.gptInfo modifyInfo) :
    access.end_ ≤ length := by
  rw [changeGptAccesses] at made
  split at made
  · exact nomatch made
  · dsimp only [EmmcPtable.gptInfo] at made
    rw [Nat.zero_add, Nat.zero_add, entries.entrySize_low, entries.start_eq] at made
    have field : ∀ at_, at_ + 8 ≤ emmcBlockSize →
        (Access.mk (emmcBlockSize + at_) 8).end_ ≤ length := by
      intro at_ fits
      rw [Access.end_]
      dsimp only
      omega
    cases made with
    | head => exact field pentrySizeOffset (by decide)
    | tail _ made =>
        cases made with
        | head => exact field partitionEntriesOffset (by decide)
        | tail _ made =>
            by_cases reached : entriesStart memory ≤ gptSize
            case pos =>
              have inside := changeGptLoopAccesses_inside (size_reach size reached) made
              have walked : partitionEntrySize * reach memory ≤
                  partitionEntrySize * entryCount memory :=
                Nat.mul_le_mul_left _ (reach_le entries)
              have whole := entries.inside
              omega
            case neg =>
              cases fuel with
              | zero => exact nomatch made
              | succ fuel =>
                  rw [changeGptLoopAccesses, if_pos (Nat.le_of_not_le reached)] at made
                  exact nomatch made

theorem changeAllAccesses_inside {length : Nat} {modifyList : List PtnInfo} {table : List Entry}
    (entries : EntriesBehind memory length) (blocks : 2 * emmcBlockSize ≤ length)
    (size : gptSize = 2 * emmcBlockSize + partitionEntrySize * entryCount memory)
    (asks : Asks ptable.lastSector table modifyList)
    (reached : table.take (reach memory) = reachedTable memory)
    (made : access ∈ ptable.changeAllAccesses gptSize memory modifyList) :
    access.end_ ≤ length := by
  induction modifyList generalizing memory table with
  | nil => exact nomatch made
  | cons modifyInfo modifyList hypothesis =>
      rw [EmmcPtable.changeAllAccesses] at made
      cases List.mem_append.mp made with
      | inl made => exact changeGptAccesses_inside entries blocks size made
      | inr made =>
          split at made
          · exact nomatch made
          case h_2 next first =>
            obtain ⟨entries', _, count, _, reached', _⟩ :=
              changeGpt_step entries size asks reached first
            exact hypothesis entries' (by rw [count]; exact size) asks.2 reached' made

/-- The patch stays in the local information: it finds no entry there. -/
theorem scratchAccesses_inside {image : Memory} (made : access ∈ ptable.scratchAccesses image) :
    access.end_ ≤ gptPartitionSize := by
  have zero : ptable.patchFields (EmmcPtable.scratch image) emmcBlockSize
      (2 * emmcBlockSize + 0 * partitionEntrySize) = 0 := by
    rw [EmmcPtable.patchFields, putLongLong_outside (.inr (by decide)),
      putLongLong_outside (.inr (by decide)), EmmcPtable.scratch]
    refine Memory.write_of_ge _ ?_
    rw [Memory.length_read]
    decide
  have none_ : EmmcPtable.totalPart (ptable.patchFields (EmmcPtable.scratch image) emmcBlockSize)
      emmcBlockSize = 0 := by
    have room : (gptPartitionSize - 2 * emmcBlockSize + partitionEntrySize - 1) /
        partitionEntrySize = 1015 + 1 := by decide
    rw [EmmcPtable.totalPart, room, UfsPtable.totalPart, if_neg (not_not.mpr zero)]
  cases made with
  | head => decide
  | tail _ made =>
      rw [EmmcPtable.emmcPatchGptHeaderAccesses] at made
      split at made
      · exact nomatch made
      · dsimp only at made
        rw [if_pos none_, none_] at made
        cases made with
        | head => decide
        | tail _ made =>
            cases made with
            | head => decide
            | tail _ made =>
                obtain ⟨k, within, rfl⟩ := List.mem_map.mp made
                have one : k < 1 := Nat.lt_of_lt_of_le (List.mem_range.mp within) (Nat.min_le_left _ _)
                rw [Nat.lt_one_iff.mp one]
                decide

end Bounds

section Usable

variable {ptable : EmmcPtable} {image : EmmcImage ptable} {modifyList : List PtnInfo}
  {edited scratch : Memory}

/-- What an edit is to leave: a header and entries whose checksums hold, the fields that the size of
the device gives, the partitions that are asked for, and no access beyond the buffers. -/
structure Usable (image : EmmcImage ptable) (modifyList : List PtnInfo) (edited : Memory) :
    Prop where
  valid : ptable.parseGptHeaderByEmmc edited image.length = true
  backup : getLlword edited (emmcBlockSize + backupHeaderOffset) = ptable.lastSector
  lastUsable : getLlword edited (emmcBlockSize + lastUsableLbaOffset) = ptable.lastSector
  table : tableOf edited = requested ptable.lastSector (tableOf image.memory) modifyList
  inImage : ∀ access ∈ ptable.editAccesses image.memory modifyList, access.end_ ≤ image.length
  inScratch : ∀ access ∈ ptable.scratchAccesses edited, access.end_ ≤ gptPartitionSize

/-- When it does: the header already has the fields of the device, its checksum of the entries is
that of the ones asked for, and none of these lies behind those that the edit goes through. -/
structure Matches (image : EmmcImage ptable) (modifyList : List PtnInfo) : Prop where
  backup : getLlword image.memory (emmcBlockSize + backupHeaderOffset) = ptable.lastSector
  lastUsable : getLlword image.memory (emmcBlockSize + lastUsableLbaOffset) = ptable.lastSector
  reached : (requested ptable.lastSector (tableOf image.memory) modifyList).drop
    (reach image.memory) = (tableOf image.memory).drop (reach image.memory)
  entriesCrc : calculateCrc32 ((storeTable image.memory (entriesStart image.memory)
      (requested ptable.lastSector (tableOf image.memory) modifyList)).read
      (entriesStart image.memory) (partitionEntrySize * entryCount image.memory)) =
    getLword image.memory (emmcBlockSize + partitionCrcOffset)

theorem gptSize_eq (image : EmmcImage ptable) : EmmcPtable.gptSize image.memory =
    2 * emmcBlockSize + partitionEntrySize * entryCount image.memory := by
  have few := image.few
  have entrySize := image.entries.entrySize
  rw [minPartitionArraySize, partitionEntrySize] at few
  rw [EmmcPtable.gptSize, entrySize, ← entryCount, partitionEntrySize, emmcBlockSize]
  omega

/-- The edit stores what is asked for, as far as it goes. -/
theorem editPartitionBuf_stores
    (asks : Asks ptable.lastSector (tableOf image.memory) modifyList)
    (made : ptable.editPartitionBuf image.memory image.length modifyList =
      some (edited, scratch)) :
    edited = storeTable image.memory (entriesStart image.memory)
      ((requested ptable.lastSector (tableOf image.memory) modifyList).take
        (reach image.memory)) := by
  rw [EmmcPtable.editPartitionBuf] at made
  split at made
  · exact nomatch made
  · split at made
    · exact nomatch made
    · split at made
      · exact nomatch made
      case h_2 changed all =>
        injection made with made
        have stored := changeAll_stores image.entries (gptSize_eq image) asks
          (take_tableOf image.entries) all
        rw [take_requested, take_tableOf image.entries, ← stored]
        exact (congrArg Prod.fst made).symm

/-- Where it goes through all that is asked for it stores the whole table. -/
theorem take_drop_stores {asked : List Entry}
    (names : asked.map Entry.name = (tableOf image.memory).map Entry.name) :
    storeTable image.memory (entriesStart image.memory)
        (asked.take (reach image.memory) ++ (tableOf image.memory).drop (reach image.memory)) =
      storeTable image.memory (entriesStart image.memory) (asked.take (reach image.memory)) := by
  refine storeTable_append_drop ?_
  have lengths := congrArg List.length names
  rw [List.length_map, List.length_map] at lengths
  rw [List.length_take, List.length_take, lengths]
  rfl

/-- The header is never written: the edited table is usable when it was so for the edited one. -/
theorem editPartitionBuf_usable_iff
    (asks : Asks ptable.lastSector (tableOf image.memory) modifyList)
    (made : ptable.editPartitionBuf image.memory image.length modifyList =
      some (edited, scratch)) :
    Usable image modifyList edited ↔ Matches image modifyList := by
  have stored := editPartitionBuf_stores asks made
  have below : ∀ place < 2 * emmcBlockSize, edited place = image.memory place :=
    fun place low => stored ▸ same_below image.entries low
  obtain ⟨_, start, count⟩ := image.entries.congr below
  have field : ∀ at_, at_ + 8 ≤ 2 * emmcBlockSize →
      getLlword edited at_ = getLlword image.memory at_ :=
    fun at_ fits => getLlword_congr fun i within => below _ (by omega)
  have backup := field (emmcBlockSize + backupHeaderOffset) (by decide)
  have lastUsable := field (emmcBlockSize + lastUsableLbaOffset) (by decide)
  have names := names_requested ptable.lastSector (tableOf image.memory) modifyList
  -- The entries that are gone through are those asked for, the others stay.
  have joined := take_drop_stores names
  have read : tableOf edited =
      (requested ptable.lastSector (tableOf image.memory) modifyList).take (reach image.memory) ++
        (tableOf image.memory).drop (reach image.memory) := by
    rw [tableOf, start, count, stored, ← joined]
    refine tableFrom_storeTable ?_
    rw [List.map_append, List.map_take, names, List.map_drop, List.take_append_drop]
    rfl
  have reached : tableOf edited =
        requested ptable.lastSector (tableOf image.memory) modifyList ↔
      (requested ptable.lastSector (tableOf image.memory) modifyList).drop (reach image.memory) =
        (tableOf image.memory).drop (reach image.memory) := by
    constructor
    case mp =>
      intro same
      rw [read] at same
      have split := List.take_append_drop (reach image.memory)
        (requested ptable.lastSector (tableOf image.memory) modifyList)
      exact List.append_cancel_left (split.trans same.symm)
    case mpr =>
      intro same
      rw [read, ← same, List.take_append_drop]
  have whole : (requested ptable.lastSector (tableOf image.memory) modifyList).drop
        (reach image.memory) = (tableOf image.memory).drop (reach image.memory) →
      edited = storeTable image.memory (entriesStart image.memory)
        (requested ptable.lastSector (tableOf image.memory) modifyList) := by
    intro same
    rw [stored, ← joined, ← same, List.take_append_drop]
  constructor
  case mp =>
    intro usable
    have same := reached.mp usable.table
    refine ⟨backup ▸ usable.backup, lastUsable ▸ usable.lastUsable, same, ?_⟩
    rw [← whole same]
    exact (image.valid_iff below).mp usable.valid
  case mpr =>
    intro matches_
    refine ⟨(image.valid_iff below).mpr ?_, backup.trans matches_.backup,
      lastUsable.trans matches_.lastUsable, reached.mpr matches_.reached, ?_,
      fun access made => scratchAccesses_inside made⟩
    · rw [whole matches_.reached]
      exact matches_.entriesCrc
    · intro access made
      obtain ⟨_, _, blocks, _⟩ := image.checked
      have low : ∀ at_ length : Nat, at_ + length ≤ 2 * emmcBlockSize →
          (Access.mk at_ length).end_ ≤ image.length :=
        fun at_ length fits => Nat.le_trans fits blocks
      cases made with
      | head => exact low (emmcBlockSize + partitionCountOffset) 4 (by decide)
      | tail _ made =>
          cases made with
          | head => exact low (emmcBlockSize + pentrySizeOffset) 4 (by decide)
          | tail _ made =>
              cases made with
              | head => exact low 0 emmcBlockSize (by decide)
              | tail _ made =>
                  exact changeAllAccesses_inside image.entries blocks (gptSize_eq image) asks
                    (take_tableOf image.entries) made

section Boot

/-- A device of one mebibyte. -/
def smallPtable : EmmcPtable where
  capacity := 2048 * emmcBlockSize
  writeDeviceLunSize := 0
  emmcGptDataLen := 0

/-- A header for it, with one entry. -/
def bootHeader : Bytes :=
  leBytes 8 efiMagicNumber ++ leBytes 4 0x10000 ++ leBytes 4 92 ++ leBytes 4 2875626833 ++
    leBytes 4 0 ++ leBytes 8 1 ++ leBytes 8 2047 ++ leBytes 8 34 ++ leBytes 8 2047 ++
    List.replicate 16 0 ++ leBytes 8 2 ++ leBytes 4 1 ++ leBytes 4 128 ++ leBytes 4 2095266067

/-- The partition BOOT, of ten sectors. -/
def bootEntry : Bytes :=
  List.replicate 32 0 ++ leBytes 8 100 ++ leBytes 8 109 ++ List.replicate 8 0 ++
    leBytes 8 0x54004F004F0042

def bootMemory : Memory :=
  Memory.write (Memory.write (fun _ => 0) emmcBlockSize bootHeader) (2 * emmcBlockSize) bootEntry

set_option maxRecDepth 100000 in
def bootImage : EmmcImage smallPtable where
  memory := bootMemory
  length := gptPartitionSize
  valid := by decide +kernel
  behind := by decide +kernel
  inside := by decide +kernel
  length_lt := by decide

/-- Twenty sectors for it. -/
def growBoot : PtnInfo where
  startAddr := 100 * lbaLength
  partitionSize := 20 * lbaLength
  partitionTypeGuid := []
  lun := 0
  gptEntryBufOffset := 0
  isTailPart := false
  dispName := ascii "BOOT"

theorem bootTable : tableOf bootImage.memory = [entryAt bootMemory (2 * emmcBlockSize)] := by
  have start : entriesStart bootMemory = 2 * emmcBlockSize := by decide +kernel
  have count : entryCount bootMemory = 1 := by decide +kernel
  have named : ¬ (entryAt bootMemory (2 * emmcBlockSize)).name = [] := by decide +kernel
  rw [tableOf]
  rw [show bootImage.memory = bootMemory from rfl, start, count, tableFrom, if_neg named, tableFrom]

theorem asksBoot : Asks smallPtable.lastSector (tableOf bootImage.memory) [growBoot] := by
  have found : (entryAt bootMemory (2 * emmcBlockSize)).name = growBoot.dispName := by
    decide +kernel
  have first : growBoot.startAddr =
      (entryAt bootMemory (2 * emmcBlockSize)).firstLba * lbaLength := by decide +kernel
  rw [bootTable]
  refine ⟨⟨_, ?_, first, by decide⟩, trivial⟩
  rw [List.find?_cons_of_pos]
  exact decide_eq_true found

set_option maxRecDepth 100000 in
/-- The larger partition fails the check: its checksum is the one of the old entries. -/
theorem growBoot_unusable : Asks smallPtable.lastSector (tableOf bootImage.memory) [growBoot] ∧
    ∃ edited scratch, smallPtable.editPartitionBuf bootImage.memory bootImage.length [growBoot] =
      some (edited, scratch) ∧ ¬ Usable bootImage [growBoot] edited := by
  refine ⟨asksBoot, ?_⟩
  have run : (smallPtable.editPartitionBuf bootImage.memory bootImage.length [growBoot]).map
      (fun made => smallPtable.parseGptHeaderByEmmc made.1 bootImage.length) = some false := by
    decide +kernel
  obtain ⟨⟨edited, scratch⟩, made, invalid⟩ := Option.map_eq_some_iff.mp run
  refine ⟨edited, scratch, made, fun usable => ?_⟩
  exact Bool.false_ne_true (invalid.symm.trans usable.valid)

theorem growBoot_usable_iff :
    ∃ edited scratch, smallPtable.editPartitionBuf bootImage.memory bootImage.length [growBoot] =
      some (edited, scratch) ∧
      (Usable bootImage [growBoot] edited ↔ Matches bootImage [growBoot]) := by
  have run : (smallPtable.editPartitionBuf bootImage.memory bootImage.length
      [growBoot]).isSome = true := by decide +kernel
  obtain ⟨⟨edited, scratch⟩, made⟩ := Option.isSome_iff_exists.mp run
  exact ⟨edited, scratch, made, editPartitionBuf_usable_iff asksBoot made⟩

end Boot

end Usable

end Updater.PtableParse
