import Updater.PtableParse.Gpt

/-! The partitions of a table as a list of entries, and that `ChangeGpt` stores the list as it is
resized. -/

set_option autoImplicit false

namespace Updater.PtableParse

open Updater.Base

/-- A partition by its name and its first and last LBA. -/
@[ext] structure Entry where
  name : Bytes
  firstLba : Nat
  lastLba : Nat
  first_lt : firstLba < 2 ^ 64
  last_lt : lastLba < 2 ^ 64

theorem mod_lt64 (value : Nat) : value % 2 ^ 64 < 2 ^ 64 :=
  Nat.mod_lt _ (by decide)

theorem sub64_lt (left right : Nat) : sub64 left right < 2 ^ 64 :=
  mod_lt64 _

namespace Entry

/-- How many sectors it has, in `uint64_t`. -/
def sectors (entry : Entry) : Nat :=
  (sub64 entry.lastLba entry.firstLba + 1) % 2 ^ 64

/-- The partition with so many sectors from the same first one on. -/
def sized (entry : Entry) (sectors : Nat) : Entry :=
  { entry with
    lastLba := sub64 (entry.firstLba + sectors) 1
    last_lt := sub64_lt _ _ }

/-- The partition of the same size behind an LBA; the last one takes the rest of the device. -/
def movedBehind (deviceLast pre : Nat) (entry : Entry) : Entry where
  name := entry.name
  firstLba := (pre + 1) % 2 ^ 64
  lastLba := if entry.name = userdataPartition then deviceLast % 2 ^ 64
    else (pre + entry.sectors) % 2 ^ 64
  first_lt := mod_lt64 _
  last_lt := by split <;> exact mod_lt64 _

end Entry

/-- The partitions one behind the other. -/
def shifted (deviceLast : Nat) : Nat → List Entry → List Entry
  | _, [] => []
  | pre, entry :: entries =>
      let moved := entry.movedBehind deviceLast pre
      moved :: shifted deviceLast moved.lastLba entries

/-- The first partition of a name with another size, and those behind it shifted. -/
def resized (deviceLast : Nat) (name : Bytes) (sectors : Nat) : List Entry → List Entry
  | [] => []
  | entry :: entries =>
      if entry.name = name then
        let sized := entry.sized sectors
        sized :: shifted deviceLast sized.lastLba entries
      else entry :: resized deviceLast name sectors entries

theorem names_shifted {deviceLast pre : Nat} {entries : List Entry} :
    (shifted deviceLast pre entries).map Entry.name = entries.map Entry.name := by
  induction entries generalizing pre with
  | nil => rfl
  | cons entry entries hypothesis => exact congrArg (entry.name :: ·) hypothesis

theorem names_resized (deviceLast : Nat) (name : Bytes) (sectors : Nat) (entries : List Entry) :
    (resized deviceLast name sectors entries).map Entry.name = entries.map Entry.name := by
  induction entries with
  | nil => rfl
  | cons entry entries hypothesis =>
      rw [resized]
      split
      · dsimp only
        rw [List.map_cons, List.map_cons, names_shifted, Entry.sized]
      · rw [List.map_cons, List.map_cons, hypothesis]

theorem take_shifted {deviceLast pre count : Nat} {entries : List Entry} :
    (shifted deviceLast pre entries).take count = shifted deviceLast pre (entries.take count) := by
  induction entries generalizing pre count with
  | nil =>
      rw [shifted, List.take_nil]
      rfl
  | cons entry entries hypothesis =>
      cases count with
      | zero => rfl
      | succ count => exact congrArg (_ :: ·) hypothesis

/-- What becomes of the first partitions does not depend on the others. -/
theorem take_resized {deviceLast sectors count : Nat} {name : Bytes} {entries : List Entry} :
    (resized deviceLast name sectors entries).take count =
      resized deviceLast name sectors (entries.take count) := by
  induction entries generalizing count with
  | nil =>
      rw [resized, List.take_nil]
      rfl
  | cons entry entries hypothesis =>
      cases count with
      | zero => rfl
      | succ count =>
          rw [List.take_succ_cons, resized, resized]
          split
          · exact congrArg (_ :: ·) take_shifted
          · exact congrArg (_ :: ·) hypothesis

/-- The entry at an address. -/
def entryAt (memory : Memory) (address : Nat) : Entry where
  name := parsePartitionName memory (address + gptPartitionNameOffset)
  firstLba := getLlword memory (address + firstLbaOffset)
  lastLba := getLlword memory (address + lastLbaOffset)
  first_lt := getLlword_lt _ _
  last_lt := getLlword_lt _ _

/-- So many entries from an address on, up to the first one without a name. -/
def tableFrom (memory : Memory) : Nat → Nat → List Entry
  | _, 0 => []
  | address, count + 1 =>
      if (entryAt memory address).name = [] then []
      else entryAt memory address :: tableFrom memory (address + partitionEntrySize) count

/-- The LBAs of an entry are stored. -/
def storeEntry (memory : Memory) (address : Nat) (entry : Entry) : Memory :=
  putLongLong (putLongLong memory (address + firstLbaOffset) entry.firstLba)
    (address + lastLbaOffset) entry.lastLba

/-- The LBAs of entries are stored from an address on. -/
def storeTable (memory : Memory) : Nat → List Entry → Memory
  | _, [] => memory
  | address, entry :: entries =>
      storeTable (storeEntry memory address entry) (address + partitionEntrySize) entries

section Stores

variable {memory other : Memory} {address at_ : Nat} {entry : Entry} {entries : List Entry}

theorem getLlword_congr (same : ∀ i < 8, memory (at_ + i) = other (at_ + i)) :
    getLlword memory at_ = getLlword other at_ :=
  congrArg leValue (memory.read_congr same)

theorem parsePartitionName_congr
    (same : ∀ i < maxGptNameSize, memory (at_ + i) = other (at_ + i)) :
    parsePartitionName memory at_ = parsePartitionName other at_ := by
  have bytes : (List.range (maxGptNameSize / 2)).map (fun n => memory (at_ + 2 * n)) =
      (List.range (maxGptNameSize / 2)).map fun n => other (at_ + 2 * n) := by
    refine List.map_congr_left fun n within => same _ ?_
    have within : n < 36 := List.mem_range.mp within
    rw [maxGptNameSize]
    omega
  rw [parsePartitionName, parsePartitionName, bytes]

theorem entryAt_congr (same : ∀ i < partitionEntrySize, memory (at_ + i) = other (at_ + i)) :
    entryAt memory at_ = entryAt other at_ := by
  have within : ∀ start length : Nat, start + length ≤ partitionEntrySize → ∀ i < length,
      memory (at_ + start + i) = other (at_ + start + i) := by
    intro start length fits i inside
    rw [Nat.add_assoc]
    exact same (start + i) (by omega)
  refine Entry.ext ?_ ?_ ?_
  · exact parsePartitionName_congr (within gptPartitionNameOffset _ (by decide))
  · exact getLlword_congr (within firstLbaOffset _ (by decide))
  · exact getLlword_congr (within lastLbaOffset _ (by decide))

theorem putLongLong_outside {value : Nat} (outside : at_ < address ∨ address + 8 ≤ at_) :
    putLongLong memory address value at_ = memory at_ := by
  cases outside with
  | inl before => exact memory.write_of_lt before
  | inr behind => exact memory.write_of_ge (by rwa [length_leBytes])

/-- Only the LBAs of the entry change. -/
theorem storeEntry_outside
    (outside : at_ < address + firstLbaOffset ∨ address + gptPartitionNameOffset ≤ at_) :
    storeEntry memory address entry at_ = memory at_ := by
  simp only [firstLbaOffset, gptPartitionNameOffset] at outside
  rw [storeEntry, putLongLong_outside, putLongLong_outside]
  · rw [firstLbaOffset]
    omega
  · rw [lastLbaOffset]
    omega

theorem storeTable_outside
    (outside : at_ < address ∨ address + partitionEntrySize * entries.length ≤ at_) :
    storeTable memory address entries at_ = memory at_ := by
  induction entries generalizing memory address with
  | nil => rfl
  | cons entry entries hypothesis =>
      rw [List.length_cons, partitionEntrySize] at outside
      rw [storeTable, hypothesis (by rw [partitionEntrySize]; omega)]
      refine storeEntry_outside ?_
      rw [firstLbaOffset, gptPartitionNameOffset]
      omega

/-- What is stored is read. -/
theorem entryAt_storeEntry (same : entry.name = (entryAt memory address).name) :
    entryAt (storeEntry memory address entry) address = entry := by
  refine Entry.ext ?_ ?_ ?_
  · rw [same]
    refine parsePartitionName_congr fun i _ => storeEntry_outside (.inr ?_)
    exact Nat.le_add_right _ _
  · refine (getLlword_putLongLong_apart _ (.inl ?_)).trans (getLlword_putLongLong _ entry.first_lt)
    rw [firstLbaOffset, lastLbaOffset]
  · exact getLlword_putLongLong _ entry.last_lt

theorem tableFrom_congr {count : Nat}
    (same : ∀ i < partitionEntrySize * count, memory (address + i) = other (address + i)) :
    tableFrom memory address count = tableFrom other address count := by
  induction count generalizing address with
  | zero => rfl
  | succ count hypothesis =>
      rw [Nat.mul_succ] at same
      have first : entryAt memory address = entryAt other address :=
        entryAt_congr fun i within => same i (by omega)
      have rest : tableFrom memory (address + partitionEntrySize) count =
          tableFrom other (address + partitionEntrySize) count := by
        refine hypothesis fun i within => ?_
        rw [Nat.add_assoc]
        exact same (partitionEntrySize + i) (by omega)
      rw [tableFrom, tableFrom, first, rest]

theorem tableFrom_storeEntry_behind (memory : Memory) (address : Nat) (entry : Entry)
    (count : Nat) :
    tableFrom (storeEntry memory address entry) (address + partitionEntrySize) count =
      tableFrom memory (address + partitionEntrySize) count := by
  refine tableFrom_congr fun i _ => storeEntry_outside (.inr ?_)
  rw [partitionEntrySize, gptPartitionNameOffset]
  omega

/-- A table with the same names is read as it was stored. -/
theorem tableFrom_storeTable {count : Nat}
    (names : entries.map Entry.name = (tableFrom memory address count).map Entry.name) :
    tableFrom (storeTable memory address entries) address count = entries := by
  induction count generalizing memory address entries with
  | zero => exact (List.map_eq_nil_iff.mp names).symm
  | succ count hypothesis =>
      rw [tableFrom] at names
      split at names
      case isTrue empty =>
        rw [List.map_eq_nil_iff.mp names, storeTable, tableFrom, if_pos empty]
      case isFalse named =>
        cases entries with
        | nil => exact nomatch names
        | cons entry entries =>
            injection names with name names
            have names' : entries.map Entry.name = (tableFrom (storeEntry memory address entry)
                (address + partitionEntrySize) count).map Entry.name :=
              names.trans (congrArg _ (tableFrom_storeEntry_behind memory address entry count).symm)
            have rest := hypothesis names'
            have first : entryAt (storeTable (storeEntry memory address entry)
                (address + partitionEntrySize) entries) address = entry := by
              refine Eq.trans (entryAt_congr fun i within => ?_) (entryAt_storeEntry name)
              exact storeTable_outside (.inl (Nat.add_lt_add_left within _))
            have nonempty : entry.name ≠ [] := fun empty => named (name.symm.trans empty)
            rw [storeTable, tableFrom, first, if_neg nonempty, rest]

theorem putLongLong_getLlword : putLongLong memory address (getLlword memory address) = memory := by
  have bytes := leBytes_leValue (memory.read address 8)
  rw [Memory.length_read] at bytes
  rw [putLongLong, getLlword, bytes, Memory.write_read]

theorem storeEntry_entryAt : storeEntry memory address (entryAt memory address) = memory := by
  have first : putLongLong memory (address + firstLbaOffset) (entryAt memory address).firstLba =
      memory := putLongLong_getLlword
  rw [storeEntry, first]
  exact putLongLong_getLlword

theorem putLongLong_putLongLong {first second : Nat} :
    putLongLong (putLongLong memory address first) address second =
      putLongLong memory address second :=
  memory.write_write (by rw [length_leBytes, length_leBytes])

theorem putLongLong_inside {value i : Nat} (inside : i < 8) :
    putLongLong memory address value (address + i) = putLongLong other address value (address + i) := by
  have byte : i < (leBytes 8 value).length := by rwa [length_leBytes]
  have found := List.getElem?_eq_getElem byte
  exact (memory.write_within found).trans (other.write_within found).symm

theorem putLongLong_comm {behind first second : Nat} (apart : address + 8 ≤ behind) :
    putLongLong (putLongLong memory address first) behind second =
      putLongLong (putLongLong memory behind second) address first := by
  funext place
  by_cases inside : address ≤ place ∧ place < address + 8
  case pos =>
    obtain ⟨i, rfl⟩ := Nat.exists_eq_add_of_le inside.1
    rw [putLongLong_outside (.inl (by omega))]
    exact putLongLong_inside (by omega)
  case neg =>
    have outside : place < address ∨ address + 8 ≤ place := by omega
    have front : ∀ value (before : Memory), putLongLong before address value place = before place :=
      fun _ _ => putLongLong_outside outside
    rw [front]
    by_cases within : behind ≤ place ∧ place < behind + 8
    case pos =>
      obtain ⟨i, rfl⟩ := Nat.exists_eq_add_of_le within.1
      exact putLongLong_inside (by omega)
    case neg =>
      have past : place < behind ∨ behind + 8 ≤ place := by omega
      rw [putLongLong_outside past, putLongLong_outside past, front]

theorem storeEntry_storeEntry {second : Entry} :
    storeEntry (storeEntry memory address entry) address second =
      storeEntry memory address second := by
  have apart : address + firstLbaOffset + 8 ≤ address + lastLbaOffset := Nat.le_refl _
  rw [storeEntry, storeEntry, ← putLongLong_comm apart, putLongLong_putLongLong,
    putLongLong_putLongLong, storeEntry]

/-- Stores in one entry and in those behind it do not meet. -/
theorem storeTable_storeEntry {behind : Nat} (past : address + partitionEntrySize ≤ behind) :
    storeTable (storeEntry memory address entry) behind entries =
      storeEntry (storeTable memory behind entries) address entry := by
  induction entries generalizing memory behind with
  | nil => rfl
  | cons other entries hypothesis =>
      have swap : storeEntry (storeEntry memory address entry) behind other =
          storeEntry (storeEntry memory behind other) address entry := by
        have apart : ∀ first second : Nat, first + 8 ≤ partitionEntrySize →
            address + first + 8 ≤ behind + second := by
          intro first second
          omega
        have front := apart firstLbaOffset firstLbaOffset (by decide)
        have cross := apart lastLbaOffset firstLbaOffset (by decide)
        have across := apart firstLbaOffset lastLbaOffset (by decide)
        have back := apart lastLbaOffset lastLbaOffset (by decide)
        simp only [storeEntry]
        rw [putLongLong_comm cross, putLongLong_comm front, putLongLong_comm back,
          putLongLong_comm across]
      rw [storeTable, storeTable, swap, hypothesis (by omega)]

/-- The table that is stored last stays. -/
theorem storeTable_storeTable {second : List Entry} (same : second.length = entries.length) :
    storeTable (storeTable memory address entries) address second =
      storeTable memory address second := by
  induction entries generalizing memory address second with
  | nil => rw [storeTable]
  | cons entry entries hypothesis =>
      cases second with
      | nil => exact nomatch same
      | cons other second =>
          have past : address + partitionEntrySize ≤ address + partitionEntrySize := Nat.le_refl _
          have inner : storeTable (storeEntry memory address entry) (address + partitionEntrySize)
              entries = storeEntry (storeTable memory (address + partitionEntrySize) entries)
                address entry := storeTable_storeEntry past
          have outer : storeEntry (storeTable memory (address + partitionEntrySize) entries) address
              other = storeTable (storeEntry memory address other) (address + partitionEntrySize)
                entries := (storeTable_storeEntry past).symm
          rw [storeTable, storeTable, inner, storeEntry_storeEntry, outer,
            hypothesis (Nat.succ.inj same), storeTable]

end Stores

section Loops

variable {gptSize fuel : Nat} {gptInfo : GptParseInfo} {modifyInfo : PtnInfo}
  {memory edited : Memory} {address readSize reach : Nat}

/-- The last LBA of the device. -/
def GptParseInfo.deviceLast (gptInfo : GptParseInfo) : Nat :=
  sub64 (gptInfo.devDensity / gptInfo.devBlockSize) 1

/-- `AdjustGpt` moves the entry behind the one before. -/
theorem adjustGpt_stores {pre : Nat} {name : Bytes} (named : name = (entryAt memory address).name)
    (adjusted : adjustGpt memory address name pre gptInfo.deviceLast = some edited) :
    edited = storeEntry memory address
      ((entryAt memory address).movedBehind gptInfo.deviceLast pre) := by
  subst named
  rw [adjustGpt] at adjusted
  split at adjusted
  · exact nomatch adjusted
  · split at adjusted
    case isTrue other =>
      injection adjusted with adjusted
      have last : (sub64 (getLlword memory (address + lastLbaOffset))
          (getLlword memory (address + firstLbaOffset)) + pre + 1) % 2 ^ 64 =
          (pre + (entryAt memory address).sectors) % 2 ^ 64 := by
        rw [Entry.sectors, Nat.add_mod_mod, ← Nat.add_assoc, Nat.add_comm pre]
        rfl
      rw [← adjusted, last, storeEntry, Entry.movedBehind]
      dsimp only
      rw [if_neg other]
    case isFalse userdata =>
      dsimp only at adjusted
      split at adjusted
      · exact nomatch adjusted
      · injection adjusted with adjusted
        have fits : gptInfo.deviceLast % 2 ^ 64 = gptInfo.deviceLast :=
          Nat.mod_eq_of_lt (sub64_lt _ _)
        rw [← adjusted, storeEntry, Entry.movedBehind]
        dsimp only
        rw [if_pos (not_not.mp userdata), fits]

/-- Behind the entry that is resized the loop shifts the others. -/
theorem changeGptLoop_shifts {pre : Nat} (size : gptSize = readSize + partitionEntrySize * reach)
    (changed : changeGptLoop gptSize partitionEntrySize gptInfo modifyInfo fuel memory address
      readSize (some pre) = some edited) :
    edited = storeTable memory address
      (shifted gptInfo.deviceLast pre (tableFrom memory address reach)) := by
  induction fuel generalizing memory address readSize reach pre with
  | zero => exact nomatch changed
  | succ fuel hypothesis =>
      rw [changeGptLoop] at changed
      cases reach with
      | zero =>
          have past : gptSize ≤ readSize := Nat.le_of_eq size
          rw [if_pos past] at changed
          injection changed with changed
          exact changed.symm
      | succ reach =>
          rw [if_neg (by rw [partitionEntrySize] at size; omega)] at changed
          dsimp only at changed
          rw [tableFrom]
          split at changed
          case isTrue empty =>
            injection changed with changed
            have nameless : (entryAt memory address).name = [] := empty
            rw [if_pos nameless]
            exact changed.symm
          case isFalse named =>
            have nonempty : ¬ (entryAt memory address).name = [] := named
            rw [if_neg nonempty, shifted]
            split at changed
            · exact nomatch changed
            case h_2 adjustedMemory adjusted =>
              have stored := adjustGpt_stores rfl adjusted
              subst stored
              have moved : ((entryAt memory address).movedBehind gptInfo.deviceLast pre).name =
                (entryAt memory address).name := rfl
              have last := congrArg Entry.lastLba (entryAt_storeEntry moved)
              rw [entryAt] at last
              dsimp only at last
              rw [last] at changed
              have next : gptSize = readSize + partitionEntrySize + partitionEntrySize * reach := by
                rw [size, Nat.mul_succ]
                omega
              have rest := hypothesis next changed
              rw [rest, tableFrom_storeEntry_behind, storeTable]

/-- The loop finds the entry of the name and resizes it from where it begins. -/
theorem changeGptLoop_resizes (blocks : gptInfo.devBlockSize = lbaLength)
    (size : gptSize = readSize + partitionEntrySize * reach)
    (begins : ∀ entry, (tableFrom memory address reach).find?
      (fun entry => decide (entry.name = modifyInfo.dispName)) = some entry →
      modifyInfo.startAddr / lbaLength = entry.firstLba)
    (changed : changeGptLoop gptSize partitionEntrySize gptInfo modifyInfo fuel memory address
      readSize none = some edited) :
    edited = storeTable memory address (resized gptInfo.deviceLast modifyInfo.dispName
      (modifyInfo.partitionSize / lbaLength) (tableFrom memory address reach)) := by
  induction fuel generalizing memory address readSize reach with
  | zero => exact nomatch changed
  | succ fuel hypothesis =>
      rw [changeGptLoop] at changed
      cases reach with
      | zero =>
          have past : gptSize ≤ readSize := Nat.le_of_eq size
          rw [if_pos past] at changed
          injection changed with changed
          exact changed.symm
      | succ reach =>
          have next : gptSize = readSize + partitionEntrySize + partitionEntrySize * reach := by
            rw [size, Nat.mul_succ]
            omega
          rw [if_neg (by rw [partitionEntrySize] at size; omega)] at changed
          dsimp only at changed
          rw [tableFrom] at begins ⊢
          split at changed
          case isTrue empty =>
            injection changed with changed
            have nameless : (entryAt memory address).name = [] := empty
            rw [if_pos nameless]
            exact changed.symm
          case isFalse named =>
            have nonempty : ¬ (entryAt memory address).name = [] := named
            rw [if_neg nonempty] at begins ⊢
            rw [resized]
            by_cases found : (entryAt memory address).name = modifyInfo.dispName
            case pos =>
              have first := begins (entryAt memory address) (by rw [List.find?_cons_of_pos]; simpa)
              have named_ : parsePartitionName memory (address + gptPartitionNameOffset) =
                modifyInfo.dispName := found
              rw [if_pos named_] at changed
              rw [if_pos found]
              split at changed
              · exact nomatch changed
              · rw [blocks, first] at changed
                have stored : storeEntry memory address
                    ((entryAt memory address).sized (modifyInfo.partitionSize / lbaLength)) =
                  putLongLong (putLongLong memory (address + firstLbaOffset)
                    (entryAt memory address).firstLba) (address + lastLbaOffset)
                    (sub64 ((entryAt memory address).firstLba +
                      modifyInfo.partitionSize / lbaLength) 1) := rfl
                have last : ((entryAt memory address).sized
                    (modifyInfo.partitionSize / lbaLength)).lastLba =
                  sub64 ((entryAt memory address).firstLba +
                    modifyInfo.partitionSize / lbaLength) 1 := rfl
                rw [← stored, ← last] at changed
                have rest := changeGptLoop_shifts next changed
                rw [tableFrom_storeEntry_behind] at rest
                dsimp only
                rw [rest, storeTable]
            case neg =>
              have other : ¬ parsePartitionName memory (address + gptPartitionNameOffset) =
                modifyInfo.dispName := found
              rw [if_neg other] at changed
              rw [if_neg found, storeTable, storeEntry_entryAt]
              refine hypothesis next (fun entry member => begins entry ?_) changed
              rw [List.find?_cons_of_neg (by simpa using found)]
              exact member

end Loops

end Updater.PtableParse
