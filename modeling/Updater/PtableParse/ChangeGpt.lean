import Updater.Base.TurnLoop
import Updater.PtableParse.EmmcPtable
import Updater.PtableParse.ResizedTable

/-! `ChangeGpt` on any image: when its loop ends and stays inside the image, and when a
resize keeps the table well formed. -/

set_option autoImplicit false

namespace Updater.PtableParse

open Updater.Base

/-- The entries from an address on, one after each `entrySize` bytes, up to one without a name. -/
def tableEvery (entrySize : Nat) (memory : Memory) : Nat → Nat → List Entry
  | _, 0 => []
  | address, count + 1 =>
      if (entryAt memory address).name = [] then []
      else entryAt memory address :: tableEvery entrySize memory (address + entrySize) count

/-- The LBAs of entries are stored, one after each `entrySize` bytes. -/
def storeEvery (entrySize : Nat) (memory : Memory) : Nat → List Entry → Memory
  | _, [] => memory
  | address, entry :: entries =>
      storeEvery entrySize (storeEntry memory address entry) (address + entrySize) entries

/-- So many entries begin inside a table. -/
structure Covers (entrySize gptSize readSize count : Nat) : Prop where
  whole : gptSize ≤ readSize + entrySize * count
  inside : ∀ k < count, readSize + entrySize * k < gptSize

section Tables

variable {entrySize : Nat} {memory other : Memory} {address at_ count gptSize readSize : Nat}
  {entry : Entry} {entries : List Entry}

theorem Covers.done (covers : Covers entrySize gptSize readSize 0) : gptSize ≤ readSize := by
  have whole := covers.whole
  rwa [Nat.mul_zero, Nat.add_zero] at whole

theorem Covers.more (covers : Covers entrySize gptSize readSize (count + 1)) :
    readSize < gptSize ∧ Covers entrySize gptSize (readSize + entrySize) count := by
  refine ⟨?_, ?_, fun k within => ?_⟩
  · have inside := covers.inside 0 (Nat.succ_pos count)
    rwa [Nat.mul_zero, Nat.add_zero] at inside
  · have whole := covers.whole
    rw [Nat.mul_succ] at whole
    omega
  · have inside := covers.inside (k + 1) (Nat.succ_lt_succ within)
    rw [Nat.mul_succ] at inside
    omega

/-- Only LBAs of the entries that are stored change. -/
theorem storeEvery_changes (changes : storeEvery entrySize memory address entries at_ ≠ memory at_) :
    ∃ k < entries.length, address + entrySize * k + firstLbaOffset ≤ at_ ∧
      at_ < address + entrySize * k + lastLbaOffset + 8 := by
  induction entries generalizing memory address with
  | nil => exact absurd rfl changes
  | cons entry entries ih =>
      by_cases later : storeEvery entrySize (storeEntry memory address entry) (address + entrySize)
          entries at_ = storeEntry memory address entry at_
      · refine ⟨0, Nat.succ_pos _, ?_⟩
        rw [storeEvery, later, storeEntry] at changes
        by_contra outside
        refine changes ?_
        rw [putLongLong_outside, putLongLong_outside]
        · simp only [firstLbaOffset, lastLbaOffset] at outside ⊢
          omega
        · simp only [firstLbaOffset, lastLbaOffset] at outside ⊢
          omega
      · obtain ⟨k, within, low, high⟩ := ih later
        refine ⟨k + 1, Nat.succ_lt_succ within, ?_, ?_⟩
        · rw [Nat.mul_succ]
          omega
        · rw [Nat.mul_succ]
          omega

theorem tableEvery_congr
    (same : ∀ i, memory (address + i) = other (address + i)) :
    tableEvery entrySize memory address count = tableEvery entrySize other address count := by
  induction count generalizing address with
  | zero => rfl
  | succ count ih =>
      have first : entryAt memory address = entryAt other address := entryAt_congr fun i _ => same i
      have rest : tableEvery entrySize memory (address + entrySize) count =
          tableEvery entrySize other (address + entrySize) count := by
        refine ih fun i => ?_
        rw [Nat.add_assoc]
        exact same (entrySize + i)
      rw [tableEvery, tableEvery, first, rest]

/-- Stores in an entry do not reach those behind it. -/
theorem tableEvery_storeEntry_behind (apart : partitionEntrySize ≤ entrySize) (memory : Memory)
    (address : Nat) (entry : Entry) (count : Nat) :
    tableEvery entrySize (storeEntry memory address entry) (address + entrySize) count =
      tableEvery entrySize memory (address + entrySize) count := by
  refine tableEvery_congr fun i => storeEntry_outside (.inr ?_)
  rw [partitionEntrySize] at apart
  rw [gptPartitionNameOffset]
  omega

theorem storeEvery_before (before : at_ < address) :
    storeEvery entrySize memory address entries at_ = memory at_ := by
  by_contra changes
  obtain ⟨k, -, low, -⟩ := storeEvery_changes changes
  omega

/-- A table with the same names is read as it was stored. -/
theorem tableEvery_storeEvery (apart : partitionEntrySize ≤ entrySize)
    (names : entries.map Entry.name = (tableEvery entrySize memory address count).map Entry.name) :
    tableEvery entrySize (storeEvery entrySize memory address entries) address count = entries := by
  induction count generalizing memory address entries with
  | zero => exact (List.map_eq_nil_iff.mp names).symm
  | succ count ih =>
      rw [tableEvery] at names
      split at names
      · rename_i empty
        rw [List.map_eq_nil_iff.mp names, storeEvery, tableEvery, if_pos empty]
      · rename_i named
        cases entries with
        | nil => exact nomatch names
        | cons entry entries =>
            injection names with name names
            have rest := @ih (storeEntry memory address entry) (address + entrySize) entries (by
              rw [tableEvery_storeEntry_behind apart]
              exact names)
            have first : entryAt (storeEvery entrySize (storeEntry memory address entry)
                (address + entrySize) entries) address = entry := by
              refine Eq.trans (entryAt_congr fun i within => ?_) (entryAt_storeEntry name)
              exact storeEvery_before (by omega)
            have nonempty : entry.name ≠ [] := fun empty => named (name.symm.trans empty)
            rw [storeEvery, tableEvery, first, if_neg nonempty, rest]

theorem storeEvery_front (front : List Entry)
    (same : tableEvery entrySize memory address count = front ++ entries) (edited : List Entry) :
    storeEvery entrySize memory address (front ++ edited) =
      storeEvery entrySize memory (address + entrySize * front.length) edited := by
  induction front generalizing address count with
  | nil => rfl
  | cons first front ih =>
      cases count with
      | zero => cases same
      | succ count =>
          rw [tableEvery] at same
          split at same
          · cases same
          · injection same with here rest
            rw [List.cons_append, storeEvery, ← here, storeEntry_entryAt, ih rest,
              List.length_cons, Nat.mul_succ, Nat.add_assoc, Nat.add_comm entrySize]

end Tables

section Loop

variable {gptSize entrySize fuel : Nat} {gptInfo : GptParseInfo} {modifyInfo : PtnInfo}
  {memory edited : Memory} {address readSize count : Nat}

/-- `AdjustGpt` refuses userdata for which no block is left, and nothing else that has a name. -/
theorem adjustGpt_iff {pre : Nat} (named : (entryAt memory address).name ≠ []) :
    adjustGpt memory address (entryAt memory address).name pre gptInfo.deviceLast = some edited ↔
      ((entryAt memory address).name = userdataPartition →
        (pre + 1) % 2 ^ 64 ≤ gptInfo.deviceLast) ∧
      edited = storeEntry memory address
        ((entryAt memory address).movedBehind gptInfo.deviceLast pre) := by
  constructor
  · intro adjusted
    refine ⟨fun userdata => ?_, adjustGpt_stores rfl adjusted⟩
    rw [adjustGpt, if_neg named, if_neg (not_not.mpr userdata)] at adjusted
    dsimp only at adjusted
    split at adjusted
    · cases adjusted
    · rename_i fits
      exact Nat.not_lt.mp fits
  · rintro ⟨fits, rfl⟩
    cases adjusted : adjustGpt memory address (entryAt memory address).name pre
        gptInfo.deviceLast with
    | some next => rw [adjustGpt_stores rfl adjusted]
    | none =>
        rw [adjustGpt, if_neg named] at adjusted
        by_cases userdata : (entryAt memory address).name = userdataPartition
        · rw [if_neg (not_not.mpr userdata)] at adjusted
          dsimp only at adjusted
          rw [if_neg (Nat.not_lt.mpr (fits userdata))] at adjusted
          cases adjusted
        · rw [if_pos userdata] at adjusted
          cases adjusted

/-- Behind the resized entry the loop moves each one, as long as none is refused. -/
theorem changeGptLoop_behind_iff {pre : Nat} (apart : partitionEntrySize ≤ entrySize)
    (covers : Covers entrySize gptSize readSize count) (enough : count < fuel) :
    changeGptLoop gptSize entrySize gptInfo modifyInfo fuel memory address readSize (some pre) =
        some edited ↔
      AcceptsBehind gptInfo.deviceLast pre (tableEvery entrySize memory address count) ∧
      edited = storeEvery entrySize memory address
        (shifted gptInfo.deviceLast pre (tableEvery entrySize memory address count)) := by
  induction count generalizing fuel memory address readSize pre with
  | zero =>
      cases fuel with
      | zero => exact absurd enough (Nat.not_lt_zero _)
      | succ fuel =>
          rw [changeGptLoop, if_pos covers.done, Option.some.injEq, eq_comm]
          exact ⟨fun same => ⟨trivial, same⟩, And.right⟩
  | succ count ih =>
      cases fuel with
      | zero => exact absurd enough (Nat.not_lt_zero _)
      | succ fuel =>
          obtain ⟨more, rest⟩ := covers.more
          rw [changeGptLoop, if_neg (Nat.not_le.mpr more), tableEvery]
          dsimp only
          by_cases empty : (entryAt memory address).name = []
          · have nameless : parsePartitionName memory (address + gptPartitionNameOffset) = [] := empty
            rw [if_pos nameless, if_pos empty, Option.some.injEq, eq_comm]
            exact ⟨fun same => ⟨trivial, same⟩, And.right⟩
          · have named : ¬ parsePartitionName memory (address + gptPartitionNameOffset) = [] := empty
            rw [if_neg named, if_neg empty, AcceptsBehind, shifted]
            rw [storeEvery]
            have step := fun next => @adjustGpt_iff gptInfo memory next address pre empty
            cases adjusted : adjustGpt memory address
                (parsePartitionName memory (address + gptPartitionNameOffset)) pre
                (sub64 (gptInfo.devDensity / gptInfo.devBlockSize) 1) with
            | none =>
                dsimp only
                refine iff_of_false (fun none => by cases none) ?_
                rintro ⟨⟨fits, -⟩, -⟩
                have accepted := (step _).mpr ⟨fits, rfl⟩
                cases adjusted.symm.trans accepted
            | some next =>
                dsimp only
                obtain ⟨fits, stored⟩ := (step next).mp adjusted
                have moved : ((entryAt memory address).movedBehind gptInfo.deviceLast pre).name =
                    (entryAt memory address).name := rfl
                have last := congrArg Entry.lastLba (entryAt_storeEntry moved)
                rw [← stored] at last
                have lastLba : getLlword next (address + lastLbaOffset) =
                    ((entryAt memory address).movedBehind gptInfo.deviceLast pre).lastLba := last
                rw [lastLba, ih rest (by omega), stored, tableEvery_storeEntry_behind apart]
                exact ⟨fun moved => ⟨⟨fits, moved.1⟩, moved.2⟩, fun moved => ⟨moved.1.2, moved.2⟩⟩

/-- The loop resizes the first entry of the name, unless it is userdata with another end than that
of the device, and moves those behind it. -/
theorem changeGptLoop_resizes_iff {front later : List Entry} {entry : Entry}
    (apart : partitionEntrySize ≤ entrySize)
    (covers : Covers entrySize gptSize readSize count) (enough : count < fuel)
    (table : tableEvery entrySize memory address count = front ++ entry :: later)
    (others : ∀ other ∈ front, other.name ≠ modifyInfo.dispName)
    (found : entry.name = modifyInfo.dispName)
    (begins : modifyInfo.startAddr / gptInfo.devBlockSize = entry.firstLba) :
    changeGptLoop gptSize entrySize gptInfo modifyInfo fuel memory address readSize none =
        some edited ↔
      ((entry.name = userdataPartition →
          (entry.sized (modifyInfo.partitionSize / gptInfo.devBlockSize)).lastLba =
            gptInfo.deviceLast) ∧
        AcceptsBehind gptInfo.deviceLast
          (entry.sized (modifyInfo.partitionSize / gptInfo.devBlockSize)).lastLba later) ∧
      edited = storeEvery entrySize memory address (front ++
        entry.sized (modifyInfo.partitionSize / gptInfo.devBlockSize) ::
          shifted gptInfo.deviceLast
            (entry.sized (modifyInfo.partitionSize / gptInfo.devBlockSize)).lastLba later) := by
  induction front generalizing address readSize count fuel with
  | nil =>
      cases count with
      | zero => cases table
      | succ count =>
          cases fuel with
          | zero => exact absurd enough (Nat.not_lt_zero _)
          | succ fuel =>
              obtain ⟨more, rest⟩ := covers.more
              rw [tableEvery] at table
              split at table
              · cases table
              · rename_i named
                rw [List.nil_append] at table
                injection table with here behind
                subst here
                have notEmpty : ¬ parsePartitionName memory (address + gptPartitionNameOffset) = [] :=
                  named
                have name : parsePartitionName memory (address + gptPartitionNameOffset) =
                    modifyInfo.dispName := found
                rw [changeGptLoop, if_neg (Nat.not_le.mpr more)]
                dsimp only
                rw [if_neg notEmpty, if_pos name, begins, List.nil_append, storeEvery]
                have last : sub64 ((entryAt memory address).firstLba +
                      modifyInfo.partitionSize / gptInfo.devBlockSize) 1 =
                    ((entryAt memory address).sized
                      (modifyInfo.partitionSize / gptInfo.devBlockSize)).lastLba := by
                  rw [Entry.sized]
                by_cases refused : (entryAt memory address).name = userdataPartition ∧
                    ((entryAt memory address).sized
                      (modifyInfo.partitionSize / gptInfo.devBlockSize)).lastLba ≠
                      gptInfo.deviceLast
                · rw [last]
                  refine iff_of_false ?_ fun accepted => refused.2 (accepted.1.1 refused.1)
                  have refusedHere : parsePartitionName memory (address + gptPartitionNameOffset) =
                        userdataPartition ∧ ((entryAt memory address).sized
                      (modifyInfo.partitionSize / gptInfo.devBlockSize)).lastLba ≠
                        sub64 (gptInfo.devDensity / gptInfo.devBlockSize) 1 := refused
                  rw [if_pos refusedHere]
                  exact fun none => by cases none
                · have acceptedHere : ¬ (parsePartitionName memory
                        (address + gptPartitionNameOffset) = userdataPartition ∧
                      ((entryAt memory address).sized
                        (modifyInfo.partitionSize / gptInfo.devBlockSize)).lastLba ≠
                        sub64 (gptInfo.devDensity / gptInfo.devBlockSize) 1) := refused
                  have stored : storeEntry memory address ((entryAt memory address).sized
                      (modifyInfo.partitionSize / gptInfo.devBlockSize)) =
                    putLongLong (putLongLong memory (address + firstLbaOffset)
                      (entryAt memory address).firstLba) (address + lastLbaOffset)
                      ((entryAt memory address).sized
                        (modifyInfo.partitionSize / gptInfo.devBlockSize)).lastLba := by
                    rw [storeEntry, Entry.sized]
                  rw [last, if_neg acceptedHere, ← stored,
                    changeGptLoop_behind_iff apart rest (by omega),
                    tableEvery_storeEntry_behind apart, behind, and_congr_left_iff]
                  intro _
                  refine ⟨fun accepts => ⟨fun userdata => ?_, accepts⟩, And.right⟩
                  exact Classical.not_not.mp fun differs => refused ⟨userdata, differs⟩
  | cons first front ih =>
      cases count with
      | zero => cases table
      | succ count =>
          cases fuel with
          | zero => exact absurd enough (Nat.not_lt_zero _)
          | succ fuel =>
              obtain ⟨more, rest⟩ := covers.more
              rw [tableEvery] at table
              split at table
              · cases table
              · rename_i named
                rw [List.cons_append] at table
                injection table with here behind
                subst here
                have notEmpty : ¬ parsePartitionName memory (address + gptPartitionNameOffset) = [] :=
                  named
                have other : ¬ parsePartitionName memory (address + gptPartitionNameOffset) =
                    modifyInfo.dispName := others _ List.mem_cons_self
                rw [changeGptLoop, if_neg (Nat.not_le.mpr more)]
                dsimp only
                rw [if_neg notEmpty, if_neg other, List.cons_append, storeEvery, storeEntry_entryAt]
                exact ih rest (by omega) behind fun other member =>
                  others other (List.mem_cons_of_mem _ member)

/-- More turns than are needed change nothing. -/
theorem changeGptLoop_mono {more : Nat} {pre : Option Nat} (enough : fuel ≤ more)
    (changed : changeGptLoop gptSize entrySize gptInfo modifyInfo fuel memory address readSize pre =
      some edited) :
    changeGptLoop gptSize entrySize gptInfo modifyInfo more memory address readSize pre =
      some edited := by
  induction fuel generalizing more memory address readSize pre with
  | zero => cases changed
  | succ fuel ih =>
      cases more with
      | zero => exact absurd enough (Nat.not_succ_le_zero _)
      | succ more =>
          have less := Nat.le_of_succ_le_succ enough
          rw [changeGptLoop] at changed ⊢
          dsimp only at changed ⊢
          split at changed
          · rename_i past
            rw [if_pos past]
            exact changed
          · rename_i inside
            rw [if_neg inside]
            split at changed
            · rename_i empty
              rw [if_pos empty]
              exact changed
            · rename_i named
              rw [if_neg named]
              cases pre with
              | some pre =>
                  dsimp only at changed ⊢
                  split at changed
                  · cases changed
                  · rename_i next adjusted
                    exact ih less changed
              | none =>
                  dsimp only at changed ⊢
                  split at changed
                  · rename_i found
                    rw [if_pos found]
                    split at changed
                    · cases changed
                    · rename_i accepted
                      rw [if_neg accepted]
                      exact ih less changed
                  · rename_i other
                    rw [if_neg other]
                    exact ih less changed

end Loop

/-- The loop of `ChangeGpt` at its head; `failed` where it is left by `return false`. -/
structure ChangeState where
  memory : Memory
  ptnInfo : Nat
  readSize : Nat
  preLastLba : Option Nat
  failed : Bool := false

def changeMore (gptSize : Nat) (st : ChangeState) : Bool :=
  decide (st.readSize < gptSize)

/-- The entry behind, with the LBAs of this one stored. -/
def ChangeState.next (st : ChangeState) (entrySize : Nat) (memory : Memory)
    (preLastLba : Option Nat) : ChangeState where
  memory := memory
  ptnInfo := st.ptnInfo + entrySize
  readSize := st.readSize + entrySize
  preLastLba := preLastLba

/-- A turn of the loop of `ChangeGpt`. -/
def changeTurn (entrySize : Nat) (gptInfo : GptParseInfo) (modifyInfo : PtnInfo)
    (st : ChangeState) : Turn ChangeState :=
  let dispName := parsePartitionName st.memory (st.ptnInfo + gptPartitionNameOffset)
  let lastPtnLastLba := sub64 (gptInfo.devDensity / gptInfo.devBlockSize) 1
  if dispName = [] then .broke st
  else
    match st.preLastLba with
    | some preLastLba =>
        match adjustGpt st.memory st.ptnInfo dispName preLastLba lastPtnLastLba with
        | none => .broke { st with failed := true }
        | some memory =>
            .went (st.next entrySize memory (some (getLlword memory (st.ptnInfo + lastLbaOffset))))
    | none =>
        if dispName = modifyInfo.dispName then
          let firstLba := modifyInfo.startAddr / gptInfo.devBlockSize
          let lastLba := sub64 (firstLba + modifyInfo.partitionSize / gptInfo.devBlockSize) 1
          if dispName = userdataPartition ∧ lastLba ≠ lastPtnLastLba then
            .broke { st with failed := true }
          else
            .went (st.next entrySize
              (putLongLong (putLongLong st.memory (st.ptnInfo + firstLbaOffset) firstLba)
                (st.ptnInfo + lastLbaOffset) lastLba) (some lastLba))
        else .went (st.next entrySize st.memory none)

/-- The loop of `ChangeGpt` is the one that takes these turns. -/
theorem changeGptLoop_eq_run (gptSize entrySize : Nat) (gptInfo : GptParseInfo)
    (modifyInfo : PtnInfo) (fuel : Nat) (st : ChangeState) (running : st.failed = false) :
    changeGptLoop gptSize entrySize gptInfo modifyInfo fuel st.memory st.ptnInfo st.readSize
        st.preLastLba =
      (TurnLoop.run (changeMore gptSize) (changeTurn entrySize gptInfo modifyInfo) fuel st).bind
        fun last => if last.failed then none else some last.memory := by
  induction fuel generalizing st with
  | zero => rfl
  | succ fuel ih =>
      rw [changeGptLoop, TurnLoop.run]
      by_cases past : gptSize ≤ st.readSize
      · have done : ¬ changeMore gptSize st = true := by simpa [changeMore] using past
        rw [if_pos past, if_neg done, Option.bind_some, if_neg (by simp [running])]
      · have more : changeMore gptSize st = true := by simpa [changeMore] using past
        rw [if_neg past, if_pos more, changeTurn]
        dsimp only
        by_cases empty : parsePartitionName st.memory (st.ptnInfo + gptPartitionNameOffset) = []
        · rw [if_pos empty, if_pos empty]
          dsimp only
          rw [Option.bind_some, if_neg (by simp [running])]
        · rw [if_neg empty, if_neg empty]
          cases pre : st.preLastLba with
          | some preLastLba =>
              dsimp only
              cases adjusted : adjustGpt st.memory st.ptnInfo
                  (parsePartitionName st.memory (st.ptnInfo + gptPartitionNameOffset)) preLastLba
                  (sub64 (gptInfo.devDensity / gptInfo.devBlockSize) 1) with
              | none => rfl
              | some memory => exact ih (st.next entrySize memory _) rfl
          | none =>
              dsimp only
              by_cases found : parsePartitionName st.memory
                  (st.ptnInfo + gptPartitionNameOffset) = modifyInfo.dispName
              · rw [if_pos found, if_pos found]
                split
                · rfl
                · exact ih (st.next entrySize _ _) rfl
              · rw [if_neg found, if_neg found]
                exact ih (st.next entrySize st.memory none) rfl

/-- An image of a table, from an address on, with the sizes of its blocks and of the device. -/
structure GptImage where
  memory : Memory
  gptBuf : Nat
  gptSize : Nat
  gptInfo : GptParseInfo

namespace GptImage

variable (image : GptImage)

/-- `ChangeGpt` refuses the input. -/
def Refused : Prop :=
  image.gptSize = 0 ∨ image.gptSize ≤ image.gptInfo.imgBlockSize ∨ image.gptInfo.devBlockSize = 0

def entrySize : Nat :=
  getLlword image.memory (image.gptBuf + image.gptInfo.imgBlockSize + pentrySizeOffset) % 2 ^ 32

/-- Where the entries begin in the image. -/
def entriesStart : Nat :=
  getLlword image.memory (image.gptBuf + image.gptInfo.imgBlockSize + partitionEntriesOffset) *
    image.gptInfo.imgBlockSize % 2 ^ 64

/-- The address of an entry. -/
def entryAddress (k : Nat) : Nat :=
  image.gptBuf + image.entriesStart + image.entrySize * k

/-- How many entries begin inside the image. -/
def entryCount : Nat :=
  (image.gptSize - image.entriesStart + image.entrySize - 1) / image.entrySize

/-- The partitions of the image. -/
def table : List Entry :=
  tableEvery image.entrySize image.memory (image.entryAddress 0) image.entryCount

/-- The blocks of the device that partitions may use. -/
def blocks : Nat :=
  image.gptInfo.devDensity / image.gptInfo.devBlockSize

/-- `ChangeGpt` returns true and leaves this memory. -/
def Changed (modifyInfo : PtnInfo) (edited : Memory) : Prop :=
  ∃ fuel, changeGpt fuel image.memory image.gptBuf image.gptSize image.gptInfo modifyInfo =
    some edited

/-- The loop of `ChangeGpt` ends. -/
def Ends (modifyInfo : PtnInfo) : Prop :=
  ¬ image.Refused → TurnLoop.Ends (changeMore image.gptSize)
    (changeTurn image.entrySize image.gptInfo modifyInfo)
    { memory := image.memory
      ptnInfo := image.entryAddress 0
      readSize := image.entriesStart
      preLastLba := none }

/-- All that `ChangeGpt` reads and writes is in the image. -/
def Inside (modifyInfo : PtnInfo) : Prop :=
  ∀ fuel, ∀ access ∈ changeGptAccesses fuel image.memory image.gptBuf image.gptSize image.gptInfo
    modifyInfo, image.gptBuf ≤ access.start ∧ access.end_ ≤ image.gptBuf + image.gptSize

/-- All entries in front of this one have a name. -/
def NamedBefore (k : Nat) : Prop :=
  ∀ j < k, parsePartitionName image.memory (image.entryAddress j + gptPartitionNameOffset) ≠ []

/-- The header is whole in the image, and so is every entry that begins in it up to the first one
without a name; and entries without a size come only where there is no first one. -/
def WalkFits : Prop :=
  ¬ image.Refused →
    image.gptInfo.imgBlockSize + pentrySizeOffset + 8 ≤ image.gptSize ∧
    (∀ k, image.entriesStart + image.entrySize * k < image.gptSize → image.NamedBefore k →
      image.entriesStart + image.entrySize * k + partitionEntrySize ≤ image.gptSize) ∧
    (image.entrySize = 0 → image.gptSize ≤ image.entriesStart ∨
      parsePartitionName image.memory (image.entryAddress 0 + gptPartitionNameOffset) = [])

/-- A table of whole entries, in order and within the device. -/
structure Ordered (firstUsable : Nat) : Prop where
  size : image.gptInfo.imgBlockSize < image.gptSize
  entrySize : partitionEntrySize ≤ image.entrySize
  blockSize : 2 ≤ image.gptInfo.devBlockSize
  density : image.gptInfo.devDensity < 2 ^ 64
  table : OrderedTable firstUsable image.blocks image.table

/-- A change of a partition of the table: from its own first block on, to some whole blocks. -/
structure Modifies (modifyInfo : PtnInfo) (front : List Entry) (entry : Entry)
    (later : List Entry) : Prop where
  table : image.table = front ++ entry :: later
  name : entry.name = modifyInfo.dispName
  first : ∀ other ∈ front, other.name ≠ modifyInfo.dispName
  start : modifyInfo.startAddr = entry.firstLba * image.gptInfo.devBlockSize
  positive : 0 < modifyInfo.partitionSize
  blocks : image.gptInfo.devBlockSize ∣ modifyInfo.partitionSize
  small : modifyInfo.partitionSize < 2 ^ 64

/-- The blocks that a change asks for. -/
def sectors (modifyInfo : PtnInfo) : Nat :=
  modifyInfo.partitionSize / image.gptInfo.devBlockSize

/-- The table after a change: in order, resized, and only LBAs of the partition and of those behind
it have changed. -/
structure WellChanged (firstUsable : Nat) (modifyInfo : PtnInfo) (front : List Entry)
    (entry : Entry) (later : List Entry) (edited : Memory) : Prop where
  ordered : OrderedTable firstUsable image.blocks
    (tableEvery image.entrySize edited (image.entryAddress 0) image.entryCount)
  resize : Resize (image.sectors modifyInfo) front entry later
    (tableEvery image.entrySize edited (image.entryAddress 0) image.entryCount)
  bytes : ∀ place, edited place ≠ image.memory place →
    ∃ k, front.length ≤ k ∧ k < image.table.length ∧
      image.entryAddress k + firstLbaOffset ≤ place ∧
      place < image.entryAddress k + lastLbaOffset + 8

section Walk

variable {image} {modifyInfo : PtnInfo} {memory : Memory}

theorem changeGpt_eq (accepted : ¬ image.Refused) (fuel : Nat) :
    changeGpt fuel image.memory image.gptBuf image.gptSize image.gptInfo modifyInfo =
      changeGptLoop image.gptSize image.entrySize image.gptInfo modifyInfo fuel image.memory
        (image.entryAddress 0) image.entriesStart none := by
  rw [Refused] at accepted
  rw [changeGpt, if_neg accepted]
  rfl

theorem changeGptAccesses_eq (accepted : ¬ image.Refused) (fuel : Nat) :
    changeGptAccesses fuel image.memory image.gptBuf image.gptSize image.gptInfo modifyInfo =
      { start := image.gptBuf + image.gptInfo.imgBlockSize + pentrySizeOffset, length := 8 } ::
        { start := image.gptBuf + image.gptInfo.imgBlockSize + partitionEntriesOffset,
          length := 8 } ::
        changeGptLoopAccesses image.gptSize image.entrySize image.gptInfo modifyInfo fuel
          image.memory (image.entryAddress 0) image.entriesStart none := by
  rw [Refused] at accepted
  rw [changeGptAccesses, if_neg accepted]
  rfl

theorem entryAddress_succ (k : Nat) :
    image.entryAddress k + image.entrySize = image.entryAddress (k + 1) := by
  rw [entryAddress, entryAddress, Nat.mul_succ, ← Nat.add_assoc]

theorem namedBefore_succ {k : Nat} (before : image.NamedBefore k)
    (named : parsePartitionName image.memory (image.entryAddress k + gptPartitionNameOffset) ≠ []) :
    image.NamedBefore (k + 1) := by
  intro j within
  rcases Nat.lt_succ_iff_lt_or_eq.mp within with earlier | rfl
  · exact before j earlier
  · exact named

/-- The names from an entry on are those of the image. -/
def SameNames (image : GptImage) (memory : Memory) (k : Nat) : Prop :=
  ∀ i, memory (image.entryAddress k + gptPartitionNameOffset + i) =
    image.memory (image.entryAddress k + gptPartitionNameOffset + i)

theorem SameNames.name {k : Nat} (same : image.SameNames memory k) :
    parsePartitionName memory (image.entryAddress k + gptPartitionNameOffset) =
      parsePartitionName image.memory (image.entryAddress k + gptPartitionNameOffset) :=
  parsePartitionName_congr fun i _ => same i

theorem SameNames.next {k : Nat} (same : image.SameNames memory k) :
    image.SameNames memory (k + 1) := by
  intro i
  have there := same (image.entrySize + i)
  have address : image.entryAddress k + gptPartitionNameOffset + (image.entrySize + i) =
      image.entryAddress (k + 1) + gptPartitionNameOffset + i := by
    rw [← entryAddress_succ]
    omega
  rwa [address] at there

/-- The LBAs stand in front of the name of their entry. -/
theorem SameNames.store {k first last : Nat} (same : image.SameNames memory k) :
    image.SameNames (putLongLong (putLongLong memory (image.entryAddress k + firstLbaOffset) first)
      (image.entryAddress k + lastLbaOffset) last) k := by
  intro i
  rw [putLongLong_outside, putLongLong_outside]
  · exact same i
  · refine .inr ?_
    rw [firstLbaOffset, gptPartitionNameOffset]
    omega
  · refine .inr ?_
    rw [lastLbaOffset, gptPartitionNameOffset]
    omega

theorem adjustGpt_puts {address pre deviceLast : Nat} {name : Bytes} {edited : Memory}
    (adjusted : adjustGpt memory address name pre deviceLast = some edited) :
    ∃ first last, edited = putLongLong (putLongLong memory (address + firstLbaOffset) first)
      (address + lastLbaOffset) last := by
  rw [adjustGpt] at adjusted
  split at adjusted
  · cases adjusted
  · split at adjusted
    · exact ⟨_, _, (Option.some.inj adjusted).symm⟩
    · dsimp only at adjusted
      split at adjusted
      · cases adjusted
      · exact ⟨_, _, (Option.some.inj adjusted).symm⟩

/-- The loop stays in the image where every entry that it comes to is whole. -/
theorem loopAccesses_inside (whole : ∀ k,
      image.entriesStart + image.entrySize * k < image.gptSize → image.NamedBefore k →
      image.entriesStart + image.entrySize * k + partitionEntrySize ≤ image.gptSize)
    {fuel k : Nat} {pre : Option Nat} (names : image.SameNames memory k)
    (before : image.NamedBefore k) {access : Access}
    (made : access ∈ changeGptLoopAccesses image.gptSize image.entrySize image.gptInfo modifyInfo
      fuel memory (image.entryAddress k) (image.entriesStart + image.entrySize * k) pre) :
    image.gptBuf ≤ access.start ∧ access.end_ ≤ image.gptBuf + image.gptSize := by
  induction fuel generalizing k memory pre with
  | zero => cases made
  | succ fuel ih =>
      rw [changeGptLoopAccesses] at made
      split at made
      · cases made
      · rename_i inside
        have fits := whole k (Nat.not_le.mp inside) before
        have start : image.entryAddress k =
            image.gptBuf + (image.entriesStart + image.entrySize * k) := by
          rw [entryAddress, Nat.add_assoc]
        have entry : ∀ offset length, offset + length ≤ partitionEntrySize →
            image.gptBuf ≤ (Access.mk (image.entryAddress k + offset) length).start ∧
              (Access.mk (image.entryAddress k + offset) length).end_ ≤
                image.gptBuf + image.gptSize := by
          intro offset length room
          rw [Access.end_]
          dsimp only
          omega
        have name := entry gptPartitionNameOffset maxGptNameSize (by decide)
        have lbas := entry firstLbaOffset 16 (by decide)
        have readSize : image.entriesStart + image.entrySize * k + image.entrySize =
            image.entriesStart + image.entrySize * (k + 1) := by
          rw [Nat.mul_succ, Nat.add_assoc]
        rw [names.name, readSize, entryAddress_succ] at made
        dsimp only at made
        split at made
        · rw [List.mem_singleton.mp made]
          exact name
        · rename_i named
          have step := namedBefore_succ before named
          cases pre with
          | some pre =>
              dsimp only at made
              split at made
              · rcases List.mem_cons.mp made with rfl | made
                · exact name
                · rw [List.mem_singleton.mp made]
                  exact lbas
              · rename_i next adjusted
                obtain ⟨first, last, rfl⟩ := adjustGpt_puts adjusted
                rcases List.mem_cons.mp made with rfl | made
                · exact name
                · rcases List.mem_cons.mp made with rfl | made
                  · exact lbas
                  · exact ih names.store.next step made
          | none =>
              dsimp only at made
              split at made
              · split at made
                · rw [List.mem_singleton.mp made]
                  exact name
                · rcases List.mem_cons.mp made with rfl | made
                  · exact name
                  · rcases List.mem_cons.mp made with rfl | made
                    · exact lbas
                    · exact ih names.store.next step made
              · rcases List.mem_cons.mp made with rfl | made
                · exact name
                · exact ih names.next step made

/-- A turn that goes on comes to the entry behind. -/
theorem changeTurn_went {entrySize : Nat} {gptInfo : GptParseInfo} {st next : ChangeState}
    (went : changeTurn entrySize gptInfo modifyInfo st = .went next) :
    ∃ memory pre, next = st.next entrySize memory pre := by
  rw [changeTurn] at went
  dsimp only at went
  split at went
  · cases went
  · split at went
    · split at went
      · cases went
      · exact ⟨_, _, (Turn.went.inj went).symm⟩
    · split at went
      · split at went
        · cases went
        · exact ⟨_, _, (Turn.went.inj went).symm⟩
      · exact ⟨_, _, (Turn.went.inj went).symm⟩

theorem changeTurn_not_blocked {entrySize : Nat} {gptInfo : GptParseInfo} (st : ChangeState) :
    changeTurn entrySize gptInfo modifyInfo st ≠ .blocked := by
  rw [changeTurn]
  dsimp only
  split
  · exact fun same => nomatch same
  · split
    · split
      · exact fun same => nomatch same
      · exact fun same => nomatch same
    · split
      · split
        · exact fun same => nomatch same
        · exact fun same => nomatch same
      · exact fun same => nomatch same

/-- With entries of some size each turn comes closer to the end of the image. -/
theorem ends_of_entrySize (sized : 0 < image.entrySize) : image.Ends modifyInfo := by
  intro _
  refine TurnLoop.ends_of_descends
    (measure fun st : ChangeState => image.gptSize - st.readSize).wf fun st _ more => ?_
  refine ⟨changeTurn_not_blocked st, fun next went => ?_⟩
  obtain ⟨memory, pre, rfl⟩ := changeTurn_went went
  have inside : st.readSize < image.gptSize := of_decide_eq_true more
  show image.gptSize - (st.readSize + image.entrySize) < image.gptSize - st.readSize
  omega

/-- A name that is too long for any entry. -/
def absentName : PtnInfo where
  startAddr := 0
  partitionSize := 0
  partitionTypeGuid := []
  lun := 0
  gptEntryBufOffset := 0
  isTailPart := false
  dispName := List.replicate maxGptNameSize 65

theorem parsePartitionName_ne_absent (memory : Memory) (address : Nat) :
    parsePartitionName memory address ≠ absentName.dispName := by
  intro same
  have short : (parsePartitionName memory address).length ≤ maxGptNameSize / 2 := by
    rw [parsePartitionName, List.length_map]
    refine Nat.le_trans (List.takeWhile_sublist _).length_le ?_
    rw [List.length_map, List.length_range]
  rw [same, absentName, List.length_replicate] at short
  exact absurd short (by decide)

/-- A change of no partition reads every name up to the first empty one. -/
theorem name_read (left k : Nat)
    (inside : image.entriesStart + image.entrySize * (k + left) < image.gptSize)
    (before : image.NamedBefore (k + left)) :
    (Access.mk (image.entryAddress (k + left) + gptPartitionNameOffset) maxGptNameSize) ∈
      changeGptLoopAccesses image.gptSize image.entrySize image.gptInfo absentName (left + 1)
        image.memory (image.entryAddress k) (image.entriesStart + image.entrySize * k) none := by
  induction left generalizing k with
  | zero =>
      rw [Nat.add_zero] at inside ⊢
      rw [changeGptLoopAccesses, if_neg (Nat.not_le.mpr inside)]
      dsimp only
      split
      · exact List.mem_cons_self
      · split
        · split
          · exact List.mem_cons_self
          · exact List.mem_cons_self
        · exact List.mem_cons_self
  | succ left ih =>
      have here : image.entriesStart + image.entrySize * k < image.gptSize := by
        have monotone : image.entrySize * k ≤ image.entrySize * (k + (left + 1)) :=
          Nat.mul_le_mul_left _ (Nat.le_add_right _ _)
        omega
      have named := before k (by omega)
      have readSize : image.entriesStart + image.entrySize * k + image.entrySize =
          image.entriesStart + image.entrySize * (k + 1) := by
        rw [Nat.mul_succ, Nat.add_assoc]
      have shift : k + (left + 1) = k + 1 + left := by omega
      rw [shift] at inside before ⊢
      rw [changeGptLoopAccesses, if_neg (Nat.not_le.mpr here)]
      dsimp only
      rw [if_neg named, if_neg (parsePartitionName_ne_absent _ _), readSize, entryAddress_succ]
      exact List.mem_cons_of_mem _ (ih (k + 1) inside before)

/-- Entries without a size keep the loop at the first one, if this has a name. -/
theorem not_ends_of_no_size (none : image.entrySize = 0)
    (inside : image.entriesStart < image.gptSize)
    (named : parsePartitionName image.memory (image.entryAddress 0 + gptPartitionNameOffset) ≠ [])
    (accepted : ¬ image.Refused) : ¬ image.Ends absentName := by
  intro ends
  refine TurnLoop.not_ends_of_stays (fun st => st =
    { memory := image.memory
      ptnInfo := image.entryAddress 0
      readSize := image.entriesStart
      preLastLba := .none }) rfl ?_ (ends accepted)
  rintro st rfl
  refine ⟨decide_eq_true inside, .inr ⟨_, ?_, rfl⟩⟩
  rw [changeTurn]
  dsimp only
  rw [if_neg named, if_neg (parsePartitionName_ne_absent _ _), ChangeState.next, none]
  rfl

/-- Whatever is changed, `ChangeGpt` ends and stays in the image exactly where its walk fits. -/
theorem walkFits_iff (image : GptImage) :
    (∀ modifyInfo, image.Ends modifyInfo ∧ image.Inside modifyInfo) ↔ image.WalkFits := by
  constructor
  · intro safe accepted
    obtain ⟨ends, inside⟩ := safe absentName
    have made : ∀ fuel access, access ∈ changeGptLoopAccesses image.gptSize image.entrySize
        image.gptInfo absentName fuel image.memory (image.entryAddress 0) image.entriesStart none →
        access.end_ ≤ image.gptBuf + image.gptSize := by
      intro fuel access member
      refine (inside fuel access ?_).2
      rw [changeGptAccesses_eq accepted]
      exact List.mem_cons_of_mem _ (List.mem_cons_of_mem _ member)
    refine ⟨?_, fun k start before => ?_, fun none => ?_⟩
    · have header := (inside 0 (Access.mk (image.gptBuf + image.gptInfo.imgBlockSize +
        pentrySizeOffset) 8) (by
          rw [changeGptAccesses_eq accepted]
          exact List.mem_cons_self)).2
      rw [Access.end_] at header
      dsimp only at header
      omega
    · have member := @name_read image k 0 (by rwa [Nat.zero_add]) (by rwa [Nat.zero_add])
      rw [Nat.zero_add, Nat.mul_zero, Nat.add_zero] at member
      have fits := made _ _ member
      rw [Access.end_, entryAddress, gptPartitionNameOffset, maxGptNameSize] at fits
      dsimp only at fits
      rw [partitionEntrySize]
      omega
    · by_contra stays
      rw [not_or, Nat.not_le] at stays
      exact not_ends_of_no_size none stays.1 stays.2 accepted ends
  · intro fits modifyInfo
    constructor
    · by_cases none : image.entrySize = 0
      · intro accepted
        by_cases past : image.gptSize ≤ image.entriesStart
        · refine ⟨1, _, if_neg ?_⟩
          simpa [changeMore] using past
        · have empty := ((fits accepted).2.2 none).resolve_left past
          refine ⟨1,
            { memory := image.memory
              ptnInfo := image.entryAddress 0
              readSize := image.entriesStart
              preLastLba := .none }, ?_⟩
          rw [TurnLoop.run, changeMore, if_pos (by simpa using past), changeTurn]
          dsimp only
          rw [if_pos empty]
      · exact ends_of_entrySize (Nat.pos_of_ne_zero none)
    · intro fuel access made
      by_cases accepted : image.Refused
      · rw [Refused] at accepted
        rw [changeGptAccesses, if_pos accepted] at made
        cases made
      · rw [changeGptAccesses_eq accepted] at made
        obtain ⟨header, whole, -⟩ := fits accepted
        have field : ∀ at_, at_ ≤ pentrySizeOffset →
            image.gptBuf ≤ (Access.mk (image.gptBuf + image.gptInfo.imgBlockSize + at_) 8).start ∧
              (Access.mk (image.gptBuf + image.gptInfo.imgBlockSize + at_) 8).end_ ≤
                image.gptBuf + image.gptSize := by
          intro at_ low
          rw [Access.end_]
          dsimp only
          omega
        rcases List.mem_cons.mp made with rfl | made
        · exact field _ (Nat.le_refl _)
        · rcases List.mem_cons.mp made with rfl | made
          · exact field _ (by decide)
          · refine loopAccesses_inside (k := 0) whole (fun i => rfl)
              (fun j none => absurd none (Nat.not_lt_zero j)) made

end Walk

section Resizes

variable {image} {firstUsable : Nat} {modifyInfo : PtnInfo} {front later : List Entry}
  {entry : Entry} {edited : Memory}

theorem covers (sized : 0 < image.entrySize) :
    Covers image.entrySize image.gptSize image.entriesStart image.entryCount := by
  have division := Nat.div_add_mod (image.gptSize - image.entriesStart + image.entrySize - 1)
    image.entrySize
  have remainder := Nat.mod_lt (image.gptSize - image.entriesStart + image.entrySize - 1) sized
  constructor
  case whole =>
    rw [entryCount]
    omega
  case inside =>
    intro k within
    have below : image.entrySize * (k + 1) ≤ image.entrySize * image.entryCount :=
      Nat.mul_le_mul_left _ within
    rw [entryCount, Nat.mul_succ] at below
    omega

theorem Ordered.accepted (ordered : image.Ordered firstUsable) : ¬ image.Refused := by
  have size := ordered.size
  have blockSize := ordered.blockSize
  rw [Refused]
  omega

theorem Ordered.blocks_small (ordered : image.Ordered firstUsable) : image.blocks ≤ 2 ^ 63 := by
  have density := ordered.density
  have half : image.gptInfo.devDensity / image.gptInfo.devBlockSize ≤
      image.gptInfo.devDensity / 2 := Nat.div_le_div_left ordered.blockSize (by decide)
  rw [blocks]
  omega

theorem Modifies.within (modifies : image.Modifies modifyInfo front entry later)
    (ordered : image.Ordered firstUsable) :
    entry.firstLba ≤ entry.lastLba ∧ entry.lastLba < image.blocks := by
  refine (ordered.table.within entry ?_).2
  rw [modifies.table]
  exact List.mem_append_right _ List.mem_cons_self

theorem Modifies.deviceLast_eq (modifies : image.Modifies modifyInfo front entry later)
    (ordered : image.Ordered firstUsable) : image.gptInfo.deviceLast = image.blocks - 1 := by
  have within := modifies.within ordered
  have small := ordered.blocks_small
  have device : image.gptInfo.deviceLast = sub64 image.blocks 1 := rfl
  rw [device, sub64]
  omega

theorem Modifies.sectors_pos (modifies : image.Modifies modifyInfo front entry later) :
    0 < image.sectors modifyInfo := by
  obtain ⟨count, size⟩ := modifies.blocks
  have positive := modifies.positive
  rw [sectors, size]
  have nonzero : 0 < image.gptInfo.devBlockSize * count := by omega
  rw [Nat.mul_div_cancel_left _ (Nat.pos_of_mul_pos_right nonzero)]
  exact Nat.pos_of_mul_pos_left nonzero

theorem Modifies.sectors_small (modifies : image.Modifies modifyInfo front entry later)
    (ordered : image.Ordered firstUsable) : image.sectors modifyInfo < 2 ^ 63 := by
  have small := modifies.small
  have half : modifyInfo.partitionSize / image.gptInfo.devBlockSize ≤
      modifyInfo.partitionSize / 2 := Nat.div_le_div_left ordered.blockSize (by decide)
  rw [sectors]
  omega

theorem Modifies.lastLba_eq (modifies : image.Modifies modifyInfo front entry later)
    (ordered : image.Ordered firstUsable) :
    (entry.sized (image.sectors modifyInfo)).lastLba =
      entry.firstLba + image.sectors modifyInfo - 1 := by
  have within := modifies.within ordered
  have small := ordered.blocks_small
  exact sized_lastLba (by omega) modifies.sectors_pos (modifies.sectors_small ordered)

/-- The table with the partition resized and those behind it moved. -/
def resizedTable (image : GptImage) (modifyInfo : PtnInfo) (front : List Entry) (entry : Entry)
    (later : List Entry) : List Entry :=
  front ++ entry.sized (image.sectors modifyInfo) ::
    shifted (image.blocks - 1) (entry.sized (image.sectors modifyInfo)).lastLba later

/-- When `ChangeGpt` returns true, and what it stores then. -/
theorem changed_iff (ordered : image.Ordered firstUsable)
    (modifies : image.Modifies modifyInfo front entry later) :
    image.Changed modifyInfo edited ↔
      ((entry.name = userdataPartition →
          (entry.sized (image.sectors modifyInfo)).lastLba = image.blocks - 1) ∧
        AcceptsBehind (image.blocks - 1) (entry.sized (image.sectors modifyInfo)).lastLba later) ∧
      edited = storeEvery image.entrySize image.memory (image.entryAddress 0)
        (image.resizedTable modifyInfo front entry later) := by
  have apart := ordered.entrySize
  have begins : modifyInfo.startAddr / image.gptInfo.devBlockSize = entry.firstLba := by
    have blockSize := ordered.blockSize
    rw [modifies.start, Nat.mul_div_cancel _ (by omega)]
  have sized : 0 < image.entrySize := by
    rw [partitionEntrySize] at apart
    omega
  have loop := fun fuel enough => @changeGptLoop_resizes_iff image.gptSize image.entrySize fuel
    image.gptInfo modifyInfo image.memory edited (image.entryAddress 0) image.entriesStart
    image.entryCount front later entry apart (covers sized) enough modifies.table modifies.first
    modifies.name begins
  rw [modifies.deviceLast_eq ordered] at loop
  constructor
  · rintro ⟨fuel, changed⟩
    rw [changeGpt_eq ordered.accepted] at changed
    exact (loop (max fuel (image.entryCount + 1)) (by omega)).mp
      (changeGptLoop_mono (Nat.le_max_left _ _) changed)
  · intro accepted
    refine ⟨image.entryCount + 1, ?_⟩
    rw [changeGpt_eq ordered.accepted]
    exact (loop (image.entryCount + 1) (Nat.lt_succ_self _)).mpr accepted

theorem names_resizedTable (modifies : image.Modifies modifyInfo front entry later) :
    (image.resizedTable modifyInfo front entry later).map Entry.name =
      image.table.map Entry.name := by
  have name : (entry.sized (image.sectors modifyInfo)).name = entry.name := by rw [Entry.sized]
  rw [resizedTable, modifies.table, List.map_append, List.map_append, List.map_cons, List.map_cons,
    names_shifted, name]

theorem length_resizedTable (modifies : image.Modifies modifyInfo front entry later) :
    (image.resizedTable modifyInfo front entry later).length = image.table.length := by
  have lengths := congrArg List.length (names_resizedTable modifies)
  rwa [List.length_map, List.length_map] at lengths

/-- Only LBAs of the partition and of those behind it change. -/
theorem stored_bytes (modifies : image.Modifies modifyInfo front entry later) {place : Nat}
    (changes : storeEvery image.entrySize image.memory (image.entryAddress 0)
      (image.resizedTable modifyInfo front entry later) place ≠ image.memory place) :
    ∃ k, front.length ≤ k ∧ k < image.table.length ∧
      image.entryAddress k + firstLbaOffset ≤ place ∧
      place < image.entryAddress k + lastLbaOffset + 8 := by
  have lengths := length_resizedTable modifies
  rw [resizedTable, storeEvery_front front modifies.table] at changes
  rw [resizedTable, List.length_append] at lengths
  obtain ⟨k, within, low, high⟩ := storeEvery_changes changes
  have address : image.entryAddress 0 + image.entrySize * front.length + image.entrySize * k =
      image.entryAddress (front.length + k) := by
    rw [entryAddress, entryAddress, Nat.mul_zero, Nat.mul_add]
    omega
  rw [address] at low high
  exact ⟨front.length + k, Nat.le_add_right _ _, by omega, low, high⟩

/-- A change that returns true leaves the table well formed exactly where there is room. -/
theorem wellChanged_iff (ordered : image.Ordered firstUsable)
    (modifies : image.Modifies modifyInfo front entry later) :
    (∀ edited, image.Changed modifyInfo edited →
        image.WellChanged firstUsable modifyInfo front entry later edited) ↔
      (entry.name = userdataPartition ∧
          entry.firstLba + image.sectors modifyInfo - 1 ≠ image.blocks - 1) ∨
        RoomBehind (image.blocks - 1) (entry.firstLba + image.sectors modifyInfo - 1) later := by
  have table := ordered.table
  rw [modifies.table] at table
  have room := resize_ordered_iff table ordered.blocks_small modifies.sectors_pos
    (modifies.sectors_small ordered)
  rw [modifies.lastLba_eq ordered] at room
  have read := tableEvery_storeEvery ordered.entrySize (names_resizedTable modifies)
  rw [← room]
  have changed := fun edited => @changed_iff image firstUsable modifyInfo front later entry edited
    ordered modifies
  simp only [modifies.lastLba_eq ordered] at changed
  have tableIs : image.resizedTable modifyInfo front entry later =
      front ++ entry.sized (image.sectors modifyInfo) :: shifted (image.blocks - 1)
        (entry.firstLba + image.sectors modifyInfo - 1) later := by
    rw [resizedTable, modifies.lastLba_eq ordered]
  constructor
  · intro well
    by_cases refused : entry.name = userdataPartition ∧
        entry.firstLba + image.sectors modifyInfo - 1 ≠ image.blocks - 1
    · exact .inl refused
    · refine .inr fun accepts => ?_
      have left := well _ ((changed _).mpr ⟨⟨fun userdata =>
        Classical.not_not.mp fun differs => refused ⟨userdata, differs⟩, accepts⟩, rfl⟩)
      have inOrder := left.ordered
      have resize := left.resize
      rw [read, tableIs] at inOrder resize
      exact ⟨inOrder, resize⟩
  · rintro (refused | fits) edited left
    · exact absurd (((changed edited).mp left).1.1 refused.1) refused.2
    · obtain ⟨⟨-, accepts⟩, rfl⟩ := (changed edited).mp left
      obtain ⟨inOrder, resize⟩ := fits accepts
      rw [← tableIs, ← read] at inOrder resize
      exact ⟨inOrder, resize, fun place changes => stored_bytes modifies changes⟩

end Resizes

/-- For every image `ChangeGpt` ends and stays inside, whatever is changed, exactly where the walk
over its entries fits; and for every ordered table a change that returns true leaves it well formed
exactly where it is refused for userdata, or there is room behind the resized partition. -/
theorem changeGpt_keeps_iff (image : GptImage) :
    ((∀ modifyInfo, image.Ends modifyInfo ∧ image.Inside modifyInfo) ↔ image.WalkFits) ∧
    ∀ firstUsable modifyInfo front entry later, image.Ordered firstUsable →
      image.Modifies modifyInfo front entry later →
      ((∀ edited, image.Changed modifyInfo edited →
          image.WellChanged firstUsable modifyInfo front entry later edited) ↔
        (entry.name = userdataPartition ∧
            entry.firstLba + image.sectors modifyInfo - 1 ≠ image.blocks - 1) ∨
          RoomBehind (image.blocks - 1) (entry.firstLba + image.sectors modifyInfo - 1) later) :=
  ⟨image.walkFits_iff, fun _ _ _ _ _ ordered modifies => wellChanged_iff ordered modifies⟩

section Tail

/-- Three partitions: A, userdata and the tail partition T behind it. -/
def tailMemory : Memory :=
  let entry := fun (name : Bytes) (firstLba lastLba : Nat) =>
    List.replicate 32 1 ++ leBytes 8 firstLba ++ leBytes 8 lastLba ++ leBytes 8 0 ++
      name.flatMap (fun byte => [byte, 0]) ++ List.replicate (maxGptNameSize - 2 * name.length) 0
  Memory.write (Memory.write (fun _ => 0) (512 + partitionEntriesOffset)
      (leBytes 8 2 ++ leBytes 4 3 ++ leBytes 4 partitionEntrySize))
    1024 (entry (ascii "A") 40 49 ++ entry userdataPartition 50 89 ++ entry (ascii "T") 90 99)

def tailImage : GptImage where
  memory := tailMemory
  gptBuf := 0
  gptSize := 2048
  gptInfo := { imgBlockSize := 512, devBlockSize := 512, devDensity := 100 * 512 }

/-- Another size for A. -/
def sizeOfA (sectors : Nat) : PtnInfo where
  startAddr := 40 * 512
  partitionSize := sectors * 512
  partitionTypeGuid := []
  lun := 0
  gptEntryBufOffset := 0
  isTailPart := false
  dispName := ascii "A"

def tailEntry (name : Bytes) (firstLba lastLba : Nat) (first_lt : firstLba < 2 ^ 64)
    (last_lt : lastLba < 2 ^ 64) : Entry where
  name := name
  firstLba := firstLba
  lastLba := lastLba
  first_lt := first_lt
  last_lt := last_lt

def partitionA : Entry := tailEntry (ascii "A") 40 49 (by decide) (by decide)

def behindA : List Entry :=
  [tailEntry userdataPartition 50 89 (by decide) (by decide),
    tailEntry (ascii "T") 90 99 (by decide) (by decide)]

set_option maxRecDepth 20000 in
theorem tailImage_table : tailImage.table = [] ++ partitionA :: behindA := by
  decide +kernel

theorem tailImage_ordered : tailImage.Ordered 34 where
  size := by decide
  entrySize := by decide +kernel
  blockSize := by decide
  density := by decide
  table := by
    rw [tailImage_table]
    exact ⟨by decide +kernel, by decide +kernel⟩

theorem tailImage_modifies {count : Nat} (positive : 0 < count) (small : count < 2 ^ 32) :
    tailImage.Modifies (sizeOfA count) [] partitionA behindA where
  table := tailImage_table
  name := rfl
  first := fun other member => (List.not_mem_nil member).elim
  start := rfl
  positive := Nat.mul_pos positive (by decide)
  blocks := Nat.dvd_mul_left _ _
  small := by
    rw [sizeOfA]
    dsimp only
    omega

/-- Fewer blocks for A: userdata takes the rest of the device, and T is moved behind its end. -/
theorem tailImage_broken :
    tailImage.Ordered 34 ∧ tailImage.Modifies (sizeOfA 5) [] partitionA behindA ∧
      ∃ edited, tailImage.Changed (sizeOfA 5) edited ∧
        ¬ tailImage.WellChanged 34 (sizeOfA 5) [] partitionA behindA edited := by
  have modifies := tailImage_modifies (show 0 < 5 by decide) (by decide)
  refine ⟨tailImage_ordered, modifies, ?_⟩
  by_contra kept
  push Not at kept
  have room := (wellChanged_iff tailImage_ordered modifies).mp kept
  rw [behindA, roomBehind_cons_userdata rfl] at room
  revert room
  decide +kernel

theorem tailImage_keeps_iff :
    ((∀ modifyInfo, tailImage.Ends modifyInfo ∧ tailImage.Inside modifyInfo) ↔
        tailImage.WalkFits) ∧
      ((∀ edited, tailImage.Changed (sizeOfA 10) edited →
          tailImage.WellChanged 34 (sizeOfA 10) [] partitionA behindA edited) ↔
        (partitionA.name = userdataPartition ∧
            partitionA.firstLba + tailImage.sectors (sizeOfA 10) - 1 ≠ tailImage.blocks - 1) ∨
          RoomBehind (tailImage.blocks - 1)
            (partitionA.firstLba + tailImage.sectors (sizeOfA 10) - 1) behindA) :=
  have keeps := changeGpt_keeps_iff tailImage
  ⟨keeps.1, keeps.2 34 (sizeOfA 10) [] partitionA behindA tailImage_ordered
    (tailImage_modifies (by decide) (by decide))⟩

end Tail

end GptImage

end Updater.PtableParse
