import Mathlib.Data.List.Induction
import Updater.Base.KeyedBlocks
import Updater.PtableParse.UfsPtable

/-! The partition list of `UfsPtable` over a sequence of reads: the entries of each lun, and the
indices of userdata and of the ends of its lun, which only a read of this lun refreshes. -/

set_option autoImplicit false

namespace Updater.PtableParse

open Updater.Base

/-- `partitionInfo_` with the indices into it. -/
structure PartitionList where
  partitionInfo : List PtnInfo := []
  usrDataPtnIndex : Int := -1
  startPtnIndex : Int := -1
  endPtnIndex : Int := -1
  hasTailpart : Bool := false
  deriving DecidableEq

/-- The entries put in at `startIter` one after another. -/
def insertEntries : List PtnInfo → Nat → PartitionList → Nat × PartitionList
  | [], startIter, list => (startIter, list)
  | info :: entries, startIter, list =>
      insertEntries entries (startIter + 1)
        { list with
          usrDataPtnIndex :=
            if info.dispName = userdataPartition then (startIter : Int) else list.usrDataPtnIndex
          partitionInfo := list.partitionInfo.insertIdx startIter info }

/-- What `UfsReadGptEntry` does with the entries of a lun. -/
def PartitionList.putEntries (list : PartitionList) (entries : List PtnInfo) (startIter : Nat) :
    PartitionList :=
  let (startIter, list) := insertEntries entries startIter list
  if entries.any (·.dispName = userdataPartition) then
    let endPtnIndex := (startIter : Int) - 1
    { list with
      endPtnIndex := endPtnIndex
      startPtnIndex := endPtnIndex + 1 - entries.length
      hasTailpart := (list.partitionInfo[endPtnIndex.toNat]?.map (·.isTailPart)).getD false }
  else list

/-- A call of `UfsReadGpt`, with the answers of the system at that time. -/
structure GptRead where
  ptable : UfsPtable
  gptImage : Memory
  len : Nat
  lun : Nat
  blockSize : Nat

namespace GptRead

/-- The entries of the image, unless the input or the header is invalid. -/
def entries (call : GptRead) : Option (List PtnInfo) :=
  if call.len < call.ptable.ptableData.writeDeviceLunSize ∨ maxLunNumbers ≤ call.lun ∨
      call.blockSize = 0 ∨ call.len < 2 * call.blockSize then none
  else if call.ptable.parseGptHeaderByUfsLun call.gptImage call.len call.lun call.blockSize =
      false then none
  else
    let partEntryCnt := call.blockSize / partitionEntrySize
    some (call.ptable.ufsReadGptEntry call.gptImage call.lun call.blockSize
      (maxPartitionNum / partEntryCnt * partEntryCnt) 0 false)

/-- `UfsReadGpt`, with the indices. -/
def ufsReadGpt (call : GptRead) (list : PartitionList) : PartitionList :=
  match call.entries with
  | none => list
  | some entries =>
      let (kept, startIter) := eraseKey PtnInfo.lun call.lun list.partitionInfo
      { list with partitionInfo := kept }.putEntries entries (startIter.getD kept.length)

end GptRead

/-- The list after a sequence of calls, from the empty one on. -/
def readAll (calls : List GptRead) : PartitionList :=
  calls.foldl (fun list call => call.ufsReadGpt list) {}

/-- The entries of the last read of a lun that did not fail. -/
def latestEntries (calls : List GptRead) (lun : Nat) : List PtnInfo :=
  calls.foldl
    (fun latest call => if call.lun = lun then call.entries.getD latest else latest) []

/-- The indices designate a userdata entry of a lun, and the first and last entry of the lun. -/
structure Designates (list : PartitionList) (lun : Nat) : Prop where
  userdata : ∃ (index : Nat) (entry : PtnInfo), list.usrDataPtnIndex = index ∧
    list.partitionInfo[index]? = some entry ∧ entry.dispName = userdataPartition ∧ entry.lun = lun
  ends : ∃ before block behind, KeyBlock PtnInfo.lun lun list.partitionInfo before block behind ∧
    list.startPtnIndex = before.length ∧
    list.endPtnIndex = (before.length : Int) + block.length - 1

/-- The list after these calls is what the claim of consistency says. -/
structure Consistent (calls : List GptRead) : Prop where
  blocks : ∀ lun, ∃ before behind,
    KeyBlock PtnInfo.lun lun (readAll calls).partitionInfo before (latestEntries calls lun) behind
  indices : ∀ entry ∈ (readAll calls).partitionInfo, entry.dispName = userdataPartition →
    Designates (readAll calls) entry.lun

/-- A read that leaves the lun of userdata in its place: none of the entries it replaces stand
before that lun, or as many as it puts there. -/
def KeepsUserdata (list : PartitionList) (call : GptRead) : Prop :=
  ∀ entries, call.entries = some entries →
    ∀ entry ∈ list.partitionInfo, entry.dispName = userdataPartition → entry.lun ≠ call.lun →
      let replaced := (list.partitionInfo.takeWhile (·.lun ≠ entry.lun)).countP (·.lun = call.lun)
      replaced = 0 ∨ replaced = entries.length

theorem insertIdx_length_append {α : Type} (before behind : List α) (value : α) :
    (before ++ behind).insertIdx before.length value = before ++ value :: behind := by
  induction before with
  | nil => rfl
  | cons x before ih =>
      rw [List.cons_append, List.length_cons, List.insertIdx_succ_cons, ih, List.cons_append]

/-- One insertion after another is one of all the entries. -/
theorem insertEntries_eq (entries : List PtnInfo) (list : PartitionList)
    {before behind : List PtnInfo} (parts : list.partitionInfo = before ++ behind) :
    ∃ usrDataPtnIndex, insertEntries entries before.length list =
        (before.length + entries.length, { list with
          partitionInfo := before ++ entries ++ behind
          usrDataPtnIndex := usrDataPtnIndex }) ∧
      ((∀ entry ∈ entries, entry.dispName ≠ userdataPartition) ∧
          usrDataPtnIndex = list.usrDataPtnIndex ∨
        ∃ (index : Nat) (entry : PtnInfo), entries[index]? = some entry ∧
          entry.dispName = userdataPartition ∧ usrDataPtnIndex = (before.length + index : Nat)) := by
  induction entries generalizing list before with
  | nil =>
      refine ⟨list.usrDataPtnIndex, ?_, .inl ⟨fun entry member => (List.not_mem_nil member).elim, rfl⟩⟩
      rw [insertEntries, List.append_nil, ← parts]
      rfl
  | cons info entries ih =>
      have inserted : list.partitionInfo.insertIdx before.length info =
          (before ++ [info]) ++ behind := by
        rw [parts, insertIdx_length_append, List.append_assoc]
        rfl
      obtain ⟨usrDataPtnIndex, result, found⟩ := ih
        { list with
          usrDataPtnIndex :=
            if info.dispName = userdataPartition then (before.length : Int)
            else list.usrDataPtnIndex
          partitionInfo := list.partitionInfo.insertIdx before.length info } inserted
      rw [List.length_append, List.length_singleton] at result found
      refine ⟨usrDataPtnIndex, ?_, ?_⟩
      · rw [insertEntries, result, List.length_cons, List.append_assoc before, Nat.add_assoc,
          Nat.add_comm 1, List.singleton_append]
      · rcases found with ⟨none, same⟩ | ⟨index, entry, entryAt, isUserdata, same⟩
        · by_cases here : info.dispName = userdataPartition
          · rw [if_pos here] at same
            exact .inr ⟨0, info, rfl, here, same⟩
          · rw [if_neg here] at same
            exact .inl ⟨List.forall_mem_cons.mpr ⟨here, none⟩, same⟩
        · refine .inr ⟨index + 1, entry, entryAt, isUserdata, ?_⟩
          rw [same]
          omega

theorem any_userdata_iff {entries : List PtnInfo} :
    entries.any (·.dispName = userdataPartition) = true ↔
      ∃ entry ∈ entries, entry.dispName = userdataPartition := by
  rw [List.any_eq_true]
  exact exists_congr fun entry => and_congr_right fun _ => decide_eq_true_iff

/-- Entries without userdata leave the indices, others set all three. -/
theorem putEntries_partitionInfo (list : PartitionList) (entries : List PtnInfo)
    {before behind : List PtnInfo} (parts : list.partitionInfo = before ++ behind) :
    (list.putEntries entries before.length).partitionInfo = before ++ entries ++ behind := by
  obtain ⟨usrDataPtnIndex, result, -⟩ := insertEntries_eq entries list parts
  rw [PartitionList.putEntries, result]
  dsimp only
  split
  · rfl
  · rfl

theorem putEntries_other (list : PartitionList) {entries : List PtnInfo}
    {before behind : List PtnInfo} (parts : list.partitionInfo = before ++ behind)
    (none : ∀ entry ∈ entries, entry.dispName ≠ userdataPartition) :
    (list.putEntries entries before.length).usrDataPtnIndex = list.usrDataPtnIndex ∧
      (list.putEntries entries before.length).startPtnIndex = list.startPtnIndex ∧
      (list.putEntries entries before.length).endPtnIndex = list.endPtnIndex := by
  obtain ⟨usrDataPtnIndex, result, found⟩ := insertEntries_eq entries list parts
  have noUserdata : ¬ entries.any (·.dispName = userdataPartition) = true := by
    rw [any_userdata_iff]
    rintro ⟨entry, member, isUserdata⟩
    exact none entry member isUserdata
  rw [PartitionList.putEntries, result]
  simp only [if_neg noUserdata, and_true]
  rcases found with ⟨-, same⟩ | ⟨index, entry, entryAt, isUserdata, -⟩
  · exact same
  · exact absurd isUserdata (none entry (List.mem_of_getElem? entryAt))

theorem putEntries_userdata (list : PartitionList) {entries : List PtnInfo}
    {before behind : List PtnInfo} (parts : list.partitionInfo = before ++ behind)
    (some : ∃ entry ∈ entries, entry.dispName = userdataPartition) :
    (∃ (index : Nat) (entry : PtnInfo), entries[index]? = .some entry ∧
        entry.dispName = userdataPartition ∧
        (list.putEntries entries before.length).usrDataPtnIndex = (before.length + index : Nat)) ∧
      (list.putEntries entries before.length).startPtnIndex = before.length ∧
      (list.putEntries entries before.length).endPtnIndex =
        (before.length : Int) + entries.length - 1 := by
  obtain ⟨usrDataPtnIndex, result, found⟩ := insertEntries_eq entries list parts
  have hasUserdata := any_userdata_iff.mpr some
  rw [PartitionList.putEntries, result]
  simp only [if_pos hasUserdata]
  refine ⟨?_, ?_, ?_⟩
  · rcases found with ⟨none, -⟩ | ⟨index, entry, entryAt, isUserdata, same⟩
    · obtain ⟨entry, member, isUserdata⟩ := some
      exact absurd isUserdata (none entry member)
    · exact ⟨index, entry, entryAt, isUserdata, same⟩
  · omega
  · omega

section

variable {call : GptRead} {list : PartitionList} {entries : List PtnInfo}

theorem ufsReadGptEntry_lun {ptable : UfsPtable} {gptImage : Memory} {lun blockSize left k : Nat}
    {tailPartFlag : Bool} {entry : PtnInfo}
    (member : entry ∈ ptable.ufsReadGptEntry gptImage lun blockSize left k tailPartFlag) :
    entry.lun = lun := by
  induction left generalizing k tailPartFlag with
  | zero => cases member
  | succ left ih =>
      rw [UfsPtable.ufsReadGptEntry] at member
      dsimp only at member
      split at member
      · cases member
      · rcases List.mem_cons.mp member with rfl | later
        · rfl
        · exact ih later

theorem GptRead.entries_lun (read : call.entries = some entries) :
    ∀ entry ∈ entries, entry.lun = call.lun := by
  intro entry member
  rw [GptRead.entries] at read
  split at read
  · cases read
  · split at read
    · cases read
    · cases read
      exact ufsReadGptEntry_lun member

theorem ufsReadGpt_of_entries (read : call.entries = some entries) :
    call.ufsReadGpt list =
      { list with partitionInfo := (eraseKey PtnInfo.lun call.lun list.partitionInfo).1 }.putEntries
        entries ((eraseKey PtnInfo.lun call.lun list.partitionInfo).2.getD
          (eraseKey PtnInfo.lun call.lun list.partitionInfo).1.length) := by
  rw [GptRead.ufsReadGpt, read]

/-- A read that does not fail puts the entries in place of those of the lun. -/
theorem ufsReadGpt_put (read : call.entries = some entries) :
    ∃ before behind, KeyBlock PtnInfo.lun call.lun (call.ufsReadGpt list).partitionInfo
        before entries behind ∧
      (call.ufsReadGpt list).partitionInfo =
        replaceKey PtnInfo.lun call.lun list.partitionInfo entries ∧
      call.ufsReadGpt list =
        { list with partitionInfo := before ++ behind }.putEntries entries before.length := by
  obtain ⟨before, behind, kept, position, block⟩ :=
    replaceKey_parts call.lun list.partitionInfo (call.entries_lun read)
  have result : call.ufsReadGpt list =
      { list with partitionInfo := before ++ behind }.putEntries entries before.length := by
    rw [ufsReadGpt_of_entries read, position, kept]
  have info : (call.ufsReadGpt list).partitionInfo =
      replaceKey PtnInfo.lun call.lun list.partitionInfo entries := by
    rw [result, putEntries_partitionInfo _ _ rfl, block.parts]
  exact ⟨before, behind, info ▸ block, info, result⟩

/-- Entries of the lun that is read are the new ones, the others were there before. -/
theorem mem_ufsReadGpt_iff (read : call.entries = some entries) {entry : PtnInfo} :
    entry ∈ (call.ufsReadGpt list).partitionInfo ↔
      entry ∈ entries ∨ entry ∈ list.partitionInfo ∧ entry.lun ≠ call.lun := by
  obtain ⟨before, behind, -, info, -⟩ := ufsReadGpt_put read
  rw [info, mem_replaceKey_iff]

theorem ufsReadGpt_filter (read : call.entries = some entries)
    {before block behind : List PtnInfo}
    (found : KeyBlock PtnInfo.lun call.lun list.partitionInfo before block behind) :
    (call.ufsReadGpt list).partitionInfo.filter (·.lun ≠ call.lun) =
      list.partitionInfo.filter (·.lun ≠ call.lun) := by
  obtain ⟨-, -, -, info, -⟩ := ufsReadGpt_put read
  rw [info, filter_replaceKey found (call.entries_lun read)]

/-- The read of a lun with userdata refreshes the indices. -/
theorem designates_of_userdata (read : call.entries = some entries)
    (hasUserdata : ∃ entry ∈ entries, entry.dispName = userdataPartition) :
    Designates (call.ufsReadGpt list) call.lun := by
  obtain ⟨before, behind, block, -, result⟩ := ufsReadGpt_put read
  obtain ⟨⟨index, entry, entryAt, isUserdata, userdata⟩, start, finish⟩ :=
    putEntries_userdata { list with partitionInfo := before ++ behind } rfl hasUserdata
  rw [← result] at userdata start finish
  exact ⟨⟨before.length + index, entry, userdata, block.getElem? entryAt, isUserdata,
    call.entries_lun read entry (List.mem_of_getElem? entryAt)⟩,
    before, entries, behind, block, start, finish⟩

/-- Another read leaves the indices, which are right as long as the lun did not move. -/
theorem designates_other_iff (read : call.entries = some entries)
    (none : ∀ entry ∈ entries, entry.dispName ≠ userdataPartition)
    {replacedBefore replaced replacedBehind : List PtnInfo}
    (found : KeyBlock PtnInfo.lun call.lun list.partitionInfo replacedBefore replaced
      replacedBehind)
    {lun : Nat} (different : lun ≠ call.lun) (designates : Designates list lun) :
    Designates (call.ufsReadGpt list) lun ↔
      let before := (list.partitionInfo.takeWhile (·.lun ≠ lun)).countP (·.lun = call.lun)
      before = 0 ∨ before = entries.length := by
  obtain ⟨⟨index, entry, userdata, entryAt, isUserdata, entryLun⟩,
    before, block, behind, others, start, finish⟩ := designates
  obtain ⟨j, indexIs, inBlock⟩ := others.index entryAt entryLun
  have notEmpty : block ≠ [] := List.ne_nil_of_mem (List.mem_of_getElem? inBlock)
  obtain ⟨front, back, moved, samePlace⟩ :=
    found.moved (call.entries_lun read) others notEmpty different
  obtain ⟨putBefore, putBehind, -, info, result⟩ := ufsReadGpt_put read
  obtain ⟨usrSame, startSame, endSame⟩ :=
    putEntries_other { list with partitionInfo := putBefore ++ putBehind } rfl none
  rw [← result] at usrSame startSame endSame
  dsimp only at usrSame startSame endSame
  rw [← info] at moved
  rw [others.takeWhile notEmpty]
  refine Iff.trans ?_ samePlace
  constructor
  · rintro ⟨⟨index', entry', userdata', entryAt', -, entryLun'⟩,
      before', block', behind', others', start', -⟩
    have notEmpty' : block' ≠ [] := by
      obtain ⟨j', -, inBlock'⟩ := others'.index entryAt' entryLun'
      exact List.ne_nil_of_mem (List.mem_of_getElem? inBlock')
    rw [startSame, start, (others'.unique notEmpty' moved notEmpty).1] at start'
    exact (Int.ofNat_inj.mp start').symm
  · intro same
    refine ⟨⟨index, entry, usrSame.trans userdata, ?_, isUserdata, entryLun⟩,
      front, block, back, moved, ?_, ?_⟩
    · rw [indexIs, ← same]
      exact moved.getElem? inBlock
    · rw [startSame, start, same]
    · rw [endSame, finish, same]

end

/-- One read, where only one lun has userdata: what the indices designate stays right exactly
where this lun keeps its place. -/
theorem ufsReadGpt_indices_iff (call : GptRead) (list : PartitionList) (userdataLun : Nat)
    (block : ∃ before block behind,
      KeyBlock PtnInfo.lun call.lun list.partitionInfo before block behind)
    (indices : ∀ entry ∈ list.partitionInfo, entry.dispName = userdataPartition →
      Designates list entry.lun)
    (listed : ∀ entry ∈ list.partitionInfo, entry.dispName = userdataPartition →
      entry.lun = userdataLun)
    (read : ∀ entries, call.entries = some entries → call.lun ≠ userdataLun →
      ∀ entry ∈ entries, entry.dispName ≠ userdataPartition) :
    (∀ entry ∈ (call.ufsReadGpt list).partitionInfo, entry.dispName = userdataPartition →
      Designates (call.ufsReadGpt list) entry.lun) ↔ KeepsUserdata list call := by
  cases accepted : call.entries with
  | none =>
      have same : call.ufsReadGpt list = list := by rw [GptRead.ufsReadGpt, accepted]
      rw [same]
      refine iff_of_true indices fun entries some => ?_
      rw [accepted] at some
      cases some
  | some entries =>
      by_cases own : call.lun = userdataLun
      · refine iff_of_true ?_ ?_
        · intro entry member isUserdata
          rcases (mem_ufsReadGpt_iff accepted).mp member with new | ⟨old, differs⟩
          · rw [call.entries_lun accepted entry new]
            exact designates_of_userdata accepted ⟨entry, new, isUserdata⟩
          · exact absurd ((listed entry old isUserdata).trans own.symm) differs
        · intro _ _ entry member isUserdata differs
          exact absurd ((listed entry member isUserdata).trans own.symm) differs
      · have none := read entries accepted own
        obtain ⟨before, replaced, behind, found⟩ := block
        have one : ∀ entry ∈ list.partitionInfo, entry.dispName = userdataPartition →
            (Designates (call.ufsReadGpt list) entry.lun ↔
              let before :=
                (list.partitionInfo.takeWhile (·.lun ≠ entry.lun)).countP (·.lun = call.lun)
              before = 0 ∨ before = entries.length) := fun entry member isUserdata =>
          designates_other_iff accepted none found
            (by rw [listed entry member isUserdata]; exact Ne.symm own)
            (indices entry member isUserdata)
        constructor
        · intro kept others same entry member isUserdata differs
          cases accepted.symm.trans same
          have stays := (mem_ufsReadGpt_iff accepted).mpr (.inr ⟨member, differs⟩)
          exact (one entry member isUserdata).mp (kept entry stays isUserdata)
        · intro keeps entry member isUserdata
          rcases (mem_ufsReadGpt_iff accepted).mp member with new | ⟨old, differs⟩
          · exact absurd isUserdata (none entry new)
          · exact (one entry old isUserdata).mpr
              (keeps entries accepted entry old isUserdata differs)

theorem readAll_append (front : List GptRead) (call : GptRead) :
    readAll (front ++ [call]) = call.ufsReadGpt (readAll front) := by
  rw [readAll, List.foldl_append]
  rfl

theorem latestEntries_append (front : List GptRead) (call : GptRead) (lun : Nat) :
    latestEntries (front ++ [call]) lun =
      if call.lun = lun then call.entries.getD (latestEntries front lun)
      else latestEntries front lun := by
  rw [latestEntries, List.foldl_append]
  rfl

/-- Whatever is read, the list holds the latest entries of each lun as one block. -/
theorem readAll_blocks (calls : List GptRead) (lun : Nat) :
    ∃ before behind, KeyBlock PtnInfo.lun lun (readAll calls).partitionInfo before
      (latestEntries calls lun) behind := by
  induction calls using List.reverseRecOn generalizing lun with
  | nil =>
      refine ⟨[], [], rfl, ?_, ?_, ?_⟩
      · exact fun entry member => (List.not_mem_nil member).elim
      · exact fun entry member => (List.not_mem_nil member).elim
      · exact fun entry member => (List.not_mem_nil member).elim
  | append_singleton front call ih =>
      rw [readAll_append, latestEntries_append]
      cases accepted : call.entries with
      | none =>
          have same : call.ufsReadGpt (readAll front) = readAll front := by
            rw [GptRead.ufsReadGpt, accepted]
          rw [same, Option.getD_none, ite_self]
          exact ih lun
      | some entries =>
          obtain ⟨putBefore, putBehind, block, info, -⟩ :=
            @ufsReadGpt_put call (readAll front) entries accepted
          by_cases own : call.lun = lun
          · rw [if_pos own, Option.getD_some, ← own]
            exact ⟨putBefore, putBehind, block⟩
          · rw [if_neg own]
            obtain ⟨_, _, others⟩ := ih lun
            obtain ⟨_, _, found⟩ := ih call.lun
            by_cases empty : latestEntries front lun = []
            · rw [empty] at others ⊢
              refine ⟨(call.ufsReadGpt (readAll front)).partitionInfo, [], ?_, ?_, ?_, ?_⟩
              · rw [List.append_nil, List.append_nil]
              · exact fun entry member => (List.not_mem_nil member).elim
              · intro entry member
                rcases (mem_ufsReadGpt_iff accepted).mp member with new | ⟨old, -⟩
                · rw [call.entries_lun accepted entry new]
                  exact own
                · exact others.absent entry old
              · exact fun entry member => (List.not_mem_nil member).elim
            · obtain ⟨before, behind, moved, -⟩ :=
                found.moved (call.entries_lun accepted) others empty (Ne.symm own)
              rw [info]
              exact ⟨before, behind, moved⟩

/-- Only one lun has userdata, whenever it is read. -/
def OneUserdataLun (calls : List GptRead) (userdataLun : Nat) : Prop :=
  ∀ call ∈ calls, ∀ entries, call.entries = some entries → call.lun ≠ userdataLun →
    ∀ entry ∈ entries, entry.dispName ≠ userdataPartition

theorem readAll_userdata {calls : List GptRead} {userdataLun : Nat}
    (one : OneUserdataLun calls userdataLun) :
    ∀ entry ∈ (readAll calls).partitionInfo, entry.dispName = userdataPartition →
      entry.lun = userdataLun := by
  induction calls using List.reverseRecOn with
  | nil => exact fun entry member => (List.not_mem_nil member).elim
  | append_singleton front call ih =>
      have before := ih fun other member => one other (List.mem_append_left _ member)
      intro entry member isUserdata
      rw [readAll_append] at member
      cases accepted : call.entries with
      | none =>
          rw [GptRead.ufsReadGpt, accepted] at member
          exact before entry member isUserdata
      | some entries =>
          rcases (mem_ufsReadGpt_iff accepted).mp member with new | ⟨old, -⟩
          · by_contra other
            rw [call.entries_lun accepted entry new] at other
            exact one call (List.mem_append_right _ (List.mem_singleton_self call)) entries accepted
              other entry new isUserdata
          · exact before entry old isUserdata

theorem readAll_others (front : List GptRead) (call : GptRead) :
    (readAll (front ++ [call])).partitionInfo.filter (·.lun ≠ call.lun) =
      (readAll front).partitionInfo.filter (·.lun ≠ call.lun) := by
  rw [readAll_append]
  cases accepted : call.entries with
  | none => rw [GptRead.ufsReadGpt, accepted]
  | some entries =>
      obtain ⟨_, _, found⟩ := readAll_blocks front call.lun
      exact ufsReadGpt_filter accepted found

/-- Step lemma for runs. -/
theorem readAll_indices_iff {front : List GptRead} {call : GptRead} {userdataLun : Nat}
    (one : OneUserdataLun (front ++ [call]) userdataLun) (consistent : Consistent front) :
    Consistent (front ++ [call]) ↔ KeepsUserdata (readAll front) call := by
  obtain ⟨before, behind, found⟩ := readAll_blocks front call.lun
  have step := ufsReadGpt_indices_iff call (readAll front) userdataLun
    ⟨before, _, behind, found⟩ consistent.indices
    (readAll_userdata fun other member => one other (List.mem_append_left _ member))
    (one call (List.mem_append_right _ (List.mem_singleton_self call)))
  rw [← readAll_append] at step
  rw [← step]
  exact ⟨Consistent.indices, fun indices => ⟨readAll_blocks _, indices⟩⟩

theorem consistent_nil : Consistent [] where
  blocks := readAll_blocks []
  indices := fun _ member => (List.not_mem_nil member).elim

/-- Over any sequence of reads the list is consistent after each call, and the entries of other
luns stay in their order, exactly where every read leaves the lun of userdata in its place. -/
theorem readAll_consistent_iff (calls : List GptRead) (userdataLun : Nat)
    (one : OneUserdataLun calls userdataLun) :
    (∀ front call behind, calls = front ++ call :: behind → Consistent (front ++ [call]) ∧
      (readAll (front ++ [call])).partitionInfo.filter (·.lun ≠ call.lun) =
        (readAll front).partitionInfo.filter (·.lun ≠ call.lun)) ↔
      ∀ front call behind, calls = front ++ call :: behind →
        KeepsUserdata (readAll front) call := by
  have oneFront : ∀ front call behind, calls = front ++ call :: behind →
      OneUserdataLun (front ++ [call]) userdataLun := by
    rintro front call behind rfl other member
    refine one other ?_
    rw [List.append_cons]
    exact List.mem_append_left _ member
  constructor
  · intro consistent front call behind parts
    have before : Consistent front := by
      rcases List.eq_nil_or_concat front with rfl | ⟨init, last, rfl⟩
      · exact consistent_nil
      · rw [List.concat_eq_append] at parts ⊢
        rw [List.append_assoc] at parts
        exact (consistent init last _ parts).1
    exact (readAll_indices_iff (oneFront front call behind parts) before).mp
      (consistent front call behind parts).1
  · intro keeps front call behind parts
    refine ⟨?_, readAll_others front call⟩
    induction front using List.reverseRecOn generalizing call behind with
    | nil =>
        exact (readAll_indices_iff (oneFront [] call behind parts) consistent_nil).mpr
          (keeps [] call behind parts)
    | append_singleton front last ih =>
        have earlier : calls = front ++ last :: (call :: behind) := by
          rw [parts, List.append_assoc]
          rfl
        exact (readAll_indices_iff (oneFront _ call behind parts) (ih last _ earlier)).mpr
          (keeps _ call behind parts)

/-- An entry of the table with this name. -/
def namedEntry (name : Bytes) : Bytes :=
  leBytes 16 1 ++ leBytes 16 0 ++ leBytes 8 40 ++ leBytes 8 49 ++ leBytes 8 0 ++
    name.flatMap (fun byte => [byte, 0]) ++ List.replicate (maxGptNameSize - 2 * name.length) 0

/-- A table of two entries at most in blocks of 512 bytes, with its two checksums. -/
def namedTable (headerCrc entryCrc : Nat) (names : List Bytes) : Memory := fun address =>
  let header := leBytes 8 efiMagicNumber ++ leBytes 4 0 ++ leBytes 4 92 ++ leBytes 8 headerCrc ++
    leBytes 8 1 ++ leBytes 16 0 ++ leBytes 8 50 ++ leBytes 16 0 ++ leBytes 8 2 ++ leBytes 4 2 ++
    leBytes 4 partitionEntrySize ++ leBytes 4 entryCrc
  if address < 512 then 0
  else if address < 1024 then header.getD (address - 512) 0
  else (names.flatMap namedEntry).getD (address - 1024) 0

def namedDevice : UfsPtable where
  ptableData :=
    { emmcGptDataLen := 0
      lbaLen := 512
      gptHeaderLen := 512
      blockSize := 512
      imgLuSize := 32768
      startLunNumber := 0
      writeDeviceLunSize := 2048
      wholeMbr := sector_wholeMbr
      inBuffer := sector_inBuffer }
  hasBackupPtable := false
  reservedSize := 0
  isVabDevice := false
  isUpdaterMode := true
  lunOffset := fun _ => 0
  updateSlot := 0
  curSlot := 0
  nodeExists := fun _ => true
  removable := fun _ => false
  capacity := fun _ => 100 * 512
  memRead := fun _ _ _ => none

def namedRead (lun : Nat) (gptImage : Memory) : GptRead where
  ptable := namedDevice
  gptImage := gptImage
  len := 2048
  lun := lun
  blockSize := 512

/-- The partition of an entry of the table. -/
def namedPartition (lun gptEntryBufOffset : Nat) (name : Bytes) : PtnInfo where
  startAddr := 40 * 512
  partitionSize := 10 * 512
  partitionTypeGuid := leBytes 16 1
  lun := lun
  gptEntryBufOffset := gptEntryBufOffset
  isTailPart := false
  dispName := name

/-- Lun 0 with one partition. -/
def systemRead : GptRead :=
  namedRead 0 (namedTable 0xab7f48ab 0x351d1997 [ascii "A"])

/-- Lun 1 with userdata. -/
def userdataRead : GptRead :=
  namedRead 1 (namedTable 0x2c52f79c 0x1c1aa152 [userdataPartition])

/-- Lun 0 with two partitions. -/
def grownRead : GptRead :=
  namedRead 0 (namedTable 0x8e5705b0 0xcb3f76d7 [ascii "A", ascii "B"])

set_option maxRecDepth 20000 in
theorem systemRead_entries : systemRead.entries = some [namedPartition 0 0 (ascii "A")] := by
  decide +kernel

set_option maxRecDepth 20000 in
theorem userdataRead_entries :
    userdataRead.entries = some [namedPartition 1 0 userdataPartition] := by
  decide +kernel

set_option maxRecDepth 20000 in
theorem grownRead_entries : grownRead.entries =
    some [namedPartition 0 0 (ascii "A"), namedPartition 0 128 (ascii "B")] := by
  decide +kernel

/-- In these reads lun 1 alone has userdata. -/
theorem namedReads_one {calls : List GptRead}
    (named : ∀ call ∈ calls, call = systemRead ∨ call = userdataRead ∨ call = grownRead) :
    OneUserdataLun calls 1 := by
  intro call member entries accepted different entry inside
  rcases named call member with rfl | rfl | rfl
  · rw [systemRead_entries] at accepted
    cases accepted
    rw [List.mem_singleton.mp inside]
    decide
  · exact absurd rfl different
  · rw [grownRead_entries] at accepted
    cases accepted
    rcases List.mem_cons.mp inside with rfl | last
    · decide
    · rw [List.mem_singleton.mp last]
      decide

/-- Userdata has moved on, and its index is still the one of before. -/
theorem readAll_grown :
    (readAll [systemRead, userdataRead, grownRead]).partitionInfo =
        [namedPartition 0 0 (ascii "A"), namedPartition 0 128 (ascii "B"),
          namedPartition 1 0 userdataPartition] ∧
      (readAll [systemRead, userdataRead, grownRead]).usrDataPtnIndex = 1 := by
  have calls : [systemRead, userdataRead, grownRead] = [] ++ [systemRead] ++ [userdataRead] ++
      [grownRead] := rfl
  rw [calls, readAll_append, readAll_append, readAll_append,
    ufsReadGpt_of_entries systemRead_entries, ufsReadGpt_of_entries userdataRead_entries,
    ufsReadGpt_of_entries grownRead_entries]
  decide

/-- After lun 0 has grown, the index of userdata is that of another partition. -/
theorem readAll_inconsistent :
    OneUserdataLun [systemRead, userdataRead, grownRead] 1 ∧
      ¬ Consistent [systemRead, userdataRead, grownRead] := by
  obtain ⟨info, index⟩ := readAll_grown
  refine ⟨namedReads_one (by simp), fun consistent => ?_⟩
  have listed : namedPartition 1 0 userdataPartition ∈
      (readAll [systemRead, userdataRead, grownRead]).partitionInfo := by
    rw [info]
    simp
  obtain ⟨at_, found, indexIs, foundAt, isUserdata, -⟩ :=
    (consistent.indices _ listed rfl).userdata
  have one : at_ = 1 := Int.ofNat_inj.mp (indexIs.symm.trans index)
  rw [info, one] at foundAt
  cases foundAt
  revert isUserdata
  decide

theorem userdataRead_consistent_iff :
    OneUserdataLun [systemRead, userdataRead] 1 ∧
      ((∀ front call behind, [systemRead, userdataRead] = front ++ call :: behind →
          Consistent (front ++ [call]) ∧
          (readAll (front ++ [call])).partitionInfo.filter (·.lun ≠ call.lun) =
            (readAll front).partitionInfo.filter (·.lun ≠ call.lun)) ↔
        ∀ front call behind, [systemRead, userdataRead] = front ++ call :: behind →
          KeepsUserdata (readAll front) call) := by
  have one : OneUserdataLun [systemRead, userdataRead] 1 := namedReads_one (by simp)
  exact ⟨one, readAll_consistent_iff [systemRead, userdataRead] 1 one⟩

end Updater.PtableParse
