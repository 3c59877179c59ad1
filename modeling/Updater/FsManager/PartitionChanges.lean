import Mathlib.Data.List.Nodup
import Updater.FsManager.Partitions

/-! Which partitions of the disk `DoPartitions` removes: those that the comparison with the
new list leaves marked. -/

set_option autoImplicit false

namespace Updater.FsManager

open Updater.Base

/-- A partition without the mark of the comparison. -/
def Partition.unmarked (part : Partition) : Partition :=
  { part with changeType := .normalChange }

def Partition.marked (part : Partition) (change : PartitionChangeType) : Partition :=
  { part with changeType := change }

/-- The mark that the new list leaves on a partition without an earlier namesake. -/
def finalChange (part : Partition) (nlist : List Partition) : PartitionChangeType :=
  nlist.foldl (fun change newp => if SameName part newp then changeOf part newp else change)
    part.changeType

theorem probePartitions_sound {sysfs : Sysfs} {count first : Nat} {part : Partition}
    (member : part ∈ probePartitions sysfs count first) :
    (first : Int) ≤ part.partNum ∧ part.changeType = .normalChange := by
  induction count generalizing first with
  | zero => cases member
  | succ count ih =>
      rw [probePartitions] at member
      cases found : newPartition sysfs first with
      | none =>
          rw [found] at member
          cases member
      | some read =>
          rw [found] at member
          rcases List.mem_cons.mp member with rfl | later
          · simp only [newPartition] at found
            split at found
            · cases found
            · split at found
              · cases found
              · cases found
                exact ⟨Int.le_refl _, rfl⟩
          · obtain ⟨number, mark⟩ := ih later
            exact ⟨by omega, mark⟩

theorem probePartitions_distinct (sysfs : Sysfs) (count first : Nat) :
    ((probePartitions sysfs count first).map Partition.partNum).Nodup := by
  induction count generalizing first with
  | zero => exact List.nodup_nil
  | succ count ih =>
      rw [probePartitions]
      cases found : newPartition sysfs first with
      | none => exact List.nodup_nil
      | some read =>
          apply List.nodup_cons.mpr ⟨?_, ih (first + 1)⟩
          intro again
          obtain ⟨later, member, same⟩ := List.mem_map.mp again
          have number : read.partNum = first := by
            simp only [newPartition] at found
            split at found
            · cases found
            · split at found
              · cases found
              · cases found
                rfl
          have behind := (probePartitions_sound member).1
          omega

section

variable {newp part : Partition} {before behind olist nlist : List Partition}

theorem comparePartition_unmarked (newp : Partition) (olist : List Partition) :
    (comparePartition newp olist).2.map Partition.unmarked = olist.map Partition.unmarked := by
  induction olist with
  | nil => rfl
  | cons old olist ih =>
      rw [comparePartition]
      split
      · rfl
      · rw [List.map_cons, List.map_cons, ih]

/-- An earlier namesake takes the mark. -/
theorem comparePartition_before (taken : ∃ old ∈ before, SameName old newp) :
    (comparePartition newp (before ++ behind)).2 = (comparePartition newp before).2 ++ behind := by
  induction before with
  | nil =>
      obtain ⟨_, member, -⟩ := taken
      cases member
  | cons old before ih =>
      rw [List.cons_append, comparePartition, comparePartition]
      by_cases same : SameName old newp
      · rw [if_pos same, if_pos same, List.cons_append]
      · rw [if_neg same, if_neg same]
        obtain ⟨other, member, named⟩ := taken
        rcases List.mem_cons.mp member with rfl | later
        · exact absurd named same
        · exact congrArg (old :: ·) (ih ⟨other, later, named⟩)

theorem comparePartition_behind (free : ∀ old ∈ before, ¬ SameName old newp) :
    (comparePartition newp (before ++ behind)).2 = before ++ (comparePartition newp behind).2 := by
  induction before with
  | nil => rfl
  | cons old before ih =>
      rw [List.cons_append, comparePartition, if_neg (free old List.mem_cons_self)]
      exact congrArg (old :: ·) (ih fun other member => free other (List.mem_cons_of_mem _ member))

theorem sameName_of_unmarked {other : List Partition}
    (same : other.map Partition.unmarked = before.map Partition.unmarked) (newp : Partition) :
    (∃ old ∈ other, SameName old newp) ↔ ∃ old ∈ before, SameName old newp := by
  have named (list : List Partition) : (∃ old ∈ list, SameName old newp) ↔
      ∃ old ∈ list.map Partition.unmarked, SameName old newp := by
    simp only [List.mem_map, SameName, Partition.unmarked]
    constructor
    · rintro ⟨old, member, equal⟩
      exact ⟨_, ⟨old, member, rfl⟩, equal⟩
    · rintro ⟨_, ⟨old, member, rfl⟩, equal⟩
      exact ⟨old, member, equal⟩
  rw [named other, same, ← named before]

/-- A new partition with another name, or one that an earlier partition bears, leaves the
mark of a partition alone. -/
theorem comparePartition_kept (behind : List Partition)
    (passed : (∃ old ∈ before, SameName old newp) ∨ ¬ SameName part newp) :
    ∃ before' behind',
      (comparePartition newp (before ++ part :: behind)).2 = before' ++ part :: behind' ∧
      before'.map Partition.unmarked = before.map Partition.unmarked := by
  by_cases taken : ∃ old ∈ before, SameName old newp
  · exact ⟨_, behind, comparePartition_before taken, comparePartition_unmarked newp before⟩
  · have free : ∀ old ∈ before, ¬ SameName old newp := fun old member same =>
      taken ⟨old, member, same⟩
    have other := passed.resolve_left taken
    refine ⟨before, (comparePartition newp behind).2, ?_, rfl⟩
    rw [comparePartition_behind free, comparePartition, if_neg other]

theorem comparePartition_marks (free : ∀ old ∈ before, ¬ SameName old newp)
    (same : SameName part newp) (behind : List Partition) :
    (comparePartition newp (before ++ part :: behind)).2 =
      before ++ part.marked (changeOf part newp) :: behind := by
  rw [comparePartition_behind free, comparePartition, if_pos same]
  rfl

theorem traversePartitionList_cons (newp : Partition) (nlist olist : List Partition) :
    (traversePartitionList (newp :: nlist) olist).1 =
      (traversePartitionList nlist (comparePartition newp olist).2).1 := rfl

/-- Run lemma: behind an earlier namesake a partition keeps its mark. -/
theorem traversePartitionList_kept (nlist behind : List Partition)
    (taken : ∃ old ∈ before, SameName old part) :
    ∃ before' behind',
      (traversePartitionList nlist (before ++ part :: behind)).1 = before' ++ part :: behind' := by
  induction nlist generalizing before behind with
  | nil => exact ⟨before, behind, rfl⟩
  | cons newp nlist ih =>
      rw [traversePartitionList_cons]
      have passed : (∃ old ∈ before, SameName old newp) ∨ ¬ SameName part newp := by
        by_cases same : SameName part newp
        · obtain ⟨old, member, named⟩ := taken
          exact Or.inl ⟨old, member, Eq.trans named same⟩
        · exact Or.inr same
      obtain ⟨middle, after, compared, unmarked⟩ := comparePartition_kept behind passed
      rw [compared]
      exact ih after ((sameName_of_unmarked unmarked part).mpr taken)

/-- Run lemma: without one, the last namesake in the new list decides. -/
theorem traversePartitionList_last (nlist behind : List Partition)
    (free : ∀ old ∈ before, ¬ SameName old part) :
    ∃ before' behind', (traversePartitionList nlist (before ++ part :: behind)).1 =
      before' ++ part.marked (finalChange part nlist) :: behind' := by
  induction nlist generalizing before behind part with
  | nil => exact ⟨before, behind, rfl⟩
  | cons newp nlist ih =>
      rw [traversePartitionList_cons]
      by_cases same : SameName part newp
      · have unnamed : ∀ old ∈ before, ¬ SameName old newp := fun old member named =>
          free old member (Eq.trans named (Eq.symm same))
        have marks : finalChange (part.marked (changeOf part newp)) nlist =
            finalChange part (newp :: nlist) := by
          rw [finalChange, finalChange, List.foldl_cons, if_pos same]
          rfl
        rw [comparePartition_marks unnamed same, ← marks]
        exact ih behind free
      · obtain ⟨middle, after, compared, unmarked⟩ := comparePartition_kept behind (Or.inr same)
        have passes : finalChange part nlist = finalChange part (newp :: nlist) := by
          rw [finalChange, finalChange, List.foldl_cons, if_neg same]
        rw [compared, ← passes]
        apply ih after
        intro old member named
        obtain ⟨other, earlier, equal⟩ :=
          (sameName_of_unmarked unmarked part).mp ⟨old, member, named⟩
        exact free other earlier equal

theorem traversePartitionList_unmarked (nlist olist : List Partition) :
    (traversePartitionList nlist olist).1.map Partition.unmarked =
      olist.map Partition.unmarked := by
  induction nlist generalizing olist with
  | nil => rfl
  | cons newp nlist ih =>
      rw [traversePartitionList_cons, ih, comparePartition_unmarked]

/-- Namesakes that all lie where the partition lies leave it unchanged. -/
theorem finalChange_notChange (listed : ∃ newp ∈ nlist, SameName part newp)
    (same : ∀ newp ∈ nlist, SameName part newp → changeOf part newp = .notChange) :
    finalChange part nlist = .notChange := by
  have kept (nlist : List Partition)
      (same : ∀ newp ∈ nlist, SameName part newp → changeOf part newp = .notChange)
      (change : PartitionChangeType) (marked : change = .notChange ∨
        ∃ newp ∈ nlist, SameName part newp) :
      nlist.foldl (fun change newp => if SameName part newp then changeOf part newp else change)
        change = .notChange := by
    induction nlist generalizing change with
    | nil =>
        rcases marked with unchanged | ⟨_, member, -⟩
        · exact unchanged
        · cases member
    | cons newp nlist ih =>
        rw [List.foldl_cons]
        apply ih (fun other member => same other (List.mem_cons_of_mem _ member))
        by_cases named : SameName part newp
        · rw [if_pos named]
          exact Or.inl (same newp List.mem_cons_self named)
        · rw [if_neg named]
          rcases marked with unchanged | ⟨other, member, equal⟩
          · exact Or.inl unchanged
          · rcases List.mem_cons.mp member with rfl | later
            · exact absurd equal named
            · exact Or.inr ⟨other, later, equal⟩
  exact kept nlist same part.changeType (Or.inr listed)

theorem getPartition_partNum {partList : List Partition} {partn : Int}
    (found : getPartition partList partn = some part) : part.partNum = partn := by
  rw [getPartition] at found
  split at found
  · cases found
  · have matched := List.find?_some found
    exact of_decide_eq_true matched

theorem getPartition_of_mem {partList : List Partition} (member : part ∈ partList)
    (numbered : part.partNum ≠ 0) : ∃ found, getPartition partList part.partNum = some found := by
  rw [getPartition, if_neg numbered]
  cases search : partList.find? fun other => other.partNum = part.partNum with
  | none =>
      have missed := List.find?_eq_none.mp search part member
      exact absurd (decide_eq_true rfl) missed
  | some found => exact ⟨found, rfl⟩

theorem doRmPartition_all (system : System) (partList : List Partition) (partn : Int) :
    (system.doRmPartition partList partn).All (· = .del partn) := by
  rw [System.doRmPartition]
  cases found : getPartition partList partn with
  | none => exact Traced.all_reject
  | some part =>
      rw [← getPartition_partNum found]
      dsimp only
      rw [System.blkpgPartCommand, Traced.all_bind, Traced.all_emit]
      refine ⟨fun _ member => List.mem_singleton.mp member, ?_⟩
      intro _ _
      split
      · exact Traced.all_pure _
      · exact Traced.all_reject

theorem doRmPartition_obeyed {system : System} {partList : List Partition}
    (obeyed : ∀ command, system.ioctl command = true) (member : part ∈ partList)
    (numbered : part.partNum ≠ 0) :
    system.doRmPartition partList part.partNum =
      { events := [.del part.partNum], result := some () } := by
  obtain ⟨found, search⟩ := getPartition_of_mem member numbered
  rw [System.doRmPartition, search]
  dsimp only
  rw [System.blkpgPartCommand, obeyed, getPartition_partNum search]
  rfl

/-- A partition that the loop removes is marked, and neither the updater's nor the user's. -/
theorem removePartitions_all (system : System) (partList pList : List Partition) (counter : Nat) :
    (system.removePartitions partList pList counter).All fun command =>
      ∃ it ∈ pList, command = .del it.partNum ∧ it.changeType ≠ .notChange ∧
        it.partName ≠ updaterPartname ∧ it.partName ≠ userdataPartname := by
  induction pList generalizing counter with
  | nil => exact Traced.all_pure _
  | cons it pList ih =>
      have later (counter : Nat) : (system.removePartitions partList pList counter).All
          fun command => ∃ other ∈ it :: pList, command = .del other.partNum ∧
            other.changeType ≠ .notChange ∧ other.partName ≠ updaterPartname ∧
            other.partName ≠ userdataPartname := by
        intro command issued
        obtain ⟨other, member, removed⟩ := ih counter command issued
        exact ⟨other, List.mem_cons_of_mem _ member, removed⟩
      rw [System.removePartitions]
      split
      · exact later counter
      · rename_i changed
        split
        · exact later counter
        · rename_i notUpdater
          split
          · exact later counter
          · rename_i notUserdata
            split
            · exact later counter
            · rw [Traced.all_bind]
              refine ⟨?_, fun _ _ => later (counter + 1)⟩
              intro command issued
              have removed := doRmPartition_all system partList it.partNum command issued
              exact ⟨it, List.mem_cons_self, removed, changed, notUpdater, notUserdata⟩

/-- Where every partition can be unmounted and the kernel obeys, all of these are removed. -/
theorem removePartitions_obeyed {system : System} {partList pList : List Partition}
    (umounted : ∀ path, system.umountForPath path = true)
    (obeyed : ∀ command, system.ioctl command = true)
    (known : ∀ it ∈ pList, it ∈ partList ∧ it.partNum ≠ 0) (counter : Nat) :
    (∃ count, (system.removePartitions partList pList counter).result = some count) ∧
    ∀ it ∈ pList, it.changeType ≠ .notChange → it.partName ≠ updaterPartname →
      it.partName ≠ userdataPartname →
      BlkpgCommand.del it.partNum ∈ (system.removePartitions partList pList counter).events := by
  induction pList generalizing counter with
  | nil => exact ⟨⟨counter, rfl⟩, fun _ member => absurd member List.not_mem_nil⟩
  | cons it pList ih =>
      have rest (counter : Nat) := ih (fun other member => known other (List.mem_cons_of_mem _ member))
        counter
      obtain ⟨member, numbered⟩ := known it List.mem_cons_self
      have mounts : ¬ system.doUmountDiskPartition it = false := by
        rw [System.doUmountDiskPartition, umounted]
        exact Bool.noConfusion
      rw [System.removePartitions, if_neg mounts]
      by_cases skipped : it.changeType = .notChange ∨ it.partName = updaterPartname ∨
          it.partName = userdataPartname
      · have passes {computation : Traced BlkpgCommand Nat} :
            (if it.changeType = .notChange then system.removePartitions partList pList counter
              else if it.partName = updaterPartname then
                system.removePartitions partList pList counter
              else if it.partName = userdataPartname then
                system.removePartitions partList pList counter
              else computation) = system.removePartitions partList pList counter := by
          rcases skipped with unchanged | updater | userdata
          · rw [if_pos unchanged]
          · rw [if_pos updater, ite_self]
          · rw [if_pos userdata, ite_self, ite_self]
        rw [passes]
        refine ⟨(rest counter).1, ?_⟩
        intro other among changed notUpdater notUserdata
        rcases List.mem_cons.mp among with rfl | later
        · rcases skipped with unchanged | updater | userdata
          · exact absurd unchanged changed
          · exact absurd updater notUpdater
          · exact absurd userdata notUserdata
        · exact (rest counter).2 other later changed notUpdater notUserdata
      · obtain ⟨changed, named⟩ := not_or.mp skipped
        obtain ⟨notUpdater, notUserdata⟩ := not_or.mp named
        rw [if_neg changed, if_neg notUpdater, if_neg notUserdata,
          doRmPartition_obeyed obeyed member numbered]
        refine ⟨?_, ?_⟩
        · obtain ⟨count, counted⟩ := (rest (counter + 1)).1
          exact ⟨count, by rw [Traced.result_bind]; exact counted⟩
        · intro other among changed notUpdater notUserdata
          rw [Traced.mem_events_bind]
          rcases List.mem_cons.mp among with rfl | later
          · exact Or.inl List.mem_cons_self
          · exact Or.inr ⟨(), rfl,
              (rest (counter + 1)).2 other later changed notUpdater notUserdata⟩

/-- Additions remove nothing. -/
theorem addPartitions_all (system : System) (userNum : Int) (ulist : List Partition)
    (step counter : Nat) :
    (system.addPartitions userNum ulist step counter).All fun command =>
      ∀ pno, command ≠ .del pno := by
  induction ulist generalizing step counter with
  | nil => exact Traced.all_pure _
  | cons p2 ulist ih =>
      rw [System.addPartitions]
      split
      · exact ih step counter
      · split
        · exact ih step counter
        · rw [Traced.all_bind]
          refine ⟨?_, fun _ _ => ih (step + 1) (counter + 1)⟩
          rw [System.doAddPartition]
          split
          · exact Traced.all_reject
          · split
            · exact Traced.all_reject
            · rw [System.blkpgPartCommand, Traced.all_bind, Traced.all_emit]
              constructor
              · intro command issued pno removal
                rw [List.mem_singleton.mp issued] at removal
                cases removal
              · intro _ _
                split
                · exact Traced.all_pure _
                · exact Traced.all_reject

end

/-- An earlier partition of the disk has the name of the partition. -/
def HasEarlierNamesake (olist : List Partition) (part : Partition) : Prop :=
  ∃ before behind, olist = before ++ part :: behind ∧ ∃ old ∈ before, SameName old part

section

variable {system : System} {sysfs : Sysfs} {nlist : List Partition} {part : Partition}

theorem traversed_distinct (sysfs : Sysfs) (nlist : List Partition) :
    ((traversePartitionList nlist (probeAllPartitions sysfs)).1.map Partition.partNum).Nodup := by
  have numbers (list : List Partition) :
      (list.map Partition.unmarked).map Partition.partNum = list.map Partition.partNum := by
    rw [List.map_map]
    rfl
  rw [← numbers, traversePartitionList_unmarked, numbers]
  exact probePartitions_distinct sysfs _ 1

/-- What the disk's list holds of a partition when the comparison is done. -/
theorem traversed_mark (nlist : List Partition) (member : part ∈ probeAllPartitions sysfs) :
    ∃ marked ∈ (traversePartitionList nlist (probeAllPartitions sysfs)).1,
      marked.partNum = part.partNum ∧ marked.partName = part.partName ∧
      (HasEarlierNamesake (probeAllPartitions sysfs) part ∧ marked.changeType = .normalChange ∨
        marked.changeType = finalChange part nlist) := by
  obtain ⟨before, behind, split⟩ := List.append_of_mem member
  by_cases taken : ∃ old ∈ before, SameName old part
  · obtain ⟨before', behind', traversed⟩ := traversePartitionList_kept nlist behind taken
    refine ⟨part, ?_, rfl, rfl, Or.inl ⟨⟨before, behind, split, taken⟩, ?_⟩⟩
    · rw [split, traversed]
      exact List.mem_append_right _ List.mem_cons_self
    · exact (probePartitions_sound member).2
  · have free : ∀ old ∈ before, ¬ SameName old part := fun old among same =>
      taken ⟨old, among, same⟩
    obtain ⟨before', behind', traversed⟩ := traversePartitionList_last nlist behind free
    refine ⟨part.marked (finalChange part nlist), ?_, rfl, rfl, Or.inr rfl⟩
    rw [split, traversed]
    exact List.mem_append_right _ List.mem_cons_self

/-- A partition of the disk that `DoPartitions` removes has an earlier namesake, or the new
list changes it. -/
theorem doPartitions_removes (member : part ∈ probeAllPartitions sysfs)
    (removed : BlkpgCommand.del part.partNum ∈ (system.doPartitions sysfs nlist).events) :
    part.partName ≠ updaterPartname ∧ part.partName ≠ userdataPartname ∧
      (HasEarlierNamesake (probeAllPartitions sysfs) part ∨
        finalChange part nlist ≠ .notChange) := by
  rw [System.doPartitions] at removed
  split at removed
  · cases removed
  · split at removed
    · cases removed
    · dsimp only at removed
      split at removed
      · cases removed
      · rw [System.adjustPartitions] at removed
        split at removed
        · cases removed
        · rcases Traced.mem_events_bind.mp removed with early | ⟨counter, -, late⟩
          · obtain ⟨it, among, same, changed, notUpdater, notUserdata⟩ :=
              removePartitions_all system _ _ _ _ early
            obtain ⟨marked, present, number, name, mark⟩ := traversed_mark nlist member
            have here : it = marked := by
              apply List.inj_on_of_nodup_map (traversed_distinct sysfs nlist) among present
              rw [number]
              exact (BlkpgCommand.del.inj same).symm
            subst here
            rw [name] at notUpdater notUserdata
            refine ⟨notUpdater, notUserdata, ?_⟩
            rcases mark with ⟨earlier, -⟩ | final
            · exact Or.inl earlier
            · exact Or.inr (final ▸ changed)
          · exact absurd rfl (addPartitions_all system _ _ _ _ _ late part.partNum)

/-- A system on which every call succeeds. -/
def System.obeying : System where
  diskAlloc := true
  blockDiskOpen := true
  umountForPath := fun _ => true
  ioctl := fun _ => true

/-- There, a partition with an earlier namesake is removed whatever the new list says. -/
theorem doPartitions_obeying (some : nlist ≠ []) (member : part ∈ probeAllPartitions sysfs)
    (earlier : HasEarlierNamesake (probeAllPartitions sysfs) part)
    (notUpdater : part.partName ≠ updaterPartname)
    (notUserdata : part.partName ≠ userdataPartname) :
    BlkpgCommand.del part.partNum ∈ (System.obeying.doPartitions sysfs nlist).events := by
  obtain ⟨before, behind, split, taken⟩ := earlier
  obtain ⟨before', behind', traversed⟩ := traversePartitionList_kept nlist behind taken
  have present : part ∈ (traversePartitionList nlist (probeAllPartitions sysfs)).1 := by
    rw [split, traversed]
    exact List.mem_append_right _ List.mem_cons_self
  have changed : part.changeType ≠ .notChange := by
    rw [(probePartitions_sound member).2]
    exact PartitionChangeType.noConfusion
  have numbered : ∀ it ∈ (traversePartitionList nlist (probeAllPartitions sysfs)).1,
      it.partNum ≠ 0 := by
    intro it among
    have image : it.unmarked ∈ (probeAllPartitions sysfs).map Partition.unmarked := by
      rw [← traversePartitionList_unmarked nlist]
      exact List.mem_map_of_mem among
    obtain ⟨old, probed, same⟩ := List.mem_map.mp image
    have number : old.unmarked.partNum = it.unmarked.partNum := congrArg Partition.partNum same
    change old.partNum = it.partNum at number
    have positive := (probePartitions_sound probed).1
    omega
  have removed := @removePartitions_obeyed System.obeying _ _ (fun _ => rfl) (fun _ => rfl)
    (fun it among => ⟨among, numbered it among⟩) 1
  have disk : probeAllPartitions sysfs ≠ [] := List.ne_nil_of_mem member
  rw [System.doPartitions, if_neg some, if_neg Bool.noConfusion]
  dsimp only
  rw [if_neg disk, System.adjustPartitions, if_neg Bool.noConfusion, Traced.mem_events_bind]
  exact Or.inl (removed.2 part present changed notUpdater notUserdata)

end

end Updater.FsManager
