import Updater.Base.History
import Updater.Base.Interleaving
import Updater.UpdaterMain.InstallPackages

/-! Over any number of restarts the packages are installed in their order and none is skipped, and
a partition is left out only after it was updated for the same package, as long as no record that
something else left names it. -/

set_option autoImplicit false

namespace Updater.UpdaterMain

open Utils ApplyPatch
open Base (Bytes Lawful Along runSchedule zero_notMem_cString cString_of_clean)

section

variable (contents : List Char → List Bytes) (packages : List (List Char))

/-- The partitions of the package at a place of the list. -/
def partitionsOf (package : Nat) : List Bytes :=
  (packages[package]?.map contents).getD []

/-- What may happen after what has happened. -/
def Allowed (before : List Event) : Event → Prop
  | .entered package =>
      (∀ earlier < package, .installed earlier ∈ before) ∧
        ∀ other, .entered other ∈ before → other ≤ package
  | .updated _ _ => True
  | .skipped package partition => .updated package partition ∈ before
  | .installed package =>
      (∀ earlier < package, .installed earlier ∈ before) ∧
        (∀ other, .installed other ∈ before → other ≤ package) ∧
          ∀ partition ∈ partitionsOf contents packages package, .updated package partition ∈ before
  | .finished => ∀ package < packages.length, .installed package ∈ before

/-- The packages are installed in their order and completely, no partition is left out that was not
updated for its package, and the misc message counts no package that is not installed. -/
structure InOrder (device : Device) : Prop where
  lawful : Lawful (Allowed contents packages) device.history
  counted : (startUpdater device.args).pkgLocation ≤
    ((List.range packages.length).filter (Event.installed · ∈ device.history)).length

/-- No slot that is marked as updated names one of the partitions. -/
def Unclaimed (partitions : List Bytes) (misc : MiscRegion) : Prop :=
  ∀ slot ∈ storedSlots maxPartitionNum misc.record, slot.updated = true →
    slot.partitionName ∉ partitions

instance (partitions : List Bytes) (misc : MiscRegion) : Decidable (Unclaimed partitions misc) :=
  inferInstanceAs (Decidable (∀ slot ∈ _, _ → _))

/-- The names fit the slots. -/
def FitSlots (partitions : List Bytes) : Prop :=
  ∀ partition ∈ partitions, partition.length < partitionNameLen ∧ 0 ∉ partition

instance (partitions : List Bytes) : Decidable (FitSlots partitions) :=
  inferInstanceAs (Decidable (∀ partition ∈ partitions, _))

/-- When a package is entered for the first time, the record does not claim a partition of it, and
when the message is changed it keeps its other arguments. -/
def Spared (move : Move) (device : Device) : Prop :=
  match move, device.running with
  | .advance, some run =>
      match run.phase with
      | .entering =>
          let partitions := (run.package.map contents).getD []
          FitSlots partitions ∧
            (.entered run.params.pkgLocation ∉ device.history → Unclaimed partitions device.record)
      | .marking => Keeps retryCountOption (run.params.retryCount + 1) device.args
      | .installed => Keeps upgradedPkgNumOption (run.params.pkgLocation + 1 : Nat) device.args
      | _ => True
  | .fault, some run =>
      Keeps retryCountOption (((unsignedInt run.params.retryCount + 1) % 2 ^ 32 : Nat) : Int) device.args
  | _, _ => True

instance (move : Move) (device : Device) : Decidable (Spared contents move device) := by
  unfold Spared
  split
  · split
    · infer_instance
    · infer_instance
    · infer_instance
    · infer_instance
  · infer_instance
  · infer_instance

end

def forceUpdateActionOption : List Char := "force_update_action".toList

def panicCountOption : List Char := "panic_count".toList

def nightUpdateOption : List Char := "night_update".toList

def shrinkInfoOption : List Char := "shrink_info".toList

def virtualShrinkInfoOption : List Char := "virtual_shrink_info".toList

/-- An argument of a message that asks for an update: the whole name of one of these options, with
its value if it has one. -/
def IsRequest (arg : List Char) : Prop :=
  match longOption arg with
  | some (option, _) =>
      option = nightUpdateOption ∨
        '=' ∈ arg ∧ option ∈ [updatePackageOption, forceUpdateActionOption, panicCountOption,
          shrinkInfoOption, virtualShrinkInfoOption]
  | none => False

instance (arg : List Char) : Decidable (IsRequest arg) := by
  unfold IsRequest
  split
  · infer_instance
  · infer_instance

/-- The device was asked to install the packages, and has not begun. -/
structure Requested (packages : List (List Char)) (device : Device) : Prop where
  off : device.running = none
  new : device.history = []
  args : ∀ arg ∈ device.args, IsRequest arg
  packages : optionValues updatePackageOption device.args = packages

theorem optionValues_eq_nil {option : List Char} {args : List (List Char)}
    (request : ∀ arg ∈ args, IsRequest arg)
    (other : option ∉ [nightUpdateOption, updatePackageOption, forceUpdateActionOption,
      panicCountOption, shrinkInfoOption, virtualShrinkInfoOption]) :
    optionValues option args = [] := by
  rw [optionValues, List.filterMap_eq_nil_iff]
  intro arg member
  have asked := request arg member
  rw [IsRequest] at asked
  split at asked
  · rename_i given value read
    have different : given ≠ option := by
      rintro rfl
      cases asked with
      | inl night => exact other (night ▸ List.mem_cons_self)
      | inr named => exact other (List.mem_cons_of_mem _ named.2)
    simp [read, different]
  · exact asked.elim

theorem Requested.params {packages : List (List Char)} {device : Device}
    (requested : Requested packages device) :
    startUpdater device.args = { updatePackage := packages } := by
  rw [startUpdater_eq, requested.packages, optionValues_eq_nil requested.args (by decide),
    optionValues_eq_nil requested.args (by decide)]
  rfl

section

variable (contents : List Char → List Bytes) (packages : List (List Char)) (location : Nat)

/-- A slot that claims a partition of the package was left when it was updated for the package. -/
structure Claimed (misc : MiscRegion) (history : List Event) : Prop where
  fit : FitSlots (partitionsOf contents packages location)
  own : ∀ slot ∈ storedSlots maxPartitionNum misc.record, slot.updated = true →
    slot.partitionName ∈ partitionsOf contents packages location →
    .updated location slot.partitionName ∈ history

/-- What holds, on and off, until the packages are all installed. -/
structure Ongoing (args : List (List Char)) (misc : MiscRegion) (history : List Event) : Prop where
  params : ∃ retryCount ≤ maxRetryCount,
    startUpdater args = { updatePackage := packages, retryCount, pkgLocation := location }
  small : packages.length < 2 ^ 31
  within : location ≤ packages.length
  lawful : Lawful (Allowed contents packages) history
  before : ∀ earlier < location, .installed earlier ∈ history
  latest : ∀ package, .installed package ∈ history → package ≤ location
  reached : ∀ package, .entered package ∈ history → package ≤ location
  claimed : .entered location ∈ history → Claimed contents packages location misc history

/-- The package is entered, and what the script does not update any more is updated. -/
structure Remaining (history : List Event) (todo : List Bytes) : Prop where
  inside : location < packages.length
  entered : .entered location ∈ history
  listed : ∀ partition ∈ todo, partition ∈ partitionsOf contents packages location
  done : ∀ partition ∈ partitionsOf contents packages location,
    partition ∈ todo ∨ .updated location partition ∈ history

def Place (history : List Event) (retryCount : Int) : Phase → Prop
  | .entering => True
  | .marking => retryCount = 0 ∧ location < packages.length ∧ .entered location ∈ history
  | .installing todo => Remaining contents packages location history todo
  | .recording partition todo =>
      Remaining contents packages location history todo ∧
        partition ∈ partitionsOf contents packages location ∧ .updated location partition ∈ history
  | .moving todo => Remaining contents packages location history todo
  | .installed => location < packages.length ∧ .installed location ∈ history

/-- A run is at the package that the message names. -/
structure Underway (history : List Event) (run : Run) : Prop where
  params : ∃ retryCount ≤ maxRetryCount,
    run.params = { updatePackage := packages, retryCount, pkgLocation := location }
  place : Place contents packages location history run.params.retryCount run.phase

end

/-- The course of an update. -/
inductive Course (contents : List Char → List Bytes) (packages : List (List Char))
    (device : Device) : Prop where
  | ended (off : device.running = none) (params : startUpdater device.args = {})
      (lawful : Lawful (Allowed contents packages) device.history)
  | ongoing (location : Nat)
      (ongoing : Ongoing contents packages location device.args device.record device.history)
      (underway : ∀ run, device.running = some run →
        Underway contents packages location device.history run)

variable {contents : List Char → List Bytes} {packages : List (List Char)} {device : Device}

theorem Course.begun (params : startUpdater device.args = { updatePackage := packages })
    (off : device.running = none) (new : device.history = []) : Course contents packages device := by
  have small := length_updatePackage_lt device.commandFile device.misc
  rw [← Device.args, params] at small
  refine .ongoing 0 ?_ fun run running => ?_
  · rw [new]
    exact {
      params := ⟨0, Nat.zero_le _, params⟩
      small
      within := Nat.zero_le _
      lawful := Lawful.nil
      before := fun _ below => absurd below (Nat.not_lt_zero _)
      latest := fun _ member => absurd member List.not_mem_nil
      reached := fun _ member => absurd member List.not_mem_nil
      claimed := fun member => absurd member List.not_mem_nil }
  · rw [off] at running
    exact absurd running.symm (Option.some_ne_none run)

theorem Requested.course (requested : Requested packages device) : Course contents packages device :=
  .begun requested.params requested.off requested.new

theorem Course.inOrder (course : Course contents packages device) : InOrder contents packages device := by
  cases course with
  | ended off params lawful =>
      refine ⟨lawful, ?_⟩
      rw [params]
      exact Nat.zero_le _
  | ongoing location ongoing underway =>
      refine ⟨ongoing.lawful, ?_⟩
      obtain ⟨retryCount, _, params⟩ := ongoing.params
      have installed : List.range location ⊆
          (List.range packages.length).filter (Event.installed · ∈ device.history) := by
        intro package member
        have earlier := List.mem_range.mp member
        exact List.mem_filter.mpr ⟨List.mem_range.mpr (earlier.trans_le ongoing.within),
          decide_eq_true (ongoing.before package earlier)⟩
      have count := List.nodup_range.length_le_of_subset installed
      rw [List.length_range] at count
      rw [params]
      exact count

section

variable {location : Nat} {args : List (List Char)} {misc : MiscRegion} {history : List Event}

theorem Claimed.mono {later : List Event} (grown : history ⊆ later)
    (claimed : Claimed contents packages location misc history) :
    Claimed contents packages location misc later where
  fit := claimed.fit
  own slot member updated listed := grown (claimed.own slot member updated listed)

/-- The offset of the record does not matter. -/
theorem Claimed.of_record {later : MiscRegion} (same : later.record = misc.record)
    (claimed : Claimed contents packages location misc history) :
    Claimed contents packages location later history where
  fit := claimed.fit
  own slot member := claimed.own slot (same ▸ member)

theorem Remaining.mono {later : List Event} {todo : List Bytes} (grown : history ⊆ later)
    (remaining : Remaining contents packages location history todo) :
    Remaining contents packages location later todo where
  inside := remaining.inside
  entered := grown remaining.entered
  listed := remaining.listed
  done partition listed := (remaining.done partition listed).imp_right (grown ·)

/-- An event of the package itself. -/
theorem Ongoing.log (ongoing : Ongoing contents packages location args misc history) {event : Event}
    (allowed : Allowed contents packages history event)
    (installed : ∀ package, event = .installed package → package = location)
    (entered : ∀ package, event ≠ .entered package) :
    Ongoing contents packages location args misc (history ++ [event]) where
  params := ongoing.params
  small := ongoing.small
  within := ongoing.within
  lawful := ongoing.lawful.concat allowed
  before earlier below := List.mem_append_left _ (ongoing.before earlier below)
  latest package member := by
    cases List.mem_append.mp member with
    | inl old => exact ongoing.latest package old
    | inr new => exact Nat.le_of_eq (installed package (List.mem_singleton.mp new).symm)
  reached package member := by
    cases List.mem_append.mp member with
    | inl old => exact ongoing.reached package old
    | inr new => exact absurd (List.mem_singleton.mp new).symm (entered package)
  claimed member := by
    cases List.mem_append.mp member with
    | inl old => exact (ongoing.claimed old).mono (List.subset_append_left _ _)
    | inr new => exact absurd (List.mem_singleton.mp new).symm (entered location)

/-- The package is entered, for the first time or again. -/
theorem Ongoing.enter (ongoing : Ongoing contents packages location args misc history)
    (fit : FitSlots (partitionsOf contents packages location))
    (unclaimed : .entered location ∉ history → Unclaimed (partitionsOf contents packages location) misc) :
    Ongoing contents packages location args misc (history ++ [.entered location]) where
  params := ongoing.params
  small := ongoing.small
  within := ongoing.within
  lawful := ongoing.lawful.concat ⟨ongoing.before, ongoing.reached⟩
  before earlier below := List.mem_append_left _ (ongoing.before earlier below)
  latest package member := by
    cases List.mem_append.mp member with
    | inl old => exact ongoing.latest package old
    | inr new => exact absurd (List.mem_singleton.mp new) (by simp)
  reached package member := by
    cases List.mem_append.mp member with
    | inl old => exact ongoing.reached package old
    | inr new =>
        cases List.mem_singleton.mp new
        exact Nat.le_refl location
  claimed _ := by
    by_cases again : .entered location ∈ history
    · exact (ongoing.claimed again).mono (List.subset_append_left _ _)
    · exact ⟨fit, fun slot member updated listed => absurd listed (unclaimed again slot member updated)⟩

/-- Only the slots of the record matter. -/
theorem Ongoing.record (ongoing : Ongoing contents packages location args misc history)
    {later : MiscRegion}
    (claimed : Claimed contents packages location misc history →
      Claimed contents packages location later history) :
    Ongoing contents packages location args later history where
  params := ongoing.params
  small := ongoing.small
  within := ongoing.within
  lawful := ongoing.lawful
  before := ongoing.before
  latest := ongoing.latest
  reached := ongoing.reached
  claimed entered := claimed (ongoing.claimed entered)

theorem Ongoing.retry (ongoing : Ongoing contents packages location args misc history)
    {retryCount : Nat} (most : retryCount ≤ maxRetryCount) :
    Ongoing contents packages location (changed retryCountOption retryCount args) misc history where
  params := by
    obtain ⟨before, _, params⟩ := ongoing.params
    have small : retryCount < 2 ^ 31 := Nat.lt_of_le_of_lt most (by decide)
    exact ⟨retryCount, most, by rw [startUpdater_retryCount small, params]⟩
  small := ongoing.small
  within := ongoing.within
  lawful := ongoing.lawful
  before := ongoing.before
  latest := ongoing.latest
  reached := ongoing.reached
  claimed := ongoing.claimed

/-- The package is installed, and the next one is named. -/
theorem Ongoing.next (ongoing : Ongoing contents packages location args misc history)
    (inside : location < packages.length) (installed : .installed location ∈ history) :
    Ongoing contents packages (location + 1)
      (changed upgradedPkgNumOption (location + 1 : Nat) args) misc history where
  params := by
    obtain ⟨retryCount, most, params⟩ := ongoing.params
    have small : location + 1 < 2 ^ 31 := Nat.lt_of_le_of_lt inside ongoing.small
    exact ⟨retryCount, most, by rw [startUpdater_upgradedPkgNum small, params]⟩
  small := ongoing.small
  within := inside
  lawful := ongoing.lawful
  before earlier below := by
    rcases Nat.lt_succ_iff_lt_or_eq.mp below with old | rfl
    · exact ongoing.before earlier old
    · exact installed
  latest package member := (ongoing.latest package member).trans (Nat.le_succ location)
  reached package member := (ongoing.reached package member).trans (Nat.le_succ location)
  claimed member := absurd (ongoing.reached _ member) (Nat.not_succ_le_self location)

/-- The record of an updated partition claims no other one. -/
theorem Claimed.writeSlot {partition : Bytes}
    (claimed : Claimed contents packages location misc history)
    (listed : partition ∈ partitionsOf contents packages location)
    (updated : .updated location partition ∈ history)
    (fits : misc.offset + partitionRecordInfoLen < partitionUpdaterRecordSize) :
    Claimed contents packages location (writeSlot partition misc fits) history where
  fit := claimed.fit
  own slot member marked named := by
    obtain ⟨short, clean⟩ := claimed.fit partition listed
    obtain ⟨index, offset⟩ := misc.aligned
    have place : misc.offset = index * partitionRecordInfoLen := offset.trans (Nat.mul_comm _ _)
    have room : (index + 1) * partitionRecordInfoLen ≤ misc.record.length := by
      rw [misc.sized, Nat.add_mul, Nat.one_mul, ← place]
      exact MiscRegion.room fits
    have written : slot ∈ storedSlots maxPartitionNum
        (Base.writeAt misc.record (index * partitionRecordInfoLen)
          ({ partitionName := partition, updated := true } : PartitionRecordInfo).bytes) := by
      rw [← place]
      exact member
    rcases mem_storedSlots_writeAt short room written with old | new | long
    · exact claimed.own slot old marked named
    · rw [new, cString_of_clean clean]
      exact updated
    · exact absurd (claimed.fit _ named).1 (Nat.not_lt.mpr long)

end

theorem startUpdater_clearMisc (misc : UpdateMessage) :
    startUpdater (parseParams none (clearMisc misc)) = {} := by
  have blank (count : Nat) : cString (List.replicate count nul) = [] := by
    cases count with
    | zero => rfl
    | succ count => rfl
  have text : parseParams none (clearMisc misc) = [[]] := by
    rw [parseParams, Option.getD_none, ite_self]
    dsimp only [clearMisc]
    rw [List.take_replicate, blank]
    rfl
  rw [text]
  rfl

section

variable {location : Nat} {run : Run}
  (ongoing : Ongoing contents packages location device.args device.record device.history)
include ongoing

theorem Ongoing.stop : Course contents packages device.stop :=
  .ongoing location ongoing fun _ running => absurd running.symm (Option.some_ne_none _)

/-- The course goes on with a run. -/
theorem Ongoing.running (underway : Underway contents packages location device.history run) :
    Course contents packages (device.run run) :=
  .ongoing location ongoing fun _ running => Option.some.inj running ▸ underway

theorem Ongoing.start (off : device.running = none) : Course contents packages device.start := by
  rw [Device.start, off]
  dsimp only
  split
  · refine .ongoing location ongoing fun run running => ?_
    rw [off] at running
    exact absurd running.symm (Option.some_ne_none run)
  · exact ongoing.running ⟨ongoing.params, trivial⟩

variable (underway : Underway contents packages location device.history run)
include underway

theorem Underway.rebootRetry
    (keeps : Keeps retryCountOption (((unsignedInt run.params.retryCount + 1) % 2 ^ 32 : Nat) : Int)
      device.args) : Course contents packages (device.rebootRetry run) := by
  obtain ⟨retryCount, most, params⟩ := underway.params
  have same : unsignedInt run.params.retryCount = retryCount := by
    rw [params]
    exact unsignedInt_natCast (Nat.lt_of_le_of_lt most (by decide))
  rw [same] at keeps
  rw [Device.rebootRetry, same]
  dsimp only
  split
  · exact ongoing.stop
  · rename_i again
    have most := Nat.lt_of_not_le again
    have small : (retryCount + 1) % 2 ^ 32 = retryCount + 1 :=
      Nat.mod_eq_of_lt (Nat.lt_of_le_of_lt most (by decide))
    rw [small] at keeps ⊢
    have short := @length_headArg_lt retryCountOption (by decide) (retryCount + 1)
      (Nat.lt_of_le_of_lt most (by decide))
    have stored := parseParams_addUpdateInfoToMisc retryCount_isOptionName short keeps none
    refine .ongoing location ?_ fun _ running => absurd running.symm (Option.some_ne_none _)
    rw [Device.args]
    exact stored ▸ ongoing.retry most

omit ongoing in
theorem Underway.package : run.package = packages[location]? := by
  obtain ⟨_, _, params⟩ := underway.params
  rw [Run.package, params]

omit ongoing in
theorem Underway.partitions :
    (run.package.map contents).getD [] = partitionsOf contents packages location := by
  rw [underway.package, partitionsOf]

omit ongoing in
theorem Underway.located : run.params.pkgLocation = location := by
  obtain ⟨_, _, params⟩ := underway.params
  rw [params]

omit ongoing in
/-- The run at another place. -/
theorem Underway.at_ {history : List Event} {phase : Phase}
    (place : Place contents packages location history run.params.retryCount phase) :
    Underway contents packages location history (run.at_ phase) :=
  ⟨underway.params, place⟩

theorem Underway.enter (fit : FitSlots (partitionsOf contents packages location))
    (unclaimed : .entered location ∉ device.history →
      Unclaimed (partitionsOf contents packages location) device.record) :
    Course contents packages (device.enter contents run) := by
  obtain ⟨retryCount, _, params⟩ := underway.params
  have entered := ongoing.enter fit unclaimed
  have last : .entered location ∈ device.history ++ [.entered location] :=
    List.mem_append_right _ List.mem_cons_self
  rw [Device.enter, underway.package, underway.located]
  cases found : packages[location]? with
  | none =>
      have done : location = run.params.updatePackage.length := by
        rw [params]
        exact Nat.le_antisymm ongoing.within (List.getElem?_eq_none_iff.mp found)
      dsimp only
      rw [if_pos done]
      refine .ended rfl (startUpdater_clearMisc device.misc) (ongoing.lawful.concat ?_)
      intro package inside
      rw [params] at done
      exact ongoing.before package (done ▸ inside)
  | some path =>
      have inside : location < packages.length := (List.getElem?_eq_some_iff.mp found).1
      have partitions : contents path = partitionsOf contents packages location := by
        rw [partitionsOf, found]
        rfl
      dsimp only
      split
      · rename_i first
        exact .ongoing location (entered.record (.of_record rfl)) fun _ running =>
          Option.some.inj running ▸ underway.at_ ⟨first, inside, last⟩
      · refine .ongoing location entered fun _ running => Option.some.inj running ▸ underway.at_ ?_
        rw [partitions]
        exact ⟨inside, last, fun _ listed => listed, fun _ listed => .inl listed⟩

/-- A partition is updated and then recorded, or left out. -/
theorem Underway.update {partition : Bytes} {todo : List Bytes}
    (remaining : Remaining contents packages location device.history (partition :: todo)) :
    Course contents packages (device.update run partition todo) := by
  have listed := remaining.listed partition List.mem_cons_self
  have goesOn {event : Event} (updated : .updated location partition ∈ device.history ++ [event]) :
      Remaining contents packages location (device.history ++ [event]) todo := by
    have grown := remaining.mono (List.subset_append_left device.history [event])
    refine ⟨grown.inside, grown.entered, fun other member =>
      grown.listed other (List.mem_cons_of_mem _ member), fun other member => ?_⟩
    rcases grown.done other member with waits | done
    · rcases List.mem_cons.mp waits with rfl | later
      · exact .inr updated
      · exact .inl later
    · exact .inr done
  rw [Device.update, underway.located]
  split
  · rename_i skips
    obtain ⟨slot, stored, marked, named⟩ :=
      exists_slot_of_isPartitionUpdated (Bool.and_eq_true_iff.mp skips).2
    have claimed := ongoing.claimed remaining.entered
    rw [cString_of_clean (claimed.fit partition listed).2] at named
    have updated := claimed.own slot stored marked (named ▸ listed)
    rw [named] at updated
    have logged := @Ongoing.log _ _ _ _ _ _ ongoing (.skipped location partition) updated
      (fun _ same => absurd same (by simp)) (fun _ => by simp)
    exact .ongoing location logged fun _ running => Option.some.inj running ▸
      underway.at_ (goesOn (List.mem_append_left _ updated))
  · have logged := @Ongoing.log _ _ _ _ _ _ ongoing (.updated location partition) trivial
      (fun _ same => absurd same (by simp)) (fun _ => by simp)
    have last : .updated location partition ∈ device.history ++ [.updated location partition] :=
      List.mem_append_right _ List.mem_cons_self
    exact .ongoing location logged fun _ running => Option.some.inj running ▸
      underway.at_ ⟨goesOn last, listed, last⟩

theorem Underway.install (remaining : Remaining contents packages location device.history []) :
    Course contents packages
      ((device.log (.installed run.params.pkgLocation)).run (run.at_ .installed)) := by
  rw [underway.located]
  have whole : ∀ partition ∈ partitionsOf contents packages location,
      .updated location partition ∈ device.history := fun partition listed =>
    (remaining.done partition listed).resolve_left List.not_mem_nil
  have logged := @Ongoing.log _ _ _ _ _ _ ongoing (.installed location)
    ⟨ongoing.before, ongoing.latest, whole⟩ (fun _ same => (Event.installed.inj same).symm)
    (fun _ => by simp)
  exact .ongoing location logged fun _ running => Option.some.inj running ▸
    underway.at_ ⟨remaining.inside, List.mem_append_right _ List.mem_cons_self⟩

theorem Underway.mark (first : run.params.retryCount = 0) (inside : location < packages.length)
    (entered : .entered location ∈ device.history)
    (keeps : Keeps retryCountOption (run.params.retryCount + 1) device.args) :
    Course contents packages
      ((device.setMessage (run.params.retryCount + 1) retryCountOption).run
        (run.at_ (.installing ((run.package.map contents).getD [])))) := by
  rw [first] at keeps ⊢
  rw [underway.partitions]
  have short := @length_headArg_lt retryCountOption (by decide) 1 (by decide)
  have stored := parseParams_setMessageToMisc retryCount_isOptionName (by decide)
    (by decide : (cString miscCmd).length < maxCommandSize) short keeps
  refine .ongoing location ?_ fun _ running => Option.some.inj running ▸ underway.at_
    ⟨inside, entered, fun _ listed => listed, fun _ listed => .inl listed⟩
  have marked := @Ongoing.retry _ _ _ _ _ _ ongoing 1 (by decide)
  rw [Device.args]
  exact stored ▸ marked

theorem Underway.next (inside : location < packages.length)
    (installed : .installed location ∈ device.history)
    (keeps : Keeps upgradedPkgNumOption (run.params.pkgLocation + 1 : Nat) device.args) :
    Course contents packages
      ((device.setMessage (run.params.pkgLocation + 1 : Nat) upgradedPkgNumOption).run
        { params := { run.params with pkgLocation := run.params.pkgLocation + 1 }
          phase := .entering }) := by
  obtain ⟨retryCount, most, params⟩ := underway.params
  rw [underway.located] at keeps ⊢
  have short := @length_headArg_lt upgradedPkgNumOption (by decide) (location + 1)
    (Nat.lt_of_le_of_lt inside ongoing.small)
  have stored := parseParams_setMessageToMisc upgradedPkgNum_isOptionName (by decide)
    (by decide : (cString miscCmd).length < maxCommandSize) short keeps
  refine .ongoing (location + 1) ?_ fun _ running => Option.some.inj running ▸
    ⟨⟨retryCount, most, by rw [params]⟩, trivial⟩
  rw [Device.args]
  exact stored ▸ ongoing.next inside installed

/-- Every step of a run that meets the condition keeps the course. -/
theorem Underway.advance (running : device.running = some run)
    (spared : Spared contents .advance device) : Course contents packages (device.advance contents run) := by
  have place := underway.place
  rw [Spared.eq_def, running] at spared
  dsimp only at spared
  rw [Device.advance]
  cases phase : run.phase with
  | entering =>
      rw [phase] at spared
      dsimp only at spared
      rw [underway.partitions, underway.located] at spared
      exact underway.enter ongoing spared.1 spared.2
  | marking =>
      rw [phase] at place spared
      obtain ⟨first, inside, entered⟩ := place
      exact underway.mark ongoing first inside entered spared
  | installing todo =>
      rw [phase] at place
      cases todo with
      | nil => exact underway.install ongoing place
      | cons partition todo => exact underway.update ongoing place
  | recording partition todo =>
      rw [phase] at place
      obtain ⟨remaining, listed, updated⟩ := place
      dsimp only
      split
      · rename_i fits
        exact .ongoing location (ongoing.record fun claimed => claimed.writeSlot listed updated fits)
          fun _ running => Option.some.inj running ▸ underway.at_ remaining
      · exact ongoing.running (underway.at_ remaining)
  | moving todo =>
      rw [phase] at place
      exact .ongoing location (ongoing.record (.of_record rfl)) fun _ running =>
        Option.some.inj running ▸ underway.at_ place
  | installed =>
      rw [phase] at place spared
      exact underway.next ongoing place.1 place.2 spared

end

theorem Course.step (move : Move) (course : Course contents packages device)
    (spared : Spared contents move device) : Course contents packages (device.step contents move) := by
  cases course with
  | ended off params lawful =>
      rw [Device.step.eq_def, off]
      cases move with
      | start =>
          rw [Device.start.eq_def, off]
          dsimp only
          rw [params, if_pos rfl]
          exact .ended off params lawful
      | advance => exact .ended off params lawful
      | fault => exact .ended off params lawful
      | stop => exact .ended off params lawful
  | ongoing location ongoing underway =>
      rw [Device.step.eq_def]
      cases running : device.running with
      | none =>
          cases move with
          | start => exact ongoing.start running
          | advance => exact .ongoing location ongoing underway
          | fault => exact .ongoing location ongoing underway
          | stop => exact .ongoing location ongoing underway
      | some run =>
          cases move with
          | start =>
              dsimp only
              rw [Device.start.eq_def, running]
              exact .ongoing location ongoing underway
          | advance => exact (underway run running).advance ongoing running spared
          | fault =>
              rw [Spared.eq_def, running] at spared
              exact (underway run running).rebootRetry ongoing spared
          | stop => exact ongoing.stop

/-- A device that is asked for two packages, with an empty record. -/
def twoPackages : Device where
  commandFile := none
  misc := updateMessage "--update_package=/a.zip\n--update_package=/b.zip"
  record := blankMisc
  running := none
  history := []

theorem twoPackages_requested : Requested ["/a.zip".toList, "/b.zip".toList] twoPackages where
  off := rfl
  new := rfl
  args := by decide +kernel
  packages := by decide +kernel

/-- The power is lost when the first package is installed and counted. -/
def lostBetween : List Move :=
  [.start, .advance, .advance, .advance, .advance, .advance, .advance, .advance, .stop, .start,
    .advance, .advance]

/-- The first package updates `s`, and the second one `v`. -/
def oneEach (path : List Char) : List Bytes :=
  if path = "/a.zip".toList then [[115]] else [[118]]

end Updater.UpdaterMain
