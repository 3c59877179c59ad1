import Updater.UpdaterKits.RequestSurvives
import Updater.UpdaterMain.RetryReboots

/-! From the request that updaterkits writes before the reboot to the packages that the updater
installs after it. -/

set_option autoImplicit false

namespace Updater.UpdaterMain

open Utils UpdaterKits
open ApplyPatch (MiscRegion blankMisc)
open Base (Bytes runSchedule Along)

/-- The options of the packages and of their progress. -/
def progressOptions : List (List Char) :=
  [updatePackageOption, retryCountOption, upgradedPkgNumOption]

/-- The argument gives a value to none of them. -/
def Beside (arg : List Char) : Prop :=
  ∀ given, longOption arg = some given → given.1 ∉ progressOptions

/-- The elements of a request that are packages. -/
def packagesOf (request : Request) : List (List Char) :=
  request.packageName.filter fun element => ¬ IsOption optionNames element

theorem longOption_dashes {first : Char} (named : first ≠ '=') (rest : List Char) :
    ∃ name value, longOption ('-' :: '-' :: first :: rest) = some (first :: name, value) := by
  have kept : (first :: rest).takeWhile (· ≠ '=') = first :: rest.takeWhile (· ≠ '=') :=
    List.takeWhile_cons_of_pos (decide_eq_true named)
  rw [longOption, kept]
  exact ⟨_, _, rfl⟩

/-- The name of an option of the progress begins with another letter. -/
theorem beside_dashes {first : Char} (listed : first ∈ ['f', 'n', 's', 'v', 'o'])
    (rest : List Char) : Beside ('-' :: '-' :: first :: rest) := by
  have named : first ≠ '=' ∧ first ≠ 'u' ∧ first ≠ 'r' := by
    simp only [List.mem_cons, List.not_mem_nil, or_false] at listed
    obtain rfl | rfl | rfl | rfl | rfl := listed <;> decide
  obtain ⟨name, value, read⟩ := longOption_dashes named.1 rest
  intro given found inside
  rw [read] at found
  rw [← Option.some.inj found] at inside
  cases inside with
  | head => exact named.2.1 rfl
  | tail _ inside =>
      cases inside with
      | head => exact named.2.2 rfl
      | tail _ inside => exact named.2.1 (List.head_eq_of_cons_eq (List.mem_singleton.mp inside))

theorem beside_option {element : List Char} (option : IsOption optionNames element)
    (suffix : List Char) : Beside (element ++ suffix) := by
  obtain ⟨name, listed, rest, rfl⟩ := option
  rw [List.append_assoc]
  cases listed with
  | head => exact beside_dashes (by decide) _
  | tail _ listed =>
      cases listed with
      | head => exact beside_dashes (by decide) _
      | tail _ listed =>
          cases listed with
          | head => exact beside_dashes (by decide) _
          | tail _ listed =>
              cases listed with
              | head => exact beside_dashes (by decide) _
              | tail _ listed =>
                  rw [List.mem_singleton.mp listed]
                  exact beside_dashes (by decide) _

theorem beside_typeOption {upgradeType : UpgradeType} :
    ∀ arg ∈ typeOption upgradeType, Beside arg := by
  intro arg member
  cases upgradeType with
  | sd => exact List.mem_singleton.mp member ▸ beside_dashes (by decide) _
  | sdIntral => exact List.mem_singleton.mp member ▸ beside_dashes (by decide) _
  | otaIntral => exact List.mem_singleton.mp member ▸ beside_dashes (by decide) _
  | subpkgUpdate => exact List.mem_singleton.mp member ▸ beside_dashes (by decide) _
  | ota => exact absurd member List.not_mem_nil
  | other => exact absurd member List.not_mem_nil

theorem optionValues_given {arg : List Char} {given : List Char × List Char}
    (read : longOption arg = some given) (option : List Char) (args : List (List Char)) :
    optionValues option (arg :: args) =
      (if given.1 = option then [given.2] else []) ++ optionValues option args := by
  rw [optionValues, List.filterMap_cons, read, Option.bind_some]
  by_cases same : given.1 = option
  · rw [if_pos same, if_pos same]
    rfl
  · rw [if_neg same, if_neg same]
    rfl

theorem optionValues_beside {option arg : List Char} (listed : option ∈ progressOptions)
    (beside : Beside arg) (args : List (List Char)) :
    optionValues option (arg :: args) = optionValues option args := by
  cases read : longOption arg with
  | none =>
      rw [optionValues, List.filterMap_cons, read]
      rfl
  | some given =>
      have other : given.1 ≠ option := fun same => beside given read (same ▸ listed)
      rw [optionValues_given read, if_neg other, List.nil_append]

theorem optionValues_all_beside {option : List Char} (listed : option ∈ progressOptions)
    {args : List (List Char)} (beside : ∀ arg ∈ args, Beside arg) :
    optionValues option args = [] := by
  induction args with
  | nil => rfl
  | cons arg args ih =>
      rw [optionValues_beside listed (beside arg List.mem_cons_self)]
      exact ih fun other member => beside other (List.mem_cons_of_mem _ member)

theorem longOption_package (element : List Char) :
    longOption ("--update_package=".toList ++ element) = some (updatePackageOption, element) := rfl

/-- Of the elements, those that are packages are read as packages, and none as progress. -/
theorem optionValues_elements {inodes : Nat → Inodes} {option : List Char}
    (listed : option ∈ progressOptions) (i : Nat) (elements : List (List Char)) :
    optionValues option (eachAt (fun i => requestedArg (inodes i)) i elements) =
      if updatePackageOption = option then
        elements.filter fun element => ¬ IsOption optionNames element
      else [] := by
  induction elements generalizing i with
  | nil => exact (ite_self _).symm
  | cons element elements ih =>
      rw [eachAt, requestedArg]
      by_cases named : IsOption optionNames element
      · rw [if_pos named, optionValues_beside listed (beside_option named _), ih,
          List.filter_cons_of_neg (by simpa using named)]
      · rw [if_neg named, optionValues_given (longOption_package element), ih,
          List.filter_cons_of_pos (by simpa using named)]
        by_cases same : updatePackageOption = option
        · rw [if_pos same, if_pos same, if_pos same]
          rfl
        · rw [if_neg same, if_neg same, if_neg same]
          rfl

section

variable {inodes : Nat → Inodes} {upgradeType : UpgradeType} {request : Request}

theorem optionValues_requestedArgs {option : List Char} (listed : option ∈ progressOptions) :
    optionValues option (requestedArgs inodes upgradeType request ++ [[]]) =
      if updatePackageOption = option then packagesOf request else [] := by
  have type := optionValues_all_beside listed (@beside_typeOption upgradeType)
  have last : optionValues option [[]] = [] := rfl
  rw [requestedArgs, optionValues_append, optionValues_append, type, last,
    optionValues_elements listed, List.nil_append, List.append_nil, packagesOf]

/-- What the updater takes from a request. -/
theorem startUpdater_requestedArgs :
    startUpdater (requestedArgs inodes upgradeType request ++ [[]]) =
      { updatePackage := packagesOf request } := by
  have retry : updatePackageOption ≠ retryCountOption := by decide
  have num : updatePackageOption ≠ upgradedPkgNumOption := by decide
  rw [startUpdater_eq, optionValues_requestedArgs List.mem_cons_self,
    optionValues_requestedArgs (List.mem_cons_of_mem _ List.mem_cons_self),
    optionValues_requestedArgs (List.mem_cons_of_mem _ (List.mem_cons_of_mem _ List.mem_cons_self)),
    if_pos rfl, if_neg retry, if_neg num]
  rfl

variable (inodes upgradeType request)

/-- A request whose text leaves room for the two options of the progress and names them nowhere. The
packages of an SD card are not installed by `InstallUpdaterPackages`. -/
structure Orderly : Prop where
  type : upgradeType ≠ .sd ∧ upgradeType ≠ .sdIntral
  plain : ∀ element ∈ request.packageName, PlainElement element
  some_ : request.packageName ≠ []
  room : (lines (requestedArgs inodes upgradeType request)).length + 39 < maxUpdateSize
  apart : ∀ arg ∈ requestedArgs inodes upgradeType request,
    find retryCountOption arg = none ∧ find upgradedPkgNumOption arg = none

variable {inodes upgradeType request} (orderly : Orderly inodes upgradeType request)
include orderly

theorem Orderly.written :
    fieldArgs inodes upgradeType request = requestedArgs inodes upgradeType request :=
  (fieldArgs_eq_iff inodes upgradeType request).mpr orderly.plain

/-- What is sent is read as it was meant. -/
theorem Orderly.read {readable : List Char → Bool} {rebootFunc : Option Int} {msg : UpdateMessage}
    (sent : (rebootAndInstallUpgradePackage readable inodes rebootFunc request.packageName
      upgradeType).misc = some msg) (commandFile : Option UpdateMessage) :
    parseParams commandFile msg = requestedArgs inodes upgradeType request ++ [[]] := by
  have accepted : Accepted readable inodes upgradeType request := by
    by_contra refused
    obtain ⟨code, -, made⟩ := request_refused rebootFunc refused
    rw [made] at sent
    exact absurd sent.symm (Option.some_ne_none msg)
  have text : fieldArgs inodes upgradeType request ≠ [] := fun empty =>
    orderly.some_ (fieldArgs_eq_nil.mp empty).2
  rw [request_sent rebootFunc accepted] at sent
  rw [← Option.some.inj sent, parseParams_fieldArgs commandFile accepted text, orderly.written]

variable {device : Device} (args : device.args = requestedArgs inodes upgradeType request ++ [[]])
include args

theorem Orderly.roomy : Roomy device where
  room := by
    rw [args, length_lines_concat]
    exact orderly.room
  retry arg member := by
    cases List.mem_append.mp (args ▸ member) with
    | inl listed => exact (orderly.apart arg listed).1
    | inr last => exact List.mem_singleton.mp last ▸ rfl
  num arg member := by
    cases List.mem_append.mp (args ▸ member) with
    | inl listed => exact (orderly.apart arg listed).2
    | inr last => exact List.mem_singleton.mp last ▸ rfl

end

section

variable (contents : List Char → List Bytes)

/-- When a package is entered for the first time, the record does not claim a partition of it. -/
def Fresh (move : Move) (device : Device) : Prop :=
  match move, device.running with
  | .advance, some run =>
      run.phase = .entering →
        FitSlots ((run.package.map contents).getD []) ∧
          (.entered run.params.pkgLocation ∉ device.history →
            Unclaimed ((run.package.map contents).getD []) device.record)
  | _, _ => True

theorem fresh_iff {move : Move} {device : Device} :
    (move = .advance → ∀ run ∈ device.running, run.phase = .entering →
      FitSlots ((run.package.map contents).getD []) ∧
        (.entered run.params.pkgLocation ∉ device.history →
          Unclaimed ((run.package.map contents).getD []) device.record)) ↔
      Fresh contents move device := by
  rw [Fresh.eq_def]
  cases move with
  | advance =>
      cases device.running with
      | none => exact iff_of_true (fun _ _ listed => by cases listed) trivial
      | some run =>
          constructor
          · exact fun all => all rfl run rfl
          · intro fresh _ other listed
            obtain rfl := Option.some.inj listed
            exact fresh
  | _ => exact iff_of_true (fun other => by cases other) trivial

instance (move : Move) (device : Device) : Decidable (Fresh contents move device) :=
  decidable_of_iff _ (fresh_iff contents)

variable {contents} {packages : List (List Char)} {device : Device} {left : Prop} {count : Nat}

/-- A message with room for the options keeps its other arguments when it is changed. -/
theorem Retries.spared (retries : Retries packages left count device)
    (few : packages.length < 10 ^ 3) {move : Move} (fresh : Fresh contents move device) :
    Spared contents move device := by
  rw [Spared.eq_def]
  rw [Fresh.eq_def] at fresh
  cases running : device.running with
  | none =>
      cases move with
      | start => trivial
      | advance => trivial
      | fault => trivial
      | stop => trivial
  | some run =>
      rw [running] at fresh
      cases retries with
      | ended off => exact absurd (off.symm.trans running).symm (Option.some_ne_none run)
      | asking location retryCount asks counted attempts =>
          have attempt := attempts run running
          obtain ⟨tried, most, -, same, unsigned⟩ := attempt.tried
          have within : maxRetryCount = 3 := rfl
          cases move with
          | start => trivial
          | stop => trivial
          | fault =>
              have small : (tried + 1) % 2 ^ 32 = tried + 1 := Nat.mod_eq_of_lt (by omega)
              dsimp only
              rw [unsigned, small]
              exact asks.leaves.keepsRetry (by omega)
          | advance =>
              dsimp only at fresh ⊢
              cases phase : run.phase with
              | entering => exact fresh phase
              | marking =>
                  dsimp only
                  rw [attempt.marking phase]
                  exact @Leaves.keepsRetry _ asks.leaves 1 (by decide)
              | installed =>
                  have inside := attempt.inside (by simp [phase])
                  obtain ⟨_, -, -, params⟩ := attempt.params
                  have located : run.params.pkgLocation = location := by rw [params]
                  dsimp only
                  rw [located]
                  exact asks.leaves.keepsNum (by omega)
              | installing todo => trivial
              | recording partition todo => trivial
              | moving todo => trivial

end

/-- The device when it was asked to reboot. -/
def Device.asked (commandFile : Option UpdateMessage) (misc : UpdateMessage) (record : MiscRegion) :
    Device where
  commandFile
  misc
  record
  running := none
  history := []

/-- A request for the two packages, and for what the screen is to show. -/
def twoRequest : Request where
  packageName := ["/a.zip".toList, "--screen_state=1".toList, "/b.zip".toList]
  whole := by decide

def noInodes (_ : Nat) : Inodes := ⟨none, none⟩

theorem twoRequest_orderly : Orderly noInodes .ota twoRequest where
  type := by decide
  plain element member := by
    have each : ∀ element ∈ twoRequest.packageName, nul ∉ element ∧
        (Mentions optionNames element → IsOption optionNames element) ∧
        (Mentions shrinkNames element → IsOption shrinkNames element) := by
      unfold Mentions
      decide +kernel
    obtain ⟨ended, option, shrink⟩ := each element member
    exact ⟨ended, option, shrink⟩
  some_ := List.cons_ne_nil _ _
  room := by decide +kernel
  apart := by decide +kernel

def twoMessage : UpdateMessage :=
  bootMessage (lines (fieldArgs noInodes .ota twoRequest))

theorem twoRequest_sent :
    (rebootAndInstallUpgradePackage (fun _ => true) noInodes none twoRequest.packageName
      .ota).misc = some twoMessage := rfl

end Updater.UpdaterMain
