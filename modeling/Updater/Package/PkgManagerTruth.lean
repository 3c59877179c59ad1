import Updater.Package.PkgManagerLoad

/-! Whether a load that succeeds has loaded all, over every nesting and every failure. -/

set_option autoImplicit false

namespace Updater.Package

open Updater.Base

/-- Nothing fails in the load of a file. -/
def Outcome.Opens (outcome : Outcome) : Prop :=
  outcome.create = pkgSuccess ∧ outcome.created = true ∧ outcome.load = pkgSuccess

/-- Nothing fails in the load of a package in another one. -/
def Outcome.Succeeds (outcome : Outcome) : Prop :=
  outcome.Opens ∧ outcome.extract = pkgSuccess

/-- The package that it opens. -/
def Outcome.file (outcome : Outcome) : PkgFile where
  path := outcome.path
  entries := outcome.entries

/-- The manager with more open packages, behind so many loads. -/
def PkgManager.opening (manager : PkgManager) (files : List PkgFile) : PkgManager :=
  { manager with
    pkgFiles := manager.pkgFiles ++ files
    loads := manager.loads + files.length }

theorem PkgManager.opening_append {manager : PkgManager} {files more : List PkgFile} :
    (manager.opening files).opening more = manager.opening (files ++ more) := by
  simp [PkgManager.opening, Nat.add_assoc]

theorem getFileInfo_iff {manager : PkgManager} {name : Bytes} :
    manager.getFileInfo name = true ↔ ∃ file ∈ manager.pkgFiles, name ∈ file.entries := by
  simp [PkgManager.getFileInfo]

/-- A package that is opened hides no entry. -/
theorem getFileInfo_opening {manager : PkgManager} {files : List PkgFile} {name : Bytes}
    (found : manager.getFileInfo name = true) :
    (manager.opening files).getFileInfo name = true := by
  obtain ⟨file, listed, entry⟩ := getFileInfo_iff.mp found
  exact getFileInfo_iff.mpr ⟨file, List.mem_append_left _ listed, entry⟩

theorem getFileInfo_of_opened {manager : PkgManager} {files : List PkgFile} {file : PkgFile}
    {name : Bytes} (opened : file ∈ files) (entry : name ∈ file.entries) :
    (manager.opening files).getFileInfo name = true :=
  getFileInfo_iff.mpr ⟨file, List.mem_append_right _ opened, entry⟩

section Streams

variable {outcome : Outcome} {fileIds : List Bytes} {manager : PkgManager}

theorem loadPackageWithStream_opens (opens : outcome.Opens) :
    loadPackageWithStream outcome fileIds manager =
      (pkgSuccess, fileIds ++ outcome.entries,
        { manager with pkgFiles := manager.pkgFiles ++ [outcome.file] }) := by
  obtain ⟨_, created, loaded⟩ := opens
  rw [loadPackageWithStream, created, if_neg (fun same => by cases same),
    if_neg (fun failed => failed loaded)]
  rfl

theorem loadPackageWithStream_fails (fileIds : List Bytes) (manager : PkgManager)
    (fails : ¬ (outcome.created = true ∧ outcome.load = pkgSuccess)) :
    (loadPackageWithStream outcome fileIds manager).1 ≠ pkgSuccess ∧
      (loadPackageWithStream outcome fileIds manager).2.2 = manager := by
  rw [loadPackageWithStream]
  split
  · exact ⟨(by decide : pkgInvalidParam ≠ pkgSuccess), rfl⟩
  case isFalse created =>
    split
    case isTrue failed => exact ⟨failed, rfl⟩
    case isFalse loaded =>
      exact (fails ⟨Bool.eq_true_of_not_eq_false created, not_not.mp loaded⟩).elim

end Streams

section Loads

variable {outcomes : Nat → Outcome} {fileIds : List Bytes} {manager : PkgManager} {name : Bytes}

theorem loadPackageOfType_opens (opens : (outcomes manager.loads).Opens) :
    loadPackageOfType outcomes fileIds manager =
      (pkgSuccess, fileIds ++ (outcomes manager.loads).entries,
        manager.opening [(outcomes manager.loads).file]) := by
  rw [loadPackageOfType]
  rw [if_neg (fun failed => failed opens.1), loadPackageWithStream_opens opens]
  rfl

theorem loadPackageOfType_fails (fileIds : List Bytes)
    (fails : ¬ (outcomes manager.loads).Opens) :
    (loadPackageOfType outcomes fileIds manager).1 ≠ pkgSuccess ∧
      (loadPackageOfType outcomes fileIds manager).2.2.innerFailed = manager.innerFailed := by
  rw [loadPackageOfType]
  split
  case isTrue failed => exact ⟨failed, rfl⟩
  case isFalse create =>
    have fails : ¬ ((outcomes manager.loads).created = true ∧
        (outcomes manager.loads).load = pkgSuccess) :=
      fun loaded => fails ⟨not_not.mp create, loaded⟩
    obtain ⟨code, same⟩ := loadPackageWithStream_fails fileIds
      { manager with loads := manager.loads + 1 } fails
    have unfailed := congrArg PkgManager.innerFailed same
    exact ⟨code, unfailed⟩

theorem extraAndLoadPackage_succeeds (found : manager.getFileInfo name = true)
    (succeeds : (outcomes manager.loads).Succeeds) :
    extraAndLoadPackage outcomes name fileIds manager =
      (pkgSuccess, fileIds ++ (outcomes manager.loads).entries,
        manager.opening [(outcomes manager.loads).file]) := by
  rw [extraAndLoadPackage, found, if_neg (fun same => by cases same)]
  dsimp only
  rw [if_neg (fun failed => failed succeeds.1.1), if_neg (fun failed => failed succeeds.2),
    loadPackageWithStream_opens succeeds.1]
  dsimp only
  rw [if_neg (fun failed => failed rfl)]
  rfl

theorem extraAndLoadPackage_fails (name : Bytes) (fileIds : List Bytes)
    (fails : ¬ (outcomes manager.loads).Succeeds) :
    (extraAndLoadPackage outcomes name fileIds manager).1 ≠ pkgSuccess ∧
      (extraAndLoadPackage outcomes name fileIds manager).2.2.innerFailed = true := by
  rw [extraAndLoadPackage]
  split
  case isTrue => exact ⟨(by decide : pkgInvalidFile ≠ pkgSuccess), rfl⟩
  case isFalse =>
    dsimp only
    split
    case isTrue failed => exact ⟨failed, rfl⟩
    case isFalse create =>
      split
      case isTrue failed => exact ⟨failed, rfl⟩
      case isFalse extract =>
        have fails : ¬ ((outcomes manager.loads).created = true ∧
            (outcomes manager.loads).load = pkgSuccess) :=
          fun loaded => fails ⟨⟨not_not.mp create, loaded⟩, not_not.mp extract⟩
        have code := (loadPackageWithStream_fails fileIds
          { manager with loads := manager.loads + 1 } fails).1
        rw [if_pos code]
        exact ⟨code, rfl⟩

end Loads

section Inner

variable (outcomes : Nat → Outcome)

/-- The next loads of packages in another one succeed, so many of them. -/
def SucceedFrom : Nat → Nat → Prop
  | _, 0 => True
  | load, count + 1 => (outcomes load).Succeeds ∧ SucceedFrom (load + 1) count

/-- The packages that so many loads open. -/
def openedFrom : Nat → Nat → List PkgFile
  | _, 0 => []
  | load, count + 1 => (outcomes load).file :: openedFrom (load + 1) count

variable {outcomes} {listed : Bytes → Bool}

/-- Where the packages among the entries load, the loop opens them all and lists no name that is
not found. -/
theorem loadInner_succeeds {names : List Bytes} : ∀ (fileIds : List Bytes) (manager : PkgManager),
    (∀ name ∈ names, manager.getFileInfo name = true) →
    SucceedFrom outcomes manager.loads (names.countP fun name => !listed name) →
    ∃ added : List Bytes,
      loadInner outcomes listed names fileIds manager = (pkgSuccess, fileIds ++ added,
        manager.opening
          (openedFrom outcomes manager.loads (names.countP fun name => !listed name))) ∧
      ∀ name ∈ added, (manager.opening (openedFrom outcomes manager.loads
        (names.countP fun name => !listed name))).getFileInfo name = true := by
  induction names with
  | nil =>
      intro fileIds manager _ _
      refine ⟨[], ?_, fun name member => nomatch member⟩
      simp [loadInner, openedFrom, PkgManager.opening]
  | cons name names hypothesis =>
      intro fileIds manager found succeeds
      have nameFound := found name (List.mem_cons_self ..)
      cases kind : listed name with
      | true =>
          rw [List.countP_cons_of_neg (by simp [kind])] at succeeds ⊢
          obtain ⟨added, loaded, all⟩ := hypothesis (fileIds ++ [name]) manager
            (fun other member => found other (List.mem_cons_of_mem _ member)) succeeds
          refine ⟨name :: added, ?_, ?_⟩
          · rw [loadInner, if_pos kind, loaded, List.append_assoc]
            rfl
          · intro other member
            cases member with
            | head => exact getFileInfo_opening nameFound
            | tail _ member => exact all other member
      | false =>
          rw [List.countP_cons_of_pos (by simp [kind])] at succeeds ⊢
          obtain ⟨first, rest⟩ := succeeds
          obtain ⟨added, loaded, all⟩ := hypothesis
            (fileIds ++ (outcomes manager.loads).entries)
            (manager.opening [(outcomes manager.loads).file])
            (fun other member => getFileInfo_opening (found other (List.mem_cons_of_mem _ member)))
            rest
          rw [PkgManager.opening_append] at loaded all
          refine ⟨(outcomes manager.loads).entries ++ added, ?_, ?_⟩
          · rw [loadInner, if_neg (by simp [kind]), extraAndLoadPackage_succeeds nameFound first]
            dsimp only
            rw [if_neg (fun failed => failed rfl), loaded, List.append_assoc]
            rfl
          · intro other member
            cases List.mem_append.mp member with
            | inl entry => exact getFileInfo_of_opened (List.mem_cons_self ..) entry
            | inr member => exact all other member

/-- Where one of them does not, the loop fails and says so. -/
theorem loadInner_fails {names : List Bytes} : ∀ (fileIds : List Bytes) (manager : PkgManager),
    (∀ name ∈ names, manager.getFileInfo name = true) →
    ¬ SucceedFrom outcomes manager.loads (names.countP fun name => !listed name) →
    (loadInner outcomes listed names fileIds manager).1 ≠ pkgSuccess ∧
      (loadInner outcomes listed names fileIds manager).2.2.innerFailed = true := by
  induction names with
  | nil => exact fun _ _ _ fails => (fails trivial).elim
  | cons name names hypothesis =>
      intro fileIds manager found fails
      have nameFound := found name (List.mem_cons_self ..)
      cases kind : listed name with
      | true =>
          rw [List.countP_cons_of_neg (by simp [kind])] at fails
          rw [loadInner, if_pos kind]
          exact hypothesis _ _ (fun other member => found other (List.mem_cons_of_mem _ member))
            fails
      | false =>
          rw [List.countP_cons_of_pos (by simp [kind])] at fails
          rw [loadInner, if_neg (by simp [kind])]
          by_cases first : (outcomes manager.loads).Succeeds
          case pos =>
            rw [extraAndLoadPackage_succeeds nameFound first]
            dsimp only
            rw [if_neg (fun failed => failed rfl)]
            exact hypothesis _ _
              (fun other member => getFileInfo_opening (found other (List.mem_cons_of_mem _ member)))
              (fun rest => fails ⟨first, rest⟩)
          case neg =>
            obtain ⟨code, failed⟩ :=
              extraAndLoadPackage_fails name fileIds first
            dsimp only
            rw [if_pos code]
            exact ⟨code, failed⟩

end Inner

section Archives

variable (outcomes : Nat → Outcome)

/-- The inner archive loads, and every package in it. -/
def InnerLoads (load : Nat) : Prop :=
  (outcomes load).Succeeds ∧ SucceedFrom outcomes (load + 1)
    ((outcomes load).entries.countP fun name => !listedInZip name)

/-- The packages that are open then. -/
def innerOpened (load : Nat) : List PkgFile :=
  (outcomes load).file :: openedFrom outcomes (load + 1)
    ((outcomes load).entries.countP fun name => !listedInZip name)

/-- The names in the places that the removal leaves behind, but for the one removed. -/
def movedNames (names : List Bytes) : List Bytes :=
  (names.drop (names.filter (· ≠ updateZip)).length).filter (· ≠ updateZip)

variable {outcomes} {movedFrom : Bytes → Bytes} {fileIds : List Bytes} {manager : PkgManager}

/-- What the removal leaves is found where what the moved strings are left as is. -/
theorem removeName_found (found : ∀ name ∈ fileIds, manager.getFileInfo name = true)
    (archive : updateZip ∈ fileIds) :
    (∀ name ∈ removeName movedFrom updateZip fileIds, manager.getFileInfo name = true) ↔
      ∀ name ∈ movedNames fileIds, manager.getFileInfo (movedFrom name) = true := by
  constructor
  case mp =>
    intro all name moved
    obtain ⟨behind, other⟩ := List.mem_filter.mp moved
    refine all _ (List.mem_append_right _ (List.mem_map.mpr ⟨name, behind, ?_⟩))
    rw [if_neg (of_decide_eq_true other)]
  case mpr =>
    intro all name left
    cases List.mem_append.mp left with
    | inl other => exact found name (List.mem_filter.mp other).1
    | inr behind =>
        obtain ⟨name, place, rfl⟩ := List.mem_map.mp behind
        split
        case isTrue same => exact same ▸ found updateZip archive
        case isFalse other => exact all name (List.mem_filter.mpr ⟨place, decide_eq_true other⟩)

theorem loadPackageInnerZip_without (outcomes : Nat → Outcome) (movedFrom : Bytes → Bytes)
    (manager : PkgManager) {packagePath : Bytes}
    (none : ¬ (getPkgTypeByName packagePath = .upgrade ∧ updateZip ∈ fileIds)) :
    loadPackageInnerZip outcomes movedFrom packagePath fileIds manager =
      (pkgSuccess, fileIds, manager) := by
  rw [loadPackageInnerZip]
  split
  · rfl
  case isFalse upgrade =>
    split
    · rfl
    case isFalse archive => exact (none ⟨not_not.mp upgrade, not_not.mp archive⟩).elim

variable {packagePath : Bytes} (upgrade : getPkgTypeByName packagePath = .upgrade)
  (archive : updateZip ∈ fileIds) (found : ∀ name ∈ fileIds, manager.getFileInfo name = true)

include upgrade archive found

theorem loadPackageInnerZip_loads (movedFrom : Bytes → Bytes)
    (loads : InnerLoads outcomes manager.loads) :
    loadPackageInnerZip outcomes movedFrom packagePath fileIds manager =
      (pkgSuccess, removeName movedFrom updateZip fileIds,
        manager.opening (innerOpened outcomes manager.loads)) := by
  obtain ⟨first, rest⟩ := loads
  have entries : ∀ name ∈ (outcomes manager.loads).entries,
      (manager.opening [(outcomes manager.loads).file]).getFileInfo name = true :=
    fun name entry => getFileInfo_of_opened (List.mem_cons_self ..) entry
  obtain ⟨added, loaded, _⟩ := loadInner_succeeds [] _ entries rest
  rw [loadPackageInnerZip, if_neg (fun other => other upgrade),
    if_neg (fun other => other archive),
    extraAndLoadPackage_succeeds (found updateZip archive) first]
  dsimp only
  rw [if_neg (fun failed => failed rfl), List.nil_append, loaded, PkgManager.opening_append]
  rfl

theorem loadPackageInnerZip_fails (movedFrom : Bytes → Bytes)
    (fails : ¬ InnerLoads outcomes manager.loads) :
    (loadPackageInnerZip outcomes movedFrom packagePath fileIds manager).1 ≠ pkgSuccess ∧
      (loadPackageInnerZip outcomes movedFrom packagePath fileIds manager).2.2.innerFailed =
        true := by
  rw [loadPackageInnerZip, if_neg (fun other => other upgrade),
    if_neg (fun other => other archive)]
  by_cases first : (outcomes manager.loads).Succeeds
  case pos =>
    have entries : ∀ name ∈ (outcomes manager.loads).entries,
        (manager.opening [(outcomes manager.loads).file]).getFileInfo name = true :=
      fun name entry => getFileInfo_of_opened (List.mem_cons_self ..) entry
    rw [extraAndLoadPackage_succeeds (found updateZip archive) first]
    dsimp only
    rw [if_neg (fun failed => failed rfl), List.nil_append]
    exact loadInner_fails _ _ entries (fun rest => fails ⟨first, rest⟩)
  case neg =>
    obtain ⟨code, failed⟩ :=
      extraAndLoadPackage_fails updateZip [] first
    dsimp only
    rw [if_pos code]
    exact ⟨code, failed⟩

end Archives

/-- A caller: the names that it has are found, and nothing failed before. -/
structure Caller where
  manager : PkgManager
  fileIds : List Bytes
  found : ∀ name ∈ fileIds, manager.getFileInfo name = true
  unfailed : manager.innerFailed = false

/-- A success has loaded every package and left only names that are found; a load in another one
that failed is told, and leaves no package open. -/
def Truthful (loaded : Loaded) : Prop :=
  (loaded.1 = pkgSuccess → (∀ name ∈ loaded.2.1, loaded.2.2.getFileInfo name = true) ∧
    loaded.2.2.innerFailed = false) ∧
  (loaded.2.2.innerFailed = true → loaded.1 ≠ pkgSuccess ∧ loaded.2.2.pkgFiles = [])

theorem truthful_cleared {ret : Int} {fileIds : List Bytes} {manager : PkgManager}
    (failed : ret ≠ pkgSuccess) : Truthful (ret, fileIds, manager.clearPkgFile) :=
  ⟨fun same => (failed same).elim, fun _ => ⟨failed, rfl⟩⟩

theorem truthful_unfailed {ret : Int} {fileIds : List Bytes} {manager : PkgManager}
    (unfailed : manager.innerFailed = false) :
    Truthful (ret, fileIds, manager) ↔
      (ret = pkgSuccess → ∀ name ∈ fileIds, manager.getFileInfo name = true) := by
  constructor
  case mp => exact fun truthful success => (truthful.1 success).1
  case mpr =>
    intro all
    refine ⟨fun success => ⟨all success, unfailed⟩, fun failed => ?_⟩
    exact (Bool.false_ne_true (unfailed.symm.trans failed)).elim

section Truth

variable (outcomes : Nat → Outcome) (movedFrom : Bytes → Bytes) (caller : Caller)

/-- The names before the inner archive is loaded. -/
def outerNames : List Bytes :=
  caller.fileIds ++ (outcomes caller.manager.loads).entries

/-- The manager then. -/
def outerManager : PkgManager :=
  caller.manager.opening [(outcomes caller.manager.loads).file]

/-- Every name that the removal leaves behind is found in the end. -/
def KeepsNames : Prop :=
  ∀ name ∈ movedNames (outerNames outcomes caller),
    ((outerManager outcomes caller).opening
      (innerOpened outcomes (caller.manager.loads + 1))).getFileInfo (movedFrom name) = true

variable {outcomes movedFrom caller} {packagePath : Bytes}

theorem outerNames_found : ∀ name ∈ outerNames outcomes caller,
    (outerManager outcomes caller).getFileInfo name = true := by
  intro name member
  cases List.mem_append.mp member with
  | inl own => exact getFileInfo_opening (caller.found name own)
  | inr entry => exact getFileInfo_of_opened (List.mem_cons_self ..) entry

/-- The names that are left are found where none was lost. -/
theorem keepsNames_iff (archive : updateZip ∈ outerNames outcomes caller) :
    Truthful (pkgSuccess, removeName movedFrom updateZip (outerNames outcomes caller),
      (outerManager outcomes caller).opening (innerOpened outcomes (caller.manager.loads + 1))) ↔
      KeepsNames outcomes movedFrom caller := by
  have unfailed : ((outerManager outcomes caller).opening
      (innerOpened outcomes (caller.manager.loads + 1))).innerFailed = false := caller.unfailed
  have found : ∀ name ∈ outerNames outcomes caller, ((outerManager outcomes caller).opening
      (innerOpened outcomes (caller.manager.loads + 1))).getFileInfo name = true :=
    fun name member => getFileInfo_opening (outerNames_found name member)
  rw [truthful_unfailed unfailed, removeName_found found archive]
  exact ⟨fun all => all rfl, fun all _ => all⟩

/-- Without the unpacking: the failure of the inner archive is lost with the result of the outer
package. -/
theorem loadPackageWithoutUnPack_truthful :
    Truthful (loadPackageWithoutUnPack outcomes movedFrom packagePath caller.fileIds
        caller.manager) ↔
      (getPkgTypeByName packagePath = .upgrade → (outcomes caller.manager.loads).Opens →
        updateZip ∈ outerNames outcomes caller →
        InnerLoads outcomes (caller.manager.loads + 1) ∧
          KeepsNames outcomes movedFrom caller) := by
  rw [loadPackageWithoutUnPack]
  by_cases opens : (outcomes caller.manager.loads).Opens
  case neg =>
    refine iff_of_true ?_ (fun _ opened => (opens opened).elim)
    have code := (loadPackageOfType_fails caller.fileIds opens).1
    dsimp only
    rw [if_pos code]
    exact truthful_cleared code
  case pos =>
    rw [loadPackageOfType_opens opens]
    dsimp only
    rw [if_neg (fun failed => failed rfl)]
    by_cases inner : getPkgTypeByName packagePath = .upgrade ∧
        updateZip ∈ outerNames outcomes caller
    case neg =>
      refine iff_of_true ?_ (fun upgrade _ archive => (inner ⟨upgrade, archive⟩).elim)
      have same := loadPackageInnerZip_without outcomes movedFrom
        (outerManager outcomes caller) inner
      rw [outerNames, outerManager] at same
      rw [same]
      dsimp only
      rw [if_neg (fun failed => failed rfl)]
      refine (truthful_unfailed ?_).mpr (fun _ => outerNames_found)
      exact caller.unfailed
    case pos =>
      obtain ⟨upgrade, archive⟩ := inner
      by_cases loads : InnerLoads outcomes (caller.manager.loads + 1)
      case pos =>
        have same := loadPackageInnerZip_loads upgrade archive
          outerNames_found movedFrom loads
        rw [outerNames, outerManager] at same
        rw [same]
        dsimp only
        rw [if_neg (fun failed => failed rfl)]
        refine (keepsNames_iff archive).trans ?_
        exact ⟨fun keeps _ _ _ => ⟨loads, keeps⟩, fun all => (all upgrade opens archive).2⟩
      case neg =>
        refine iff_of_false ?_ (fun all => loads (all upgrade opens archive).1)
        obtain ⟨code, failed⟩ := loadPackageInnerZip_fails upgrade archive
          outerNames_found movedFrom loads
        rw [outerNames, outerManager] at code failed
        rw [if_pos code]
        intro truthful
        exact (truthful.2 failed).1 rfl

/-- With the unpacking a failure is told, and what may be lost is a name. -/
theorem loadUpgradePackage_truthful (upgrade : getPkgTypeByName packagePath = .upgrade) :
    Truthful (loadUpgradePackage outcomes movedFrom packagePath caller.fileIds caller.manager) ↔
      ((outcomes caller.manager.loads).Opens → updateZip ∈ outerNames outcomes caller →
        InnerLoads outcomes (caller.manager.loads + 1) → KeepsNames outcomes movedFrom caller) := by
  rw [loadUpgradePackage]
  by_cases opens : (outcomes caller.manager.loads).Opens
  case neg =>
    refine iff_of_true ?_ (fun opened => (opens opened).elim)
    have code := (loadPackageOfType_fails caller.fileIds opens).1
    dsimp only
    rw [if_pos code]
    exact truthful_cleared code
  case pos =>
    rw [loadPackageOfType_opens opens]
    dsimp only
    rw [if_neg (fun failed => failed rfl)]
    by_cases archive : updateZip ∈ outerNames outcomes caller
    case neg =>
      refine iff_of_true ?_ (fun _ member => (archive member).elim)
      have same := loadPackageInnerZip_without outcomes movedFrom
        (outerManager outcomes caller)
        (fun inner : getPkgTypeByName packagePath = .upgrade ∧
          updateZip ∈ outerNames outcomes caller => archive inner.2)
      rw [outerNames, outerManager] at same
      rw [same]
      dsimp only
      rw [if_neg (fun failed => failed rfl)]
      refine (truthful_unfailed ?_).mpr (fun _ => outerNames_found)
      exact caller.unfailed
    case pos =>
      by_cases loads : InnerLoads outcomes (caller.manager.loads + 1)
      case pos =>
        have same := loadPackageInnerZip_loads upgrade archive
          outerNames_found movedFrom loads
        rw [outerNames, outerManager] at same
        rw [same]
        dsimp only
        rw [if_neg (fun failed => failed rfl)]
        refine (keepsNames_iff archive).trans ?_
        exact ⟨fun keeps _ _ _ => keeps, fun all => all opens archive loads⟩
      case neg =>
        refine iff_of_true ?_ (fun _ _ loaded => (loads loaded).elim)
        have code := (loadPackageInnerZip_fails upgrade archive
          outerNames_found movedFrom loads).1
        rw [outerNames, outerManager] at code
        rw [if_pos code]
        exact truthful_cleared (by decide : pkgInvalidPkgFormat ≠ pkgSuccess)

/-- The other packages: what is in them loads, or nothing stays open. -/
theorem loadInner_truthful {listed : Bytes → Bool} {names fileIds : List Bytes}
    {manager : PkgManager} (unfailed : manager.innerFailed = false)
    (names_found : ∀ name ∈ names, manager.getFileInfo name = true)
    (ids_found : ∀ name ∈ fileIds, manager.getFileInfo name = true) :
    Truthful (if (loadInner outcomes listed names fileIds manager).1 ≠ pkgSuccess then
        ((loadInner outcomes listed names fileIds manager).1,
          (loadInner outcomes listed names fileIds manager).2.1,
          (loadInner outcomes listed names fileIds manager).2.2.clearPkgFile)
      else (pkgSuccess, (loadInner outcomes listed names fileIds manager).2.1,
        (loadInner outcomes listed names fileIds manager).2.2)) := by
  by_cases succeeds : SucceedFrom outcomes manager.loads (names.countP fun name => !listed name)
  case pos =>
    obtain ⟨added, loaded, all⟩ := loadInner_succeeds fileIds manager names_found
      succeeds
    rw [loaded, if_neg (fun failed => failed rfl)]
    refine (truthful_unfailed ?_).mpr (fun _ name member => ?_)
    · exact unfailed
    · cases List.mem_append.mp member with
      | inl own => exact getFileInfo_opening (ids_found name own)
      | inr new => exact all name new
  case neg =>
    have code := (loadInner_fails fileIds manager names_found succeeds).1
    rw [if_pos code]
    exact truthful_cleared code

theorem loadPackage_truthful {accessible keyValid : Bool} :
    Truthful (loadPackage outcomes movedFrom accessible keyValid packagePath caller.fileIds
        caller.manager) ↔
      (accessible = true → keyValid = true → caller.manager.getPkgFile packagePath = false →
        getPkgTypeByName packagePath = .upgrade → (outcomes caller.manager.loads).Opens →
        updateZip ∈ outerNames outcomes caller →
        InnerLoads outcomes (caller.manager.loads + 1) → KeepsNames outcomes movedFrom caller) := by
  have same : ∀ ret : Int, Truthful (ret, caller.fileIds, caller.manager) :=
    fun _ => (truthful_unfailed caller.unfailed).mpr (fun _ => caller.found)
  rw [loadPackage]
  cases accessible with
  | false => exact iff_of_true (same _) (fun other => by cases other)
  | true =>
      rw [if_neg (fun other => by cases other)]
      cases keyValid with
      | false => exact iff_of_true (same _) (fun _ other => by cases other)
      | true =>
          rw [if_neg (fun other => by cases other)]
          cases open_ : caller.manager.getPkgFile packagePath with
          | true => exact iff_of_true (same _) (fun _ _ other => by cases other)
          | false =>
              rw [if_neg (fun other => by cases other)]
              by_cases upgrade : getPkgTypeByName packagePath = .upgrade
              case pos =>
                rw [if_pos upgrade, loadUpgradePackage_truthful upgrade]
                exact ⟨fun keeps _ _ _ _ => keeps, fun all => all rfl rfl rfl upgrade⟩
              case neg =>
                refine iff_of_true ?_ (fun _ _ _ other => (upgrade other).elim)
                rw [if_neg upgrade]
                split
                case isFalse => exact same _
                case isTrue =>
                  by_cases opens : (outcomes caller.manager.loads).Opens
                  case neg =>
                    have code := (loadPackageOfType_fails [] opens).1
                    dsimp only
                    rw [if_pos code]
                    exact truthful_cleared code
                  case pos =>
                    rw [loadPackageOfType_opens opens, List.nil_append]
                    dsimp only
                    rw [if_neg (fun failed => failed rfl)]
                    refine loadInner_truthful ?_ ?_ ?_
                    · exact caller.unfailed
                    · exact fun name entry => getFileInfo_of_opened (List.mem_cons_self ..) entry
                    · exact fun name own => getFileInfo_opening (caller.found name own)

/-- When a load that succeeds has loaded all: an upgrade package without an inner archive, or with
one that loads and takes no other name with it. -/
theorem load_truthful_iff {accessible keyValid : Bool} :
    (Truthful (loadPackage outcomes movedFrom accessible keyValid packagePath caller.fileIds
        caller.manager) ↔
      (accessible = true → keyValid = true → caller.manager.getPkgFile packagePath = false →
        getPkgTypeByName packagePath = .upgrade → (outcomes caller.manager.loads).Opens →
        updateZip ∈ outerNames outcomes caller →
        InnerLoads outcomes (caller.manager.loads + 1) → KeepsNames outcomes movedFrom caller)) ∧
    (Truthful (loadPackageWithoutUnPack outcomes movedFrom packagePath caller.fileIds
        caller.manager) ↔
      (getPkgTypeByName packagePath = .upgrade → (outcomes caller.manager.loads).Opens →
        updateZip ∈ outerNames outcomes caller →
        InnerLoads outcomes (caller.manager.loads + 1) ∧
          KeepsNames outcomes movedFrom caller)) :=
  ⟨loadPackage_truthful, loadPackageWithoutUnPack_truthful⟩

end Truth

section Lost

/-- A manager without packages, and no names. -/
def noPackage : Caller where
  manager := { pkgFiles := [], loads := 0, innerFailed := false }
  fileIds := []
  found := fun _ member => nomatch member
  unfailed := rfl

/-- An upgrade package with an inner archive, which can not be extracted. -/
def cutArchive (load : Nat) : Outcome where
  path := ascii "update_1.bin"
  create := pkgSuccess
  extract := if load = 0 then pkgSuccess else pkgInvalidFile
  created := true
  entries := [updateZip]
  load := pkgSuccess

/-- An upgrade package with an inner archive and an entry behind it. -/
def archiveBefore (load : Nat) : Outcome where
  path := ascii "update_1.bin"
  create := pkgSuccess
  extract := pkgSuccess
  created := true
  entries := if load = 0 then [updateZip, ascii "/boot"] else []
  load := pkgSuccess

/-- The failed archive is told as a success, and the place behind the last name keeps an empty
one. -/
theorem loads_untruthful :
    ¬ Truthful (loadPackageWithoutUnPack cutArchive (fun _ => []) (ascii "/update_1.bin")
        noPackage.fileIds noPackage.manager) ∧
      ¬ Truthful (loadPackage archiveBefore (fun _ => []) true true (ascii "/update_1.bin")
        noPackage.fileIds noPackage.manager) := by
  unfold Truthful
  decide +kernel

end Lost

end Updater.Package
