import Updater.Utils.MiscMessage

/-! The request to install packages that updaterkits leaves in the misc partition before the
reboot. -/

set_option autoImplicit false

namespace Updater.UpdaterKits

open Updater.Utils

/-- The upgrade types of updaterkits.h, and any other text. -/
inductive UpgradeType where
  | ota
  | sd
  | otaIntral
  | sdIntral
  | subpkgUpdate
  | other
  deriving DecidableEq, Repr

def isPackagePath (path : List Char) : Bool :=
  (find "--force_update_action=".toList path).isNone &&
    (find "--night_update".toList path).isNone &&
    (find "--shrink_info=".toList path).isNone &&
    (find "--virtual_shrink_info=".toList path).isNone &&
    (find "--screen_state=".toList path).isNone

/-- What `stat` finds of the paths whose inodes are added: of the hyperhold file, and of the swap
file where the parameter names one. -/
structure Inodes where
  hyperhold : Option Nat
  swapFile : Option (Option Nat)

/-- `GetFileInode`. -/
def getFileInode : Option Nat → List Char
  | none => ['0']
  | some inode => Nat.toDigits 10 inode

/-- What `UpdateOptExpand` adds to an option. -/
def Inodes.suffix (inodes : Inodes) : List Char :=
  ',' :: getFileInode inodes.hyperhold ++
    match inodes.swapFile with
    | none => []
    | some inode => ',' :: getFileInode inode

def updateOptExpand (inodes : Inodes) (updateOpt : List Char) : List Char :=
  if find "--shrink_info=".toList updateOpt = none ∧
      find "--virtual_shrink_info=".toList updateOpt = none then updateOpt
  else updateOpt ++ inodes.suffix

/-- What is printed for an element of the list, without the line feed. -/
def printed (inodes : Inodes) (path : List Char) : List Char :=
  if isPackagePath path then "--update_package=".toList ++ cString path
  else cString (updateOptExpand inodes path)

/-- `AddPkgPath`, with the text that is in the field; the inodes are those at the time of each
element. -/
def addPkgPath (inodes : Nat → Inodes) : Nat → List Char → List (List Char) →
    Except Int (List Char)
  | _, update, [] => .ok update
  | i, update, path :: packageName =>
      if maxUpdateSize < update.length then .error 4
      else
        match snprintfS (maxUpdateSize - update.length) (printed (inodes i) path ++ ['\n']) with
        | none => .error 5
        | some line => addPkgPath inodes (i + 1) (update ++ line) packageName

/-- The line of the type. -/
def typeLine : UpgradeType → List Char
  | .sd => "--sdcard_update\n".toList
  | .sdIntral => "--sdcard_intral_update\n".toList
  | .otaIntral => "--ota_intral_update\n".toList
  | .subpkgUpdate => "--subpkg_update\n".toList
  | .ota => []
  | .other => []

/-- `ParsePkgPath`. -/
def parsePkgPath (update : List Char) : List Char :=
  match find "update_package=".toList update, find ".zip".toList update with
  | some startPos, some endPos =>
      let startPos := startPos + "update_package=".length
      let endPos := endPos + ".zip".length
      if startPos < endPos then (update.drop startPos).take (endPos - startPos) else []
  | _, _ => []

/-- What `WriteUpdaterResultFile` writes, to both directories. -/
def resultInfo (pkgPath result : List Char) : List Char :=
  pkgPath ++ "|notstart|".toList ++ result ++ "||\n".toList

inductive Ending where
  | returned (code : Int)
  | rebooted
  deriving DecidableEq, Repr

/-- How a request ends, the message that is in the misc partition then, where one was written, and
the contents of the result file, the last one first. -/
structure Outcome where
  ending : Ending
  misc : Option UpdateMessage
  results : List (List Char)

def failed (code : Int) : Outcome where
  ending := .returned code
  misc := none
  results := []

/-- `struct UpdateMessage updateMsg {}`. -/
def zeroMessage : UpdateMessage where
  command := List.replicate maxCommandSize nul
  status := List.replicate 32 nul
  update := List.replicate maxUpdateSize nul
  rest := List.replicate 288 nul
  command_size := List.length_replicate
  update_size := List.length_replicate

def bootMessage (update : List Char) : UpdateMessage :=
  (zeroMessage.withUpdate update).withCommand "boot_updater".toList

/-- `RebootAndInstallUpgradePackage`, with the files that can be read, and what the function for
the reboot returns, where one is given. -/
def rebootAndInstallUpgradePackage (readable : List Char → Bool) (inodes : Nat → Inodes)
    (rebootFunc : Option Int) (packageName : List (List Char)) (upgradeType : UpgradeType) :
    Outcome :=
  if packageName = [] ∧ (upgradeType = .ota ∨ upgradeType = .otaIntral) then failed 1
  else if packageName.any (fun path => isPackagePath path && !readable (cString path)) then failed 2
  else
    match snprintfS maxUpdateSize (typeLine upgradeType) with
    | none => failed 3
    | some line =>
        match addPkgPath inodes 0 line packageName with
        | .error code => failed code
        | .ok update =>
            let updateMsg := bootMessage update
            if upgradeType = .ota ∨ upgradeType = .otaIntral ∨ upgradeType = .subpkgUpdate then
              let pkgPath := parsePkgPath updateMsg.update
              { ending := match rebootFunc with
                  | none => .rebooted
                  | some code => if code ≠ 0 then .returned 6 else .rebooted
                misc := some updateMsg
                results := [resultInfo pkgPath "0x80000008".toList,
                  resultInfo pkgPath "0x80000000".toList] }
            else { ending := .rebooted, misc := some updateMsg, results := [] }

end Updater.UpdaterKits
