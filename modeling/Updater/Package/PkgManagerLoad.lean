import Updater.Package.ZipPkgUnpack

/-! `PkgManagerImpl`: how packages and the packages in them are loaded. -/

set_option autoImplicit false

namespace Updater.Package

open Updater.Base

inductive PkgType where
  | none
  | upgrade
  | zip
  | lz4
  | gzip
  deriving DecidableEq, Repr

/-- What is behind the last separator, if there is one. -/
def afterLast (separator : UInt8) (path : Bytes) : Option Bytes :=
  if separator ∈ path then some (path.reverse.takeWhile (· ≠ separator)).reverse else none

/-- `GetName`. -/
def getName (path : Bytes) : Bytes :=
  (afterLast '/'.toUInt8 path).getD path

def toLower (byte : UInt8) : UInt8 :=
  if 65 ≤ byte ∧ byte ≤ 90 then byte + 32 else byte

def getPkgTypeByName (path : Bytes) : PkgType :=
  match afterLast '.'.toUInt8 path with
  | none => .none
  | some extension =>
      if ((ascii "update_").isPrefixOf (getName path) = true ∧ extension.map toLower = ascii "bin") ∨
          path = ascii "update.bin" then .upgrade
      else if extension = ascii "zip" then .zip
      else if extension = ascii "lz4" then .lz4
      else if extension = ascii "gz" then .gzip
      else .none

def pkgInvalidFile : Int := 103

/-- What comes of loading a package: the result of `CreatePkgStream`, for a package in another one
that of `ExtractFile`, whether `CreatePackage` makes a file, the entries that it finds and its
result. -/
structure Outcome where
  path : Bytes
  create : Int
  extract : Int
  created : Bool
  entries : List Bytes
  load : Int

/-- An open package, by the names of its entries. -/
structure PkgFile where
  path : Bytes
  entries : List Bytes
  deriving DecidableEq, Repr

/-- The open packages, how many loads were begun, and whether one of a package in another failed. -/
structure PkgManager where
  pkgFiles : List PkgFile
  loads : Nat
  innerFailed : Bool

namespace PkgManager

/-- `GetFileInfo`: whether an open package has the entry. -/
def getFileInfo (manager : PkgManager) (name : Bytes) : Bool :=
  manager.pkgFiles.any fun file => file.entries.contains name

/-- `GetPkgFile`. -/
def getPkgFile (manager : PkgManager) (packagePath : Bytes) : Bool :=
  manager.pkgFiles.any fun file => file.path = packagePath

/-- `ClearPkgFile`. -/
def clearPkgFile (manager : PkgManager) : PkgManager :=
  { manager with pkgFiles := [] }

end PkgManager

/-- The result of a load, the names, and the manager. -/
abbrev Loaded : Type := Int × List Bytes × PkgManager

/-- `LoadPackageWithStream`; the names of the entries are added even where it fails. -/
def loadPackageWithStream (outcome : Outcome) (fileIds : List Bytes) (manager : PkgManager) :
    Loaded :=
  if outcome.created = false then (pkgInvalidParam, fileIds, manager)
  else if outcome.load ≠ pkgSuccess then (outcome.load, fileIds ++ outcome.entries, manager)
  else
    (pkgSuccess, fileIds ++ outcome.entries, { manager with
      pkgFiles := manager.pkgFiles ++ [{ path := outcome.path, entries := outcome.entries }] })

def updateZip : Bytes := ascii "/update.zip"

/-- `std::remove` of a name, without the `erase`: the others move up, and the places behind them
keep the name, or what a string is left as when it was moved from. -/
def removeName (movedFrom : Bytes → Bytes) (name : Bytes) (names : List Bytes) : List Bytes :=
  let others := names.filter (· ≠ name)
  others ++ (names.drop others.length).map fun left => if left = name then left else movedFrom left

section Loads

variable (outcomes : Nat → Outcome) (movedFrom : Bytes → Bytes)

/-- `LoadPackage` of a file of a type. -/
def loadPackageOfType (fileIds : List Bytes) (manager : PkgManager) : Loaded :=
  let outcome := outcomes manager.loads
  let manager := { manager with loads := manager.loads + 1 }
  if outcome.create ≠ pkgSuccess then (outcome.create, fileIds, manager)
  else loadPackageWithStream outcome fileIds manager

/-- `ExtraAndLoadPackage`, of an entry that is a package. -/
def extraAndLoadPackage (name : Bytes) (fileIds : List Bytes) (manager : PkgManager) : Loaded :=
  if manager.getFileInfo name = false then
    (pkgInvalidFile, fileIds, { manager with innerFailed := true })
  else
    let outcome := outcomes manager.loads
    let manager := { manager with loads := manager.loads + 1 }
    if outcome.create ≠ pkgSuccess then
      (outcome.create, fileIds, { manager with innerFailed := true })
    else if outcome.extract ≠ pkgSuccess then
      (outcome.extract, fileIds, { manager with innerFailed := true })
    else
      let (ret, fileIds, manager) := loadPackageWithStream outcome fileIds manager
      if ret ≠ pkgSuccess then (ret, fileIds, { manager with innerFailed := true })
      else (ret, fileIds, manager)

/-- The loop over the entries of a package: those that are packages are loaded, the others
listed. -/
def loadInner (listed : Bytes → Bool) : List Bytes → List Bytes → PkgManager → Loaded
  | [], fileIds, manager => (pkgSuccess, fileIds, manager)
  | name :: names, fileIds, manager =>
      if listed name then loadInner listed names (fileIds ++ [name]) manager
      else
        let (ret, fileIds, manager) := extraAndLoadPackage outcomes name fileIds manager
        if ret ≠ pkgSuccess then (ret, fileIds, manager)
        else loadInner listed names fileIds manager

/-- The entries of the inner archive that are not loaded. -/
def listedInZip (name : Bytes) : Bool :=
  getPkgTypeByName name = .none || getPkgTypeByName name = .upgrade

/-- The entries of an archive that are not loaded; a package with a list of boards keeps its
`update.bin`. -/
def listedInPackage (innerFileNames : List Bytes) (name : Bytes) : Bool :=
  getPkgTypeByName name = .none ||
    (getPkgTypeByName name = .upgrade && innerFileNames.contains (ascii "board_list"))

def loadPackageInnerZip (packagePath : Bytes) (fileIds : List Bytes) (manager : PkgManager) :
    Loaded :=
  if getPkgTypeByName packagePath ≠ .upgrade then (pkgSuccess, fileIds, manager)
  else if updateZip ∉ fileIds then (pkgSuccess, fileIds, manager)
  else
    let fileIds := removeName movedFrom updateZip fileIds
    let (ret, innerFileNames, manager) := extraAndLoadPackage outcomes updateZip [] manager
    if ret ≠ pkgSuccess then (ret, fileIds, manager)
    else
      let (ret, _, manager) := loadInner outcomes listedInZip innerFileNames [] manager
      (ret, fileIds, manager)

def loadUpgradePackage (packagePath : Bytes) (fileIds : List Bytes) (manager : PkgManager) :
    Loaded :=
  let (ret, fileIds, manager) := loadPackageOfType outcomes fileIds manager
  if ret ≠ pkgSuccess then (ret, fileIds, manager.clearPkgFile)
  else
    let (ret, fileIds, manager) := loadPackageInnerZip outcomes movedFrom packagePath fileIds manager
    if ret ≠ pkgSuccess then (pkgInvalidPkgFormat, fileIds, manager.clearPkgFile)
    else (pkgSuccess, fileIds, manager)

def loadPackageWithoutUnPack (packagePath : Bytes) (fileIds : List Bytes) (manager : PkgManager) :
    Loaded :=
  let (ret, fileIds, manager) := loadPackageOfType outcomes fileIds manager
  if ret ≠ pkgSuccess then (ret, fileIds, manager.clearPkgFile)
  else
    let (inner, fileIds, manager) := loadPackageInnerZip outcomes movedFrom packagePath fileIds manager
    -- The result is that of the outer package.
    if inner ≠ pkgSuccess then (ret, fileIds, manager.clearPkgFile)
    else (pkgSuccess, fileIds, manager)

/-- `LoadPackage` of a path, which may be accessible, with a key name that is checked. -/
def loadPackage (accessible keyValid : Bool) (packagePath : Bytes) (fileIds : List Bytes)
    (manager : PkgManager) : Loaded :=
  if accessible = false then (pkgInvalidFile, fileIds, manager)
  else if keyValid = false then (pkgInvalidFile, fileIds, manager)
  else if manager.getPkgFile packagePath then (pkgSuccess, fileIds, manager)
  else if getPkgTypeByName packagePath = .upgrade then
    loadUpgradePackage outcomes movedFrom packagePath fileIds manager
  else if getPkgTypeByName packagePath ≠ .none then
    let (ret, innerFileNames, manager) := loadPackageOfType outcomes [] manager
    if ret ≠ pkgSuccess then (ret, fileIds, manager.clearPkgFile)
    else
      let (ret, fileIds, manager) :=
        loadInner outcomes (listedInPackage innerFileNames) innerFileNames fileIds manager
      if ret ≠ pkgSuccess then (ret, fileIds, manager.clearPkgFile)
      else (pkgSuccess, fileIds, manager)
  else (pkgSuccess, fileIds, manager)

end Loads

end Updater.Package
