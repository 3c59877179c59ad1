import Updater.ApplyPatch.PartitionRecord
import Updater.UpdaterMain.Options

/-! The installation of a list of packages, with what it keeps in the misc partition for the run
after a restart. A device can lose its power, or a run can fail, between any two of its steps. -/

set_option autoImplicit false

namespace Updater.UpdaterMain

open Utils ApplyPatch
open Base (Bytes)

def maxRetryCount : Nat := 3

/-- `UpdaterParams::miscCmd`. -/
def miscCmd : List Char := "boot_updater".toList

/-- The place of a run in `DoInstallPackages` and in the script of a package. -/
inductive Phase where
  /-- The head of the loop over the packages. -/
  | entering
  /-- The offset of the record is cleared, `retry_count` is to be written. -/
  | marking
  /-- The script still has these partitions to update. -/
  | installing (todo : List Bytes)
  /-- The partition is updated, its slot is to be written. -/
  | recording (partition : Bytes) (todo : List Bytes)
  /-- The slot is written, the offset is to be moved behind it. -/
  | moving (todo : List Bytes)
  /-- The package is installed, `upgraded_pkg_num` is to be written. -/
  | installed
  deriving DecidableEq, Repr

structure Run where
  params : UpdaterParams
  phase : Phase
  deriving DecidableEq, Repr

/-- What is done to the device, in its order. -/
inductive Event where
  | entered (package : Nat)
  | updated (package : Nat) (partition : Bytes)
  | skipped (package : Nat) (partition : Bytes)
  | installed (package : Nat)
  | finished
  deriving DecidableEq, Repr

/-- What is in the misc partition and in `COMMAND_FILE`, the run if there is one, and the history. -/
structure Device where
  commandFile : Option UpdateMessage
  misc : UpdateMessage
  record : MiscRegion
  running : Option Run
  history : List Event

def Device.args (device : Device) : List (List Char) :=
  parseParams device.commandFile device.misc

namespace Run

def package (run : Run) : Option (List Char) :=
  run.params.updatePackage[run.params.pkgLocation]?

/-- `retry=1` is given to the package's script. -/
def isRetry (run : Run) : Bool :=
  decide (0 < run.params.retryCount)

def at_ (run : Run) (phase : Phase) : Run :=
  { run with phase }

end Run

/-- The first write of `RecordPartitionSetInfo`: the slot at the offset. -/
def writeSlot (partition : Bytes) (misc : MiscRegion)
    (fits : misc.offset + partitionRecordInfoLen < partitionUpdaterRecordSize) : MiscRegion :=
  let recorded := recordPartitionSetInfo { partitionName := partition, updated := true } misc fits
  { recorded with offset := misc.offset, aligned := misc.aligned }

/-- Its second write. -/
def moveOffset (misc : MiscRegion) : MiscRegion :=
  { misc with
    offset := misc.offset + partitionRecordInfoLen
    aligned := misc.aligned_next }

theorem moveOffset_writeSlot (partition : Bytes) (misc : MiscRegion)
    (fits : misc.offset + partitionRecordInfoLen < partitionUpdaterRecordSize) :
    recordPartitionUpdateStatus partition true misc =
      (true, moveOffset (writeSlot partition misc fits)) := by
  rw [recordPartitionUpdateStatus, dif_pos fits]
  rfl

/-- `ClearMisc`: an empty message, and no record. -/
def clearMisc (misc : UpdateMessage) : UpdateMessage :=
  { command := List.replicate maxCommandSize nul
    status := misc.status.map fun _ => nul
    update := List.replicate maxUpdateSize nul
    rest := misc.rest.map fun _ => nul
    command_size := List.length_replicate
    update_size := List.length_replicate }

namespace Device

def log (device : Device) (event : Event) : Device :=
  { device with history := device.history ++ [event] }

def run (device : Device) (run : Run) : Device :=
  { device with running := some run }

def stop (device : Device) : Device :=
  { device with running := none }

/-- `SetMessageToMisc` with the command of the update. -/
def setMessage (device : Device) (message : Int) (headInfo : List Char) : Device :=
  { device with misc := setMessageToMisc device.commandFile miscCmd message headInfo device.misc }

/-- `PostUpdater(true)` after the last package. -/
def finish (device : Device) : Device :=
  { device with
    commandFile := none
    misc := clearMisc device.misc
    record := (clearRecordPartitionOffset device.record).2
    running := none
    history := device.history ++ [.finished] }

/-- `UpdaterMain` after a restart. -/
def start (device : Device) : Device :=
  match device.running with
  | some _ => device
  | none =>
      let params := startUpdater device.args
      if params.updatePackage = [] then device else device.run { params, phase := .entering }

/-- `HardwareFaultRetry::RebootRetry`; `PostUpdater(false)` removes the command file. -/
def rebootRetry (device : Device) (run : Run) : Device :=
  let retryCount := unsignedInt run.params.retryCount
  if maxRetryCount ≤ retryCount then device.stop
  else
    { device.stop with
      commandFile := none
      misc := addUpdateInfoToMisc device.commandFile retryCountOption
        (some (((retryCount + 1) % 2 ^ 32 : Nat) : Int)) device.misc }

section

-- The partitions that the script of a package updates, in its order.
variable (contents : List Char → List Bytes)

/-- The head of the loop, and `InstallUpdaterPackage` up to where the script is started. -/
def enter (device : Device) (run : Run) : Device :=
  match run.package with
  | none =>
      if run.params.pkgLocation = run.params.updatePackage.length then device.finish else device.stop
  | some path =>
      let entered := device.log (.entered run.params.pkgLocation)
      if run.params.retryCount = 0 then
        ({ entered with record := (clearRecordPartitionOffset device.record).2 }).run (run.at_ .marking)
      else entered.run (run.at_ (.installing (contents path)))

/-- One partition of the script: `ExecuteUpdateBlock`, `ExecuteImagePatch` or `ExecuteRawImageWrite`. -/
def update (device : Device) (run : Run) (partition : Bytes) (todo : List Bytes) : Device :=
  if run.isRetry && isPartitionUpdated partition device.record then
    (device.log (.skipped run.params.pkgLocation partition)).run (run.at_ (.installing todo))
  else
    (device.log (.updated run.params.pkgLocation partition)).run (run.at_ (.recording partition todo))

/-- The next step of a run. -/
def advance (device : Device) (run : Run) : Device :=
  match run.phase with
  | .entering => device.enter contents run
  | .marking =>
      (device.setMessage (run.params.retryCount + 1) retryCountOption).run
        (run.at_ (.installing ((run.package.map contents).getD [])))
  | .installing [] =>
      (device.log (.installed run.params.pkgLocation)).run (run.at_ .installed)
  | .installing (partition :: todo) => device.update run partition todo
  | .recording partition todo =>
      if fits : device.record.offset + partitionRecordInfoLen < partitionUpdaterRecordSize then
        ({ device with record := writeSlot partition device.record fits }).run (run.at_ (.moving todo))
      else device.run (run.at_ (.installing todo))
  | .moving todo =>
      ({ device with record := moveOffset device.record }).run (run.at_ (.installing todo))
  | .installed =>
      (device.setMessage (run.params.pkgLocation + 1 : Nat) upgradedPkgNumOption).run
        { params := { run.params with pkgLocation := run.params.pkgLocation + 1 }
          phase := .entering }

end

end Device

/-- The device is started, its run goes on, and ends in a fault for which it reboots, or at any
point in another way. -/
inductive Move where
  | start
  | advance
  | fault
  | stop
  deriving DecidableEq, Repr

section

variable (contents : List Char → List Bytes)

def Device.step (move : Move) (device : Device) : Device :=
  match move, device.running with
  | .start, _ => device.start
  | .advance, some run => device.advance contents run
  | .fault, some run => device.rebootRetry run
  | .stop, some _ => device.stop
  | _, none => device

end

end Updater.UpdaterMain
