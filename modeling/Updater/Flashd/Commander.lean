import Updater.Base.Bytes

/-! The commanders of flashd: how each of the four commands goes on with a packet, and what it
notifies. -/

set_option autoImplicit false

namespace Updater.Flashd

open Updater.Base

/-- `Split` at blanks, without the tokens of the filter. The source ends at a zero, as `strtok_s`
does. -/
def split (src : Bytes) (filter : List Bytes) : List Bytes :=
  ((cString src).splitOn 32).filter fun token => token ≠ [] ∧ token ∉ filter

inductive CmdType where
  | update
  | flash
  | erase
  | format
  deriving DecidableEq

/-- What a commander tells its callback. -/
inductive Notification where
  | doing (percentage : Nat)
  | success
  | fail
  deriving DecidableEq

/-- The notifications behind which a command has ended. -/
def Notification.final : Notification → Bool
  | doing _ => false
  | success => true
  | fail => true

/-- How the calls of a command to the system end. -/
structure Outcome where
  mountForPath : Bool
  openFile : Bool
  initPartition : Bool
  getDataWriter : Bool
  /-- `none` for a write that succeeds, otherwise the bytes of it that are written. -/
  writeStops : Option Nat
  writeFully : Bool
  doErase : Bool
  doFormat : Bool

def percentFinish : Nat := 100

def percentClear : Nat := 255

/-- `UpdateProgress`, with the percentage of the last one. -/
def updateProgress (fileSize currentSize preProcess : Nat) : Nat × Option Notification :=
  if fileSize = 0 then (preProcess, none)
  else
    let currentProcess := currentSize * percentFinish % 2 ^ 64 / fileSize % 2 ^ 8
    if percentFinish < currentProcess ∨ currentProcess = preProcess then (preProcess, none)
    else (currentProcess, some (.doing currentProcess))

/-- `RawWriter`, by the offset of its next write. -/
structure RawWriter where
  offset : Nat

/-- `RawWriter::Write`: the bytes that are written at the offset, which goes on only if all are. -/
def RawWriter.write (writer : RawWriter) (data : Bytes) (outcome : Outcome) :
    RawWriter × Bytes × Bool :=
  if data = [] then (writer, [], false)
  else
    match outcome.writeStops with
    | none => (⟨writer.offset + data.length⟩, data, true)
    | some stop => (writer, data.take stop, false)

/-- `FlashdWriterRaw`, which makes its writer at the first write. -/
structure FlashdWriterRaw where
  writer : Option RawWriter

/-- `FlashdWriterRaw::Write`, with the offset and the bytes that are written. -/
def FlashdWriterRaw.write (startAddr : Nat) (writer : FlashdWriterRaw) (data : Bytes)
    (outcome : Outcome) : FlashdWriterRaw × (Nat × Bytes) × Bool :=
  match writer.writer with
  | some raw =>
      let (next, written, success) := raw.write data outcome
      (⟨some next⟩, (raw.offset, written), success)
  | none =>
      if outcome.getDataWriter = false then (writer, (startAddr, []), false)
      else
        let (next, written, success) := RawWriter.write ⟨startAddr⟩ data outcome
        (⟨some next⟩, (startAddr, written), success)

structure FlashCommander where
  fileSize : Nat
  currentSize : Nat
  partName : Bytes
  partition : Option FlashdWriterRaw

/-- `FlashCommander::DoCommand` with the options of a new session. -/
def FlashCommander.doOptions (cmmParam : Bytes) (fileSize : Nat) (outcome : Outcome) :
    FlashCommander × Option Notification :=
  match split cmmParam [ascii "-f"] with
  | partName :: _ :: _ =>
      (⟨fileSize, 0, partName, none⟩, if outcome.mountForPath then none else some .fail)
  | _ => (⟨0, 0, [], none⟩, some .fail)

/-- The partition of a commander, set up when the first payload comes. -/
def FlashCommander.initPartition (commander : FlashCommander) (outcome : Outcome) :
    Option FlashdWriterRaw :=
  match commander.partition with
  | some partition => some partition
  | none => if outcome.initPartition then some ⟨none⟩ else none

/-- `FlashCommander::DoFlash`: the commander, the offset and the bytes that are written, and the
size that is returned, `none` for the error. -/
def FlashCommander.doFlash (startAddr : Nat) (commander : FlashCommander) (payload : Bytes)
    (outcome : Outcome) : FlashCommander × (Nat × Bytes) × Option Nat :=
  match commander.initPartition outcome with
  | none => (commander, (startAddr, []), none)
  | some partition =>
      let writeSize := min payload.length (commander.fileSize - commander.currentSize)
      if writeSize = 0 then
        ({ commander with partition := some partition }, (startAddr, []), some 0)
      else
        let (next, written, success) := partition.write startAddr (payload.take writeSize) outcome
        ({ commander with partition := some next }, written,
          if success then some writeSize else none)

/-- `FlashCommander::DoCommand` with a payload, which is empty where the source gets none or no
positive size: the commander, the percentage of the last progress, what is written where, and what
is notified. -/
def FlashCommander.doPayload (startAddr : Nat) (commander : FlashCommander) (preProcess : Nat)
    (payload : Bytes) (outcome : Outcome) :
    FlashCommander × Nat × (Nat × Bytes) × Option Notification :=
  if payload = [] then (commander, preProcess, (startAddr, []), some .fail)
  else
    match commander.doFlash startAddr payload outcome with
    | (commander, written, none) => (commander, preProcess, written, some .fail)
    | (commander, written, some writeSize) =>
        let commander := { commander with currentSize := commander.currentSize + writeSize }
        if commander.fileSize ≤ commander.currentSize then
          (commander, preProcess, written, some .success)
        else
          let (preProcess, notification) :=
            updateProgress commander.fileSize commander.currentSize preProcess
          (commander, preProcess, written, notification)

/-- `UpdateCommander`, with whether its file is open. -/
structure UpdateCommander where
  fileSize : Nat
  currentSize : Nat
  fd : Bool

/-- `UpdateCommander::DoCommand` with the options of a new session. -/
def UpdateCommander.doOptions (cmdParam : Bytes) (fileSize : Nat) (outcome : Outcome) :
    UpdateCommander × Option Notification :=
  if split cmdParam [ascii "-f"] = [] ∨ outcome.mountForPath = false then
    (⟨0, 0, false⟩, some .fail)
  else (⟨fileSize, 0, outcome.openFile⟩, if outcome.openFile then none else some .fail)

/-- `UpdateCommander::DoCommand` with a payload, with its `DoUpdate`. -/
def UpdateCommander.doPayload (commander : UpdateCommander) (preProcess : Nat) (payload : Bytes)
    (outcome : Outcome) : UpdateCommander × Nat × Option Notification :=
  if payload = [] ∨ commander.fd = false then (commander, preProcess, some .fail)
  else
    let writeSize := min payload.length (commander.fileSize - commander.currentSize)
    if writeSize = 0 then (commander, preProcess, none)
    else if outcome.writeFully = false then (commander, preProcess, some .fail)
    else
      let commander := { commander with currentSize := commander.currentSize + writeSize }
      if commander.fileSize ≤ commander.currentSize then
        ({ commander with fd := false }, preProcess, some .success)
      else
        let (preProcess, notification) :=
          updateProgress commander.fileSize commander.currentSize preProcess
        (commander, preProcess, notification)

/-- `EraseCommander::DoCommand` with a payload. -/
def eraseDoPayload (payload : Bytes) (outcome : Outcome) : Notification :=
  match split payload [ascii "-f"] with
  | _ :: _ :: _ => if outcome.doErase then .success else .fail
  | _ => .fail

/-- `ERASE_ONLY_LIST`. -/
def eraseOnlyList : List Bytes :=
  [ascii "boot", ascii "fastboot", ascii "kernel", ascii "misc", ascii "system"]

/-- `FormatCommander::DoCommand` with a payload. -/
def formatDoPayload (payload : Bytes) (outcome : Outcome) : Notification :=
  match split payload [ascii "-f"] with
  | _ :: partitionName :: _ =>
      if partitionName ∈ eraseOnlyList then if outcome.doErase then .success else .fail
      else if outcome.doFormat then .success
      else .fail
  | _ => .fail

inductive Commander where
  | update (commander : UpdateCommander)
  | flash (commander : FlashCommander)
  | erase
  | format

def Commander.cmdType : Commander → CmdType
  | update _ => .update
  | flash _ => .flash
  | erase => .erase
  | format => .format

/-- `CommanderFactory::CreateCommander`, as far as it chooses the kind of the commander. -/
def commanders (cmd : Bytes) : Option CmdType :=
  if cmd = ascii "flash" then some .flash
  else if cmd = ascii "erase" then some .erase
  else if cmd = ascii "update" then some .update
  else if cmd = ascii "format" then some .format
  else none

/-- A commander before its first `DoCommand`. -/
def CmdType.create : CmdType → Commander
  | update => .update ⟨0, 0, false⟩
  | flash => .flash ⟨0, 0, [], none⟩
  | erase => .erase
  | format => .format

/-- `DoCommand` with options, of a commander that was just created. The commanders for erasing and
formatting do nothing. -/
def CmdType.doOptions (kind : CmdType) (cmmParam : Bytes) (fileSize : Nat) (outcome : Outcome) :
    Commander × Option Notification :=
  match kind with
  | update =>
      let (commander, notification) := UpdateCommander.doOptions cmmParam fileSize outcome
      (.update commander, notification)
  | flash =>
      let (commander, notification) := FlashCommander.doOptions cmmParam fileSize outcome
      (.flash commander, notification)
  | erase => (.erase, none)
  | format => (.format, none)

/-- `DoCommand` with a payload. -/
def Commander.doPayload (startAddr : Nat) (commander : Commander) (preProcess : Nat)
    (payload : Bytes) (outcome : Outcome) : Commander × Nat × Option Notification :=
  match commander with
  | update commander =>
      let (commander, preProcess, notification) := commander.doPayload preProcess payload outcome
      (.update commander, preProcess, notification)
  | flash commander =>
      let (commander, preProcess, _, notification) :=
        commander.doPayload startAddr preProcess payload outcome
      (.flash commander, preProcess, notification)
  | erase => (.erase, preProcess, some (eraseDoPayload payload outcome))
  | format => (.format, preProcess, some (formatDoPayload payload outcome))

end Updater.Flashd
