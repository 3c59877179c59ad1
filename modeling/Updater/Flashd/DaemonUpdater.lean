import Mathlib.Logic.Function.Basic
import Updater.Flashd.Commander

/-! The tasks of flashd, which share the flag that a command is running. -/

set_option autoImplicit false

namespace Updater.Flashd

open Updater.Base

/-- What a task sends to the host; the number of the command in a finish is not part of the
message. -/
inductive Message where
  | progress (task : Nat) (percentage : Nat)
  | finish (task command : Nat) (type : CmdType) (success : Bool)
  | begin_ (task : Nat)
  | notAllowed (task : Nat)
  deriving DecidableEq

/-- A commander in a task, with the number of the command for which it was created. -/
structure Held where
  command : Nat
  commander : Commander

/-- The state of all tasks: the flag that they share, the percentage of the last progress, the
member `commander_` of each task, the number of commands accepted so far, those of them whose
commander has told an end, and the messages sent. -/
structure Daemon where
  isRunning : Bool
  preProcess : Nat
  commander : Nat → Option Held
  accepted : Nat
  ended : List Nat
  sent : List Message

def Daemon.initial : Daemon where
  isRunning := false
  preProcess := 0
  commander := fun _ => none
  accepted := 0
  ended := []
  sent := []

def payloadFixReserver : Nat := 64

/-- The packets of the host, after their texts are parsed. -/
inductive Packet where
  | check (payloadSize : Int) (functionName options : Bytes) (fileSize : Nat)
  | data (payloadSize : Int) (uncompressSize : UInt32) (payload : Bytes)
  | erase (payload : Bytes)
  | format (payload : Bytes)
  | other (command : Nat)

namespace Daemon

/-- `SendToHost`. -/
def sendToHost (daemon : Daemon) (task command : Nat) (type : CmdType)
    (notification : Notification) : Daemon :=
  if daemon.isRunning = false then daemon
  else
    match notification with
    | .doing percentage => { daemon with sent := daemon.sent ++ [.progress task percentage] }
    | .success => { daemon with
        isRunning := false
        sent := daemon.sent ++ [.progress task percentFinish, .finish task command type true] }
    | .fail => { daemon with
        isRunning := false
        sent := daemon.sent ++ [.progress task percentClear, .finish task command type false] }

/-- A notification that a commander gives to its callback. -/
def notify (daemon : Daemon) (task command : Nat) (type : CmdType) :
    Option Notification → Daemon
  | none => daemon
  | some notification =>
      let daemon := daemon.sendToHost task command type notification
      if notification.final then { daemon with ended := daemon.ended ++ [command] } else daemon

/-- `CreateCommander`, assigned to the commander of the task. -/
def createCommander (daemon : Daemon) (task : Nat) (cmd : Bytes) : Daemon × Option CmdType :=
  if daemon.isRunning then
    ({ daemon with commander := Function.update daemon.commander task none }, none)
  else
    match commanders cmd with
    | none => ({ daemon with
        isRunning := true
        commander := Function.update daemon.commander task none }, none)
    | some kind => ({ daemon with
        isRunning := true
        commander := Function.update daemon.commander task (some ⟨daemon.accepted, kind.create⟩)
        accepted := daemon.accepted + 1 }, some kind)

/-- The commander of a task behind a call of `DoCommand`, and what the call notified. -/
def commanded (daemon : Daemon) (task command : Nat) (commander : Commander)
    (notification : Option Notification) : Daemon :=
  { daemon with commander := Function.update daemon.commander task (some ⟨command, commander⟩) }.notify
    task command commander.cmdType notification

/-- `CheckCommand`. -/
def checkCommand (daemon : Daemon) (task : Nat) (payloadSize : Int) (functionName options : Bytes)
    (fileSize : Nat) (outcome : Outcome) : Daemon :=
  if payloadSize < 8 then daemon
  else
    match daemon.createCommander task (cString functionName) with
    | (daemon', none) => daemon'
    | (daemon', some kind) =>
        let (commander, notification) := kind.doOptions options fileSize outcome
        let daemon' := daemon'.commanded task daemon.accepted commander notification
        { daemon' with sent := daemon'.sent ++ [.begin_ task] }

/-- The payload that `DataCommand` hands on: none at all for a packet that it drops, an empty one
where the size becomes negative. -/
def dataPayload (payloadSize : Int) (uncompressSize : UInt32) (payload : Bytes) : Option Bytes :=
  if payloadSize ≤ payloadFixReserver then none
  else if payloadSize < ((uncompressSize + 64).toNat : Int) then none
  else if 2 ^ 31 ≤ uncompressSize.toNat then some []
  else some (payload.take uncompressSize.toNat)

/-- `DataCommand`. -/
def dataCommand (daemon : Daemon) (startAddr : Nat) (task : Nat) (payloadSize : Int)
    (uncompressSize : UInt32) (payload : Bytes) (outcome : Outcome) : Daemon :=
  match daemon.commander task with
  | none => daemon
  | some held =>
      match dataPayload payloadSize uncompressSize payload with
      | none => daemon
      | some payload =>
          let (commander, preProcess, notification) :=
            held.commander.doPayload startAddr daemon.preProcess payload outcome
          { daemon with preProcess := preProcess }.commanded task held.command commander notification

/-- `EraseCommand` and `FormatCommand`, with the name of their command. -/
def payloadCommand (daemon : Daemon) (startAddr : Nat) (task : Nat) (cmd payload : Bytes)
    (outcome : Outcome) : Daemon :=
  match daemon.createCommander task cmd with
  | (daemon', none) => daemon'
  | (daemon', some kind) =>
      let (commander, preProcess, notification) :=
        kind.create.doPayload startAddr daemon'.preProcess payload outcome
      { daemon' with preProcess := preProcess }.commanded task daemon.accepted commander notification

def eraseCommand (daemon : Daemon) (startAddr : Nat) (task : Nat) (payload : Bytes)
    (outcome : Outcome) : Daemon :=
  daemon.payloadCommand startAddr task (ascii "erase") payload outcome

def formatCommand (daemon : Daemon) (startAddr : Nat) (task : Nat) (payload : Bytes)
    (outcome : Outcome) : Daemon :=
  daemon.payloadCommand startAddr task (ascii "format") payload outcome

/-- `CommandDispatch`. -/
def commandDispatch (daemon : Daemon) (locked : Bool) (startAddr task : Nat) (packet : Packet)
    (outcome : Outcome) : Daemon :=
  if locked then { daemon with sent := daemon.sent ++ [.notAllowed task] }
  else
    match packet with
    | .check payloadSize functionName options fileSize =>
        daemon.checkCommand task payloadSize functionName options fileSize outcome
    | .data payloadSize uncompressSize payload =>
        daemon.dataCommand startAddr task payloadSize uncompressSize payload outcome
    | .erase payload => daemon.eraseCommand startAddr task payload outcome
    | .format payload => daemon.formatCommand startAddr task payload outcome
    | .other _ => daemon

end Daemon

end Updater.Flashd
