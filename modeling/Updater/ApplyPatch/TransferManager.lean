import Mathlib.Algebra.Group.Nat.Defs
import Updater.ApplyPatch.Command

/-! `TransferManager::CommandsParser`: one pass over the command lines of a
transfer list, with the retry file that lets a later pass resume. What the
command functions do to the device is a parameter. -/

set_option autoImplicit false

namespace Updater.ApplyPatch

open Updater.Utils

def transferHeadersCount : Nat := 4

/-- Posted when a command fails, so that the caller restarts with a retry. -/
def ioFailedReboot : String := "reboot_IO_failed"

def blockUpdateFailedReboot : String := "reboot_block_update_failed"

structure ScriptEnv where
  isRetry : Bool
  deriving DecidableEq, Repr

/-- One call of a command function: where in the list, which command, what it returned. -/
structure Execution where
  position : Nat
  cmd : Command
  result : CommandResult
  deriving DecidableEq, Repr

/-- The transfer parameters this pass reads and writes, the retry file, and
what the pass made visible outside; `executed` lists every command function
that ran, in order. -/
structure TransferState (World : Type) where
  version : Nat
  blockCount : Nat
  maxEntries : Nat
  maxBlocks : Nat
  written : Nat
  canWrite : Bool
  env : Option ScriptEnv
  retryFile : Option String
  world : World
  messages : List (String × String)
  progress : List (Nat × Nat)
  executed : List Execution
  deriving Repr

/-- A command function: its result, the new `written` count and the new world. -/
abbrev CommandFunction (World : Type) : Type :=
  Command → Nat → World → CommandResult × Nat × World

/-- `CommandIterator` over the lines behind the headers; `ct` is the current line. -/
structure CommandIterator where
  lines : List String
  ct : Nat
  deriving DecidableEq, Repr

def CommandIterator.check (iter : CommandIterator) : Bool :=
  decide (iter.ct < iter.lines.length)

section

variable {World : Type}

def registerForRetry (cmd : String) (st : TransferState World) : TransferState World :=
  { st with retryFile := some cmd }

/-- A missing file reads as the empty string, which means "no command done". -/
def reloadForRetry (st : TransferState World) : String :=
  st.retryFile.getD ""

def postMessage (content : String) (st : TransferState World) : TransferState World :=
  if st.env.isSome then { st with messages := st.messages ++ [("retry_update", content)] } else st

def checkResult (result : CommandResult) (cmd : String) (type : CommandType)
    (st : TransferState World) : Bool × TransferState World :=
  match result with
  | .success => (true, if type ≠ .new then registerForRetry cmd st else st)
  | .needRetry => (false, postMessage ioFailedReboot st)
  | .failed => (false, postMessage blockUpdateFailedReboot st)
  | .other _ => (false, st)

def commandsExecute (function : CommandFunction World) (position : Nat) (cmd : Command)
    (st : TransferState World) : Bool × TransferState World :=
  if cmd.cmdhead ∈ registeredHeads then
    let (ret, written, world) := function cmd st.written st.world
    let st := { st with written, world, executed := st.executed ++ [{ position, cmd, result := ret : Execution }] }
    if st.canWrite then checkResult ret cmd.cmdLine cmd.type st
    else (decide (ret = .success), st)
  else (false, st)

def judgeBlockVerifyCmdType (cmd : Command) : Bool :=
  !(cmd.type = .new || cmd.type = .erase || cmd.type = .free || cmd.type = .zero)

/-- Blocks written since the last report, over the size the headers declare. -/
def updateProgress (initBlock totalSize : Nat) (st : TransferState World) :
    Nat × TransferState World :=
  (st.written, { st with
    progress := st.progress ++ [((st.written + 2 ^ 64 - initBlock) % 2 ^ 64, totalSize)] })

/-- Progress bookkeeping after a command that ran with `canWrite`. -/
def afterCommand (initBlock : Nat) (st : TransferState World) : Nat × TransferState World :=
  let initBlock := if initBlock = 0 then st.written else initBlock
  if st.blockCount ≠ 0 ∧ st.written ≠ initBlock then updateProgress initBlock st.blockCount st
  else (initBlock, st)

/-- The `for` loop of `CommandsParser` over the lines from position `ct` on.
Also returns where the iterator stands at the end. -/
def parserLoop (function : CommandFunction World) (isStream : Bool) (lines : List String)
    (ct : Nat) (retryCmd : String) (initBlock : Nat) (st : TransferState World) :
    Bool × Nat × TransferState World :=
  match lines with
  | [] => (true, ct, st)
  | line :: rest =>
      match Command.init line isStream, st.env with
      | none, _ => parserLoop function isStream rest (ct + 1) retryCmd initBlock st
      | some _, none => parserLoop function isStream rest (ct + 1) retryCmd initBlock st
      | some cmd, some env =>
          let resuming := retryCmd ≠ "" ∧ env.isRetry
          -- the stored line itself was done: it ends the skipping but is skipped too
          let retryCmd := if resuming ∧ line = retryCmd then "" else retryCmd
          if resuming ∧ cmd.type ≠ .new then
            parserLoop function isStream rest (ct + 1) retryCmd initBlock st
          else if !st.canWrite && !judgeBlockVerifyCmdType cmd then
            parserLoop function isStream rest (ct + 1) retryCmd initBlock st
          else
            match commandsExecute function ct cmd st with
            | (false, st) => (false, ct, st)
            | (true, st) =>
                if st.canWrite then
                  let (initBlock, st) := afterCommand initBlock st
                  parserLoop function isStream rest (ct + 1) retryCmd initBlock st
                else parserLoop function isStream rest (ct + 1) retryCmd initBlock st

def initCommandParser (headers : List String) (st : TransferState World) :
    Option (String × TransferState World) :=
  match headers with
  | [version, blockCount, maxEntries, maxBlocks] =>
      let st := { st with
        version := string2Int version nDec
        blockCount := string2Int blockCount nDec
        maxEntries := string2Int maxEntries nDec
        maxBlocks := string2Int maxBlocks nDec }
      match st.env with
      | some env => some (if env.isRetry then reloadForRetry st else "", st)
      | none => some ("", st)
  | _ => none

def commandsParser (function : CommandFunction World) (headers : List String)
    (cmdIter : CommandIterator) (isStream : Bool) (st : TransferState World) :
    Bool × CommandIterator × TransferState World :=
  if cmdIter.check then
    match initCommandParser headers st with
    | none => (false, cmdIter, st)
    | some (retryCmd, st) =>
        let (ok, ct, st) :=
          parserLoop function isStream (cmdIter.lines.drop cmdIter.ct) cmdIter.ct retryCmd 0 st
        (ok, { cmdIter with ct }, st)
  else (false, cmdIter, st)

end

end Updater.ApplyPatch
