import Updater.Utils.Text

/-! One line of a transfer list: its command word, its tokens and the kind of
command function that executes it. -/

set_option autoImplicit false

namespace Updater.ApplyPatch

open Updater.Utils

inductive CommandType where
  | abort
  | bsdiff
  | imgdiff
  | erase
  | free
  | move
  | new
  | stash
  | zero
  | copy
  | last
  deriving DecidableEq, Repr

/-- Result of a command function. Other integers can only arise from a cast and
take the `default` branch of `CheckResult`. -/
inductive CommandResult where
  | failed
  | success
  | needRetry
  | other (code : Int)
  deriving DecidableEq, Repr

structure Command where
  type : CommandType
  cmdhead : String
  cmdLine : String
  tokens : List String
  isStreamCmd : Bool
  deriving DecidableEq, Repr

def parseCommandType (firstCmd : String) : CommandType :=
  if firstCmd = "abort" then .abort
  else if firstCmd = "bsdiff" then .bsdiff
  else if firstCmd = "erase" then .erase
  else if firstCmd = "free" then .free
  else if firstCmd = "pkgdiff" then .imgdiff
  else if firstCmd = "move" then .move
  else if firstCmd = "new" then .new
  else if firstCmd = "stash" then .stash
  else if firstCmd = "zero" then .zero
  else if firstCmd = "copy" then .copy
  else .last

/-- `Command::Init`; an empty line is the only rejected one. -/
def Command.init (cmdLine : String) (isStreamCmd : Bool) : Option Command :=
  if cmdLine = "" then none
  else
    let tokens := splitString cmdLine " "
    let cmdhead := tokens.headD ""
    some { type := parseCommandType cmdhead, cmdhead, cmdLine, tokens, isStreamCmd }

def Command.getArgumentByPos (cmd : Command) (pos : Nat) : String :=
  cmd.tokens.getD pos ""

theorem Command.init_cmdLine {line : String} {isStream : Bool} {cmd : Command}
    (parsed : Command.init line isStream = some cmd) : cmd.cmdLine = line := by
  simp only [Command.init] at parsed
  split at parsed
  · cases parsed
  · cases parsed; rfl

theorem Command.init_cmdhead {line : String} {isStream : Bool} {cmd : Command}
    (parsed : Command.init line isStream = some cmd) :
    cmd.cmdhead = (splitString line " ").headD "" := by
  simp only [Command.init] at parsed
  split at parsed
  · cases parsed
  · cases parsed; rfl

theorem Command.init_type {line : String} {isStream : Bool} {cmd : Command}
    (parsed : Command.init line isStream = some cmd) : cmd.type = parseCommandType cmd.cmdhead := by
  simp only [Command.init] at parsed
  split at parsed
  · cases parsed
  · cases parsed; rfl

theorem Command.init_eq_none_iff {line : String} {isStream : Bool} :
    Command.init line isStream = none ↔ line = "" := by
  simp [Command.init]

/-- Heads registered by `RegistBlockUpdateCommandFunction`. -/
def registeredHeads : List String :=
  ["abort", "bsdiff", "new", "pkgdiff", "zero", "erase", "free", "move", "stash", "copy"]

end Updater.ApplyPatch
