import Updater.Base.Interleaving
import Updater.Base.TextLines
import Updater.Utils.MiscMessage

/-! The process that installs a package, and what its parent reads of it: the messages that several
threads post into one pipe, the loop of `HandlePipeMsg`, and the status of the installation. -/

set_option autoImplicit false

namespace Updater.UpdaterMain

open Utils
open Base (readLine)

def maxBufferSize : Nat := 512

def defaultProcessNum : Nat := 2

def subProcessResult : List Char := "subProcessResult".toList

def updaterRetryTag : List Char := "retry_update".toList

def trim (str : List Char) : List Char :=
  ((str.dropWhile isSpace).reverse.dropWhile isSpace).reverse

/-- The results of `StartUpdaterProc`. -/
inductive UpdaterStatus where
  | success
  | error
  | retry
  deriving DecidableEq, Repr

/-- A call of `PostMessage`. -/
structure Post where
  cmd : List Char
  content : List Char
  deriving DecidableEq, Repr

/-- The line that `ProcessUpdater` prints for it, without the line feed. -/
def Post.text (post : Post) : List Char :=
  post.cmd ++ ':' :: post.content

/-- The line at the end of `ProcessUpdater`, without the line feed. -/
def resultText (ret : Int) : List Char :=
  subProcessResult ++ ':' :: formatInt ret

/-- What the parent has been told: `HardwareFaultRetry::faultInfo_` and `binaryTids` among it. The
progress that is shown is kept as the text that it is computed from. -/
structure Parent where
  retryUpdate : Bool := false
  faultInfo : List Char := []
  binaryTids : List (List Char) := []
  logs : List (List Char) := []
  percentages : List (List Char) := []
  progress : List (List Char) := []
  deriving DecidableEq, Repr

/-- `HandleChildOutput`. -/
def handleChildOutput (buffer : List Char) (parent : Parent) : Parent :=
  match splitChars [':'] buffer with
  | header :: info :: _ =>
      let outputHeader := trim header
      if outputHeader = "write_log".toList then { parent with logs := parent.logs ++ [trim info] }
      else if outputHeader = updaterRetryTag then
        { parent with retryUpdate := true, faultInfo := trim info }
      else if outputHeader = "ui_log".toList then parent
      else if outputHeader = "show_progress".toList then
        if (splitChars [','] (trim info)).length = defaultProcessNum then
          { parent with percentages := parent.percentages ++ [trim info] }
        else parent
      else if outputHeader = "set_progress".toList then
        { parent with progress := parent.progress ++ [info] }
      else if outputHeader = "set_binary_tids".toList then
        { parent with binaryTids := splitChars [','] (trim info) }
      else parent
  | _ => parent

/-- The text of the buffer, cut at its last line feed. -/
def bufferText (buffer : List Char) : List Char :=
  let text := cString buffer
  if '\n' ∈ text then ((text.reverse.dropWhile (· ≠ '\n')).drop 1).reverse else text

/-- How the child has come to its end. -/
inductive WaitStatus where
  | exited (code : Nat)
  | signaled (signal : Nat)
  deriving DecidableEq, Repr

def sigsegv : Nat := 11

def sigpipe : Nat := 13

/-- `CheckProcStatus`. -/
def checkProcStatus (retryUpdate : Bool) (status : WaitStatus) : UpdaterStatus :=
  if retryUpdate then .retry
  else
    match status with
    | .exited code => if code = 0 then .success else .error
    | .signaled signal => if signal = sigsegv then .retry else .error

/-- The faults that the constructor of `HardwareFaultRetry` registers. -/
def retryMap : List (List Char) :=
  ["reboot_verify_failed".toList, "reboot_IO_failed".toList, "reboot_block_update_failed".toList]

/-- The child, the pipe, and the parent in its loop. -/
structure Session where
  -- what each thread of the child still posts
  threads : List (List Post)
  -- what was posted, with the threads
  posted : List (Nat × Post) := []
  -- what the child returns, once it has printed its result
  reported : Option Int := none
  ended : Option WaitStatus := none
  pipe : List Char := []
  reading : Bool := true
  parent : Parent := {}

namespace Session

/-- A write without a reader. -/
def broken (session : Session) : Session :=
  { session with ended := some (.signaled sigpipe) }

/-- `PostMessage`: one line at a time, under the lock. -/
def post (session : Session) (thread : Nat) : Session :=
  match session.ended, session.reported, session.threads[thread]? with
  | none, none, some (message :: later) =>
      if session.reading then
        { session with
          threads := session.threads.set thread later
          posted := session.posted ++ [(thread, message)]
          pipe := session.pipe ++ message.text ++ ['\n'] }
      else session.broken
  | _, _, _ => session

/-- The scope guard of `ProcessUpdater`, when the threads are done. Some of its returns give back
another code than the result that is printed. -/
def report (session : Session) (ret code : Int) : Session :=
  match session.ended, session.reported with
  | none, none =>
      if session.threads.flatten = [] then
        if session.reading then
          { session with
            reported := some code
            pipe := session.pipe ++ resultText ret ++ ['\n'] }
        else session.broken
      else session
  | _, _ => session

/-- The child returns; `WEXITSTATUS` is the low byte of the code. -/
def exit (session : Session) : Session :=
  match session.ended, session.reported with
  | none, some code => { session with ended := some (.exited (code % 256).toNat) }
  | _, _ => session

def kill (session : Session) (signal : Nat) : Session :=
  match session.ended with
  | none => { session with ended := some (.signaled signal) }
  | some _ => session

/-- One turn of the loop of `HandlePipeMsg`, when `fgets` does not wait. -/
def read (session : Session) : Session :=
  if session.reading then
    if session.pipe = [] then
      if session.ended.isSome then { session with reading := false } else session
    else if session.ended.isSome ∨ '\n' ∈ session.pipe.take (maxBufferSize - 2) ∨
        maxBufferSize - 2 ≤ session.pipe.length then
      let (buffer, pipe) := readLine '\n' (maxBufferSize - 2) session.pipe
      let text := bufferText buffer
      if find subProcessResult text ≠ none then { session with pipe, reading := false }
      else { session with pipe, parent := handleChildOutput text session.parent }
    else session
  else session

/-- What `StartUpdaterProc` returns, when the loop is left and the child has ended. -/
def status (session : Session) : Option UpdaterStatus :=
  if session.reading then none
  else session.ended.map (checkProcStatus session.parent.retryUpdate)

/-- `DoRetryAction` finds what to do. -/
def retries (session : Session) : Prop :=
  session.status = some .retry ∧ session.parent.faultInfo ∈ retryMap

end Session

/-- The steps of the two processes. -/
inductive Action where
  | post (thread : Nat)
  | report (ret code : Int)
  | exit
  | kill (signal : Nat)
  | read
  deriving DecidableEq, Repr

def Session.step (action : Action) (session : Session) : Session :=
  match action with
  | .post thread => session.post thread
  | .report ret code => session.report ret code
  | .exit => session.exit
  | .kill signal => session.kill signal
  | .read => session.read

end Updater.UpdaterMain
