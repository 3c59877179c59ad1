import Updater.ApplyPatch.BlockWriter

/-! NEW commands and the thread that unpacks `new.dat`: `NewCommandFn::Execute` leaves a
writer, and `ExtractNewData` writes to it what it is called with. -/

set_option autoImplicit false

namespace Updater.ApplyPatch

open Updater.Base

/-- Where the thread of the commands is; a wait is `signalled` once it may go on. -/
inductive CommandState where
  | ready
  | waiting (blocks : BlockSet) (signalled : Bool)
  | failing (blocks : BlockSet)
  | joined
  deriving DecidableEq, Repr

/-- Where the unpacking thread is: between calls of `ExtractNewData`, at the head of its
loop, in its wait, before `Write`, before it takes the writer away, or at its end. -/
inductive ExtractState where
  | returned
  | loop
  | waiting (signalled : Bool)
  | writing
  | finishing
  | ending
  | ended
  deriving DecidableEq, Repr

/-- A broadcast reaches a thread that waits. -/
def CommandState.signal : CommandState → CommandState
  | .waiting blocks _ => .waiting blocks true
  | other => other

def ExtractState.signal : ExtractState → ExtractState
  | .waiting _ => .waiting true
  | other => other

/-- `WriterThreadInfo` with what the threads keep: the commands to come, the results of
those before, the chunks to come and what is left of the present one. -/
structure NewDataState where
  offset : Nat
  device : BlockDevice
  commands : List BlockSet
  chunks : List Bytes
  writer : Option BlockWriter := none
  readyToWrite : Bool := true
  command : CommandState := .ready
  results : List (BlockSet × Bool) := []
  rest : Bytes := []
  extract : ExtractState := .returned

namespace NewDataState

/-- `pthread_cond_broadcast`. -/
def broadcast (st : NewDataState) : NewDataState :=
  { st with command := st.command.signal, extract := st.extract.signal }

/-- The loop of `Execute` while it holds the mutex. -/
def checkWriter (st : NewDataState) (blocks : BlockSet) : NewDataState :=
  match st.writer with
  | none => { st with results := st.results ++ [(blocks, true)], command := .ready }
  | some _ =>
      if st.readyToWrite then { st with command := .waiting blocks false }
      else { st with command := .failing blocks }

/-- A step of the commands' thread; behind the last command is `JoinThread`. -/
def commandStep (st : NewDataState) : Option NewDataState :=
  match st.command with
  | .ready =>
      match st.commands with
      | [] => some ({ st with readyToWrite := false, command := .joined } : NewDataState).broadcast
      | blocks :: commands =>
          some (({ st with
            commands
            writer := some { blocks, offset := st.offset } } : NewDataState).broadcast.checkWriter
              blocks)
  | .waiting blocks true => some (st.checkWriter blocks)
  | .waiting _ false => none
  | .failing blocks =>
      some { st with
        writer := none
        results := st.results ++ [(blocks, false)]
        command := .ready }
  | .joined => none

/-- The inner loop of `ExtractNewData` while it holds the mutex. -/
def lookForWriter (st : NewDataState) : NewDataState :=
  match st.writer with
  | none =>
      if st.readyToWrite then { st with extract := .waiting false }
      else { st with extract := .ending }
  | some _ => { st with extract := .writing }

/-- `Write` of what fits the writer; if nothing does, the call returns with success. -/
def writeRest (st : NewDataState) (writer : BlockWriter) : NewDataState :=
  let toWrite := min st.rest.length (BlockSet.blocksSize writer.blocks - writer.totalWritten)
  if toWrite = 0 then { st with rest := [], extract := .returned }
  else
    match writer.write st.device (st.rest.take toWrite) with
    | (false, writer, device, left) =>
        { st with
          writer := some writer
          device
          rest := left ++ st.rest.drop toWrite
          extract := .ending }
    | (true, writer, device, _) =>
        { st with
          writer := some writer
          device
          rest := st.rest.drop toWrite
          extract := if writer.isWriteDone then .finishing else .loop }

/-- A step of the unpacking thread: `ExtractFile` goes on to the next chunk while
`ExtractNewData` succeeds, and `UnpackNewData` ends with `CondBroadcast`. -/
def extractStep (st : NewDataState) : Option NewDataState :=
  match st.extract with
  | .returned =>
      match st.chunks with
      | [] => some { st with extract := .ending }
      | chunk :: chunks => some { st with rest := chunk, chunks, extract := .loop }
  | .loop => if st.rest = [] then some { st with extract := .returned } else some st.lookForWriter
  | .waiting true => some st.lookForWriter
  | .waiting false => none
  | .writing => st.writer.map st.writeRest
  | .finishing => some ({ st with writer := none, extract := .loop } : NewDataState).broadcast
  | .ending =>
      let st := { st with readyToWrite := false, extract := .ended }
      if st.writer.isSome then some st.broadcast else some st
  | .ended => none

/-- Whose turn it is; a wait may also end by itself. -/
inductive Event where
  | command
  | extract
  | wakeCommand
  | wakeExtract
  deriving DecidableEq, Repr

def step (st : NewDataState) : Event → Option NewDataState
  | .command => st.commandStep
  | .extract => st.extractStep
  | .wakeCommand => some { st with command := st.command.signal }
  | .wakeExtract => some { st with extract := st.extract.signal }

def run (st : NewDataState) : List Event → Option NewDataState
  | [] => some st
  | event :: events => (st.step event).bind fun next => next.run events

end NewDataState

end Updater.ApplyPatch
