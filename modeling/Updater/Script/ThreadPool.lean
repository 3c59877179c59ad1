import Mathlib.Algebra.Group.Nat.Defs
import Updater.Base.Interleaving

/-! The scripts of a priority run by a pool of threads: `ScriptManagerImpl::ExecuteScript`
with the task that it adds, and `ThreadPool`. -/

set_option autoImplicit false

namespace Updater.Script

open Updater.Base

def uscriptSuccess : Int := 0

/-- The scripts of the priority, by the results of `ExtractAndExecuteScript`, and the number
of threads. -/
structure ScriptJob where
  codes : List Int
  threadNumber : Nat

/-- Where the thread in `ExecuteScript` is: at its beginning, in `AcquireWorkIndex`, at the
flags that `RunTask` sets and polls, before the task is made available, or behind it. -/
inductive CallerState where
  | called
  | acquiring
  | marking (i : Nat)
  | polling (i : Nat)
  | releasing
  | returned (code : Int)
  deriving DecidableEq, Repr

/-- Where a worker is: at the flag of its task, at the head of the loop of the processor, with
the result of a script, behind its store, behind a test that found a failure, before the store
to `retCode`, or at the end of the loop. -/
inductive WorkerState where
  | waiting
  | loop (i : Nat)
  | executed (i : Nat) (code : Int)
  | stored (i : Nat)
  | failed (i : Nat)
  | saving (i : Nat) (code : Int)
  | finished
  deriving DecidableEq, Repr

/-- The variables that the processor captures, the slot of the task, and the scripts that were
run. -/
structure PoolState where
  ret : Int := uscriptSuccess
  retCode : Int := uscriptSuccess
  available : Bool
  subTaskFlag : Nat → Bool := fun _ => false
  caller : CallerState := .called
  workers : Nat → WorkerState := fun _ => .waiting
  ran : List Nat := []

inductive Actor where
  | caller
  | worker (threadIndex : Nat)
  deriving DecidableEq, Repr

namespace ScriptJob

variable (job : ScriptJob)

/-- `static_cast<int32_t>` of the number of scripts. -/
def workSize : Int :=
  Int.bmod job.codes.length (2 ^ 32)

/-- The number of flags that `RunTask` sets. -/
def num : Nat :=
  (if job.workSize > job.threadNumber then (job.threadNumber : Int) else job.workSize).toNat

def stepCaller (st : PoolState) : PoolState :=
  match st.caller with
  | .called =>
      if job.codes = [] then { st with caller := .returned uscriptSuccess }
      else { st with caller := .acquiring }
  | .acquiring =>
      if st.available then { st with available := false, caller := .marking 0 }
      else { st with caller := .returned st.retCode }
  | .marking i =>
      if i < job.num then
        { st with
          subTaskFlag := Function.update st.subTaskFlag i true
          caller := .marking (i + 1) }
      else { st with caller := .polling 0 }
  | .polling i =>
      if i < job.num then
        if st.subTaskFlag i then { st with caller := .polling 0 }
        else { st with caller := .polling (i + 1) }
      else { st with caller := .releasing }
  | .releasing => { st with available := true, caller := .returned st.retCode }
  | .returned _ => st

/-- A worker goes on. -/
def moved (st : PoolState) (threadIndex : Nat) (worker : WorkerState) : PoolState :=
  { st with workers := Function.update st.workers threadIndex worker }

def stepWorker (threadIndex : Nat) (st : PoolState) : PoolState :=
  match st.workers threadIndex with
  | .waiting => if st.subTaskFlag threadIndex then moved st threadIndex (.loop threadIndex) else st
  | .loop i =>
      if inside : i < job.codes.length then
        moved { st with ran := st.ran ++ [i] } threadIndex (.executed i job.codes[i])
      else moved st threadIndex .finished
  | .executed i code => moved { st with ret := code } threadIndex (.stored i)
  | .stored i =>
      if st.ret ≠ uscriptSuccess then moved st threadIndex (.failed i)
      else moved st threadIndex (.loop (i + job.threadNumber))
  | .failed i => moved st threadIndex (.saving i st.ret)
  | .saving i code =>
      moved { st with retCode := code } threadIndex (.loop (i + job.threadNumber))
  | .finished =>
      moved { st with subTaskFlag := Function.update st.subTaskFlag threadIndex false } threadIndex
        .waiting

/-- A step of one of the threads. -/
def step : Actor → PoolState → PoolState
  | .caller, st => job.stepCaller st
  | .worker threadIndex, st =>
      if threadIndex < job.threadNumber then job.stepWorker threadIndex st else st

end ScriptJob

end Updater.Script
