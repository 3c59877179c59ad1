import Mathlib.Data.List.ReduceOption
import Updater.Base.BoundedQueue
import Updater.Utils.Securec

/-! `RingBuffer`: a producer calling `Push`, a consumer calling `Pop`, and `Stop`
from anywhere, interleaved at the granularity of the two mutexes. -/

set_option autoImplicit false

namespace Updater.Common

open Updater.Base Updater.Utils

/-- The members that `arrayMtx_` guards, and the stop flag. -/
structure RingBuffer where
  writeIndex : Nat
  readIndex : Nat
  singleSize : Nat
  num : Nat
  bufArray : List Bytes
  lenArray : List Nat
  isStop : Bool
  deriving DecidableEq, Repr

def RingBuffer.init (singleSize num : Nat) : Option RingBuffer :=
  if singleSize = 0 ∨ num = 0 ∨ num &&& (num - 1) ≠ 0 then none
  else some {
    writeIndex := 0
    readIndex := 0
    singleSize
    num
    bufArray := List.replicate num (List.replicate singleSize 0)
    lenArray := List.replicate num 0
    isStop := false }

/-- Indices run over twice the number of slots; half a turn apart means full. -/
def RingBuffer.isFull (ring : RingBuffer) : Bool :=
  decide (ring.writeIndex = ring.readIndex ^^^ ring.num)

def RingBuffer.isEmpty (ring : RingBuffer) : Bool :=
  decide (ring.writeIndex = ring.readIndex)

/-- An item: the bytes and the length stored beside them. -/
structure Item where
  bytes : Bytes
  len : Nat
  deriving DecidableEq, Repr

/-- What a `Pop` would hand out of the slot at `index`. -/
def RingBuffer.slot (ring : RingBuffer) (index : Nat) : Item where
  bytes := (ring.bufArray.getD index []).take (ring.lenArray.getD index 0)
  len := ring.lenArray.getD index 0

/-- The locked block of `Push`. -/
def RingBuffer.copyIn (ring : RingBuffer) (buf : Bytes) : Option RingBuffer :=
  let index := ring.writeIndex &&& (ring.num - 1)
  match memcpyS (ring.bufArray.getD index []) ring.singleSize buf with
  | none => none
  | some copied => some { ring with
      bufArray := ring.bufArray.set index copied
      lenArray := ring.lenArray.set index buf.length
      writeIndex := (ring.writeIndex + 1) &&& (2 * ring.num - 1) }

/-- The locked block of `Pop` into a buffer of `maxLen` bytes. -/
def RingBuffer.copyOut (ring : RingBuffer) (maxLen : Nat) : Option (Item × RingBuffer) :=
  let index := ring.readIndex &&& (ring.num - 1)
  let item := ring.slot index
  match memcpyS [] maxLen item.bytes with
  | none => none
  | some bytes => some (⟨bytes, item.len⟩, { ring with
      readIndex := (ring.readIndex + 1) &&& (2 * ring.num - 1) })

inductive Thread where
  | producer
  | consumer
  deriving DecidableEq, Repr

/-- Where a call stands. `test` is the check before any lock is taken, `lock` and
`wait` are about to acquire `notifyMtx_`, `recheck` and `checkStop` hold it, and
`notify` has moved `item` already. -/
inductive CallStage (Argument : Type) where
  | idle
  | test (argument : Argument)
  | lock (argument : Argument)
  | recheck (argument : Argument)
  | checkStop (argument : Argument)
  | wait (argument : Argument)
  | copy (argument : Argument)
  | notify (item : Item)
  deriving DecidableEq, Repr

/-- The ring, the call each thread is in, the owner of `notifyMtx_`, and what the
finished calls returned: `some` item for true. -/
structure PipeState where
  ring : RingBuffer
  notifyMtx : Option Thread
  push : CallStage Bytes
  pop : CallStage Nat
  pushReturns : List (Option Item)
  popReturns : List (Option Item)
  deriving DecidableEq, Repr

def PipeState.start (ring : RingBuffer) : PipeState where
  ring
  notifyMtx := none
  push := .idle
  pop := .idle
  pushReturns := []
  popReturns := []

def PipeState.pushReturn (st : PipeState) (returned : Option Item) : PipeState :=
  { st with push := .idle, pushReturns := st.pushReturns ++ [returned] }

def PipeState.popReturn (st : PipeState) (returned : Option Item) : PipeState :=
  { st with pop := .idle, popReturns := st.popReturns ++ [returned] }

def PipeState.pushStep (st : PipeState) : Option PipeState :=
  match st.push with
  | .idle => none
  | .test buf => some { st with push := if st.ring.isFull then .lock buf else .copy buf }
  | .lock buf | .wait buf =>
      if st.notifyMtx = none then
        some { st with notifyMtx := some .producer, push := .recheck buf }
      else none
  | .recheck buf =>
      if st.ring.isFull then some { st with push := .checkStop buf }
      else some { st with notifyMtx := none, push := .copy buf }
  | .checkStop buf =>
      if st.ring.isStop then some ({ st with notifyMtx := none }.pushReturn none)
      else some { st with notifyMtx := none, push := .wait buf }
  | .copy buf =>
      match st.ring.copyIn buf with
      | none => some (st.pushReturn none)
      | some ring => some { st with ring, push := .notify ⟨buf, buf.length⟩ }
  | .notify item => if st.notifyMtx = none then some (st.pushReturn (some item)) else none

def PipeState.popStep (st : PipeState) : Option PipeState :=
  match st.pop with
  | .idle => none
  | .test maxLen => some { st with pop := if st.ring.isEmpty then .lock maxLen else .copy maxLen }
  | .lock maxLen | .wait maxLen =>
      if st.notifyMtx = none then
        some { st with notifyMtx := some .consumer, pop := .recheck maxLen }
      else none
  | .recheck maxLen =>
      if st.ring.isEmpty then some { st with pop := .checkStop maxLen }
      else some { st with notifyMtx := none, pop := .copy maxLen }
  | .checkStop maxLen =>
      if st.ring.isStop then some ({ st with notifyMtx := none }.popReturn none)
      else some { st with notifyMtx := none, pop := .wait maxLen }
  | .copy maxLen =>
      match st.ring.copyOut maxLen with
      | none => some (st.popReturn none)
      | some (item, ring) => some { st with ring, pop := .notify item }
  | .notify item => if st.notifyMtx = none then some (st.popReturn (some item)) else none

inductive PipeAction where
  | callPush (buf : Bytes)
  | pushStep
  | callPop (maxLen : Nat)
  | popStep
  | stop
  deriving DecidableEq, Repr

/-- One atomic step; `none` when it cannot be taken now. `StopPush` and `StopPop`
are the same step on this state, and a waiting call may wake at any time. -/
def PipeState.step (st : PipeState) : PipeAction → Option PipeState
  | .callPush buf =>
      if st.push ≠ .idle then none
      else if buf.length = 0 ∨ st.ring.singleSize < buf.length then some (st.pushReturn none)
      else some { st with push := .test buf }
  | .pushStep => st.pushStep
  | .callPop maxLen => if st.pop ≠ .idle then none else some { st with pop := .test maxLen }
  | .popStep => st.popStep
  | .stop =>
      if st.notifyMtx = none then some { st with ring := { st.ring with isStop := true } } else none

/-- The item a call has moved but not yet returned. -/
def CallStage.moved {Argument : Type} : CallStage Argument → List Item
  | .notify item => [item]
  | .idle | .test _ | .lock _ | .recheck _ | .checkStop _ | .wait _ | .copy _ => []

/-- Items of the pushes that succeeded, in order. -/
def PipeState.accepted (st : PipeState) : List Item :=
  st.pushReturns.reduceOption ++ st.push.moved

def PipeState.delivered (st : PipeState) : List Item :=
  st.popReturns.reduceOption ++ st.pop.moved

end Updater.Common
