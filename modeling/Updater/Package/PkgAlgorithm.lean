import Updater.Base.TurnLoop
import Updater.Package.PkgSign
import Updater.Package.PkgStream
import Updater.Package.ZipPkgUnpack

/-! `PkgAlgorithm::Pack`, `Unpack` and `UnpackWithVerify`: the copying loop with its reads,
checks and writes. -/

set_option autoImplicit false

namespace Updater.Package

open Updater.Base

/-- `PkgAlgorithmContext`; its offsets and sizes are of 64 bits. -/
structure PkgAlgorithmContext where
  srcOffset : Nat
  destOffset : Nat
  packedSize : Nat
  unpackedSize : Nat
  crc : Nat
  digestMethod : Nat
  digest : Bytes
  srcSmall : srcOffset < 2 ^ 64
  destSmall : destOffset < 2 ^ 64
  packedSmall : packedSize < 2 ^ 64
  unpackedSmall : unpackedSize < 2 ^ 64

theorem zero_small : 0 < 2 ^ 64 := by decide

theorem one_small : 1 < 2 ^ 64 := by decide

/-- What a copying loop does, in order: it reads some bytes or fails to, has them checked,
writes them. -/
inductive CopyEvent where
  | read (srcOffset needRead : Nat) (bytes : Option Bytes)
  | verify (bytes : Bytes) (destOffset : Nat) (accepted : Bool)
  | write (bytes : Bytes) (destOffset : Nat) (accepted : Bool)
  deriving DecidableEq, Repr

def CopyEvent.Failed : CopyEvent → Prop
  | .read _ _ bytes => bytes = none
  | .verify _ _ accepted => accepted = false
  | .write _ _ accepted => accepted = false

/-- How the verifier, if there is one, and the stream that is written to answer at a turn
of the loop. -/
structure CopyCalls where
  verify : Option (Nat → Bytes → Nat → Bool)
  write : Nat → Bytes → Nat → Bool

structure CopyState where
  source : SourceStream
  srcOffset : Nat
  destOffset : Nat
  remainSize : Nat
  turn : Nat
  updated : Bytes
  log : List CopyEvent

section

variable (calls : CopyCalls)

namespace CopyCalls

/-- The call of the verifier, where there is one. -/
def verified (turn : Nat) (bytes : Bytes) (destOffset : Nat) : List CopyEvent × Bool :=
  match calls.verify with
  | none => ([], true)
  | some verify =>
      ([.verify bytes destOffset (verify turn bytes destOffset)], verify turn bytes destOffset)

end CopyCalls

/-- One turn of the loop of `PkgAlgorithm`. -/
def copyTurn (st : CopyState) : Turn CopyState :=
  let needRead := min st.remainSize maxBufferSize
  match st.source.readData st.srcOffset maxBufferSize st.remainSize with
  | .blocked => .blocked
  | .failed => .broke { st with log := st.log ++ [.read st.srcOffset needRead none] }
  | .given bytes source =>
      let read : CopyEvent := .read st.srcOffset needRead (some bytes)
      let (checks, accepted) := calls.verified st.turn bytes st.destOffset
      if ¬ accepted then
        .broke { st with
          source
          remainSize := st.remainSize - bytes.length
          log := st.log ++ read :: checks }
      else
        let written := calls.write st.turn bytes st.destOffset
        let log := st.log ++ read :: checks ++ [.write bytes st.destOffset written]
        if ¬ written then
          .broke { st with source, remainSize := st.remainSize - bytes.length, log }
        else
          .went {
            source
            srcOffset := size64 (st.srcOffset + bytes.length)
            destOffset := size64 (st.destOffset + bytes.length)
            remainSize := st.remainSize - bytes.length
            turn := st.turn + 1
            updated := st.updated ++ bytes
            log }

/-- The loop of `PkgAlgorithm`, for so many turns at most; gives the state in which it is
left. -/
def copyLoop : Nat → CopyState → Option CopyState
  | 0, _ => none
  | fuel + 1, st =>
      if st.remainSize = 0 then some st
      else
        match copyTurn calls st with
        | .blocked => none
        | .broke st => some st
        | .went st => copyLoop fuel st

/-- The loop begins to copy so many bytes. -/
def copyStart (source : SourceStream) (context : PkgAlgorithmContext) (size : Nat) : CopyState where
  source
  srcOffset := context.srcOffset
  destOffset := context.destOffset
  remainSize := size
  turn := 0
  updated := []
  log := []

/-- What a copy returns, what it has done, and the context it leaves. -/
structure Copied where
  ret : Int
  log : List CopyEvent
  context : PkgAlgorithmContext

variable (sha256 : Bytes → Bytes)

/-- `FinalDigest` with `check` set. -/
def finalDigest (context : PkgAlgorithmContext) (updated : Bytes) : Int :=
  if context.digestMethod = pkgDigestTypeSha256 ∧ sha256 updated ≠ context.digest then
    pkgInvalidDigest
  else pkgSuccess

/-- `PkgAlgorithm::Pack`. -/
def pack (fuel : Nat) (source : SourceStream) (context : PkgAlgorithmContext) : Option Copied :=
  (copyLoop { calls with verify := none } fuel
      (copyStart source context context.unpackedSize)).map fun st =>
    let ret := finalDigest sha256 context st.updated
    if ret ≠ 0 then ⟨ret, st.log, context⟩
    else if sub64 st.srcOffset context.srcOffset ≠ context.unpackedSize then
      ⟨pkgInvalidDigest, st.log, context⟩
    else ⟨ret, st.log, { context with
      packedSize := sub64 st.destOffset context.destOffset
      packedSmall := Nat.mod_lt _ (by decide) }⟩

/-- `PkgAlgorithm::UnpackWithVerify`. -/
def unpackWithVerify (fuel : Nat) (source : SourceStream) (context : PkgAlgorithmContext) :
    Option Copied :=
  (copyLoop calls fuel (copyStart source context context.packedSize)).map fun st =>
    let ret := finalDigest sha256 context st.updated
    if ret ≠ 0 then ⟨ret, st.log, context⟩
    else if sub64 st.destOffset context.destOffset ≠ context.packedSize then
      ⟨pkgInvalidDigest, st.log, context⟩
    else ⟨ret, st.log, { context with
      unpackedSize := sub64 st.srcOffset context.srcOffset
      unpackedSmall := Nat.mod_lt _ (by decide) }⟩

/-- `PkgAlgorithm::Unpack`. -/
def unpack (fuel : Nat) (source : SourceStream) (context : PkgAlgorithmContext) :
    Option Copied :=
  unpackWithVerify { calls with verify := none } sha256 fuel source context

end

section

variable {calls : CopyCalls} {st st' : CopyState}

/-- The calls of a turn that goes on. -/
theorem copyTurn_went (turn : copyTurn calls st = .went st') :
    ∃ bytes source,
      st.source.readData st.srcOffset maxBufferSize st.remainSize = .given bytes source ∧
      (calls.verified st.turn bytes st.destOffset).2 = true ∧
      calls.write st.turn bytes st.destOffset = true ∧
      st' = {
        source
        srcOffset := size64 (st.srcOffset + bytes.length)
        destOffset := size64 (st.destOffset + bytes.length)
        remainSize := st.remainSize - bytes.length
        turn := st.turn + 1
        updated := st.updated ++ bytes
        log := st.log ++
          .read st.srcOffset (min st.remainSize maxBufferSize) (some bytes) ::
            (calls.verified st.turn bytes st.destOffset).1 ++ [.write bytes st.destOffset true] } := by
  rw [copyTurn] at turn
  cases read : st.source.readData st.srcOffset maxBufferSize st.remainSize with
  | failed =>
      simp only [read] at turn
      cases turn
  | blocked =>
      simp only [read] at turn
      cases turn
  | given bytes source =>
      simp only [read] at turn
      split at turn
      · cases turn
      rename_i accepted
      split at turn
      · cases turn
      rename_i written
      rw [not_not] at accepted written
      cases turn
      rw [written]
      exact ⟨bytes, source, rfl, accepted, written, rfl⟩

/-- The events of a turn that breaks off: the last one has failed. -/
inductive BrokenEvents (calls : CopyCalls) (st : CopyState) : List CopyEvent → Prop
  | read : BrokenEvents calls st [.read st.srcOffset (min st.remainSize maxBufferSize) none]
  | verify {bytes : Bytes} {verify : Nat → Bytes → Nat → Bool} :
      calls.verify = some verify → BrokenEvents calls st [
        .read st.srcOffset (min st.remainSize maxBufferSize) (some bytes),
        .verify bytes st.destOffset false]
  | write {bytes : Bytes} :
      (calls.verified st.turn bytes st.destOffset).2 = true → BrokenEvents calls st
        (.read st.srcOffset (min st.remainSize maxBufferSize) (some bytes) ::
          (calls.verified st.turn bytes st.destOffset).1 ++ [.write bytes st.destOffset false])

theorem copyTurn_broke (turn : copyTurn calls st = .broke st') :
    st'.updated = st.updated ∧ st'.srcOffset = st.srcOffset ∧ st'.destOffset = st.destOffset ∧
      ∃ events, st'.log = st.log ++ events ∧ BrokenEvents calls st events := by
  rw [copyTurn] at turn
  cases read : st.source.readData st.srcOffset maxBufferSize st.remainSize with
  | failed =>
      simp only [read] at turn
      cases turn
      exact ⟨rfl, rfl, rfl, _, rfl, .read⟩
  | blocked =>
      simp only [read] at turn
      cases turn
  | given bytes source =>
      simp only [read] at turn
      split at turn
      · rename_i refused
        cases turn
        rw [CopyCalls.verified] at refused ⊢
        cases verifier : calls.verify with
        | none =>
            simp only [verifier] at refused
            exact absurd trivial refused
        | some verify =>
            simp only [verifier, Bool.not_eq_true] at refused
            refine ⟨rfl, rfl, rfl, _, rfl, ?_⟩
            dsimp only
            rw [refused]
            exact .verify verifier
      rename_i accepted
      split at turn
      · rename_i refused
        rw [not_not] at accepted
        rw [Bool.not_eq_true] at refused
        cases turn
        rw [refused, List.append_assoc]
        exact ⟨rfl, rfl, rfl, _, rfl, .write accepted⟩
      · cases turn

end

end Updater.Package
