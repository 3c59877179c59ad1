import Updater.Package.PkgAlgorithm

/-! `UnpackWithVerify` is all or failure: what it has written when it succeeds, and what it
does behind a call that fails. -/

set_option autoImplicit false

namespace Updater.Package

open Updater.Base

theorem size64_add (value more : Nat) : size64 (size64 value + more) = size64 (value + more) := by
  rw [size64, size64, size64, Nat.mod_add_mod]

theorem sub64_add {value more : Nat} (small : value < 2 ^ 64) (fits : more < 2 ^ 64) :
    sub64 (size64 (value + more)) value = more := by
  rw [sub64, size64]
  omega

/-- What the accepted writes of a log have written. -/
def written (log : List CopyEvent) : Bytes :=
  log.flatMap fun event =>
    match event with
    | .write bytes _ true => bytes
    | _ => []

/-- Before each write the verifier has accepted the same bytes at the same offset. -/
def WritesVerified (log : List CopyEvent) : Prop :=
  ∀ i bytes destOffset accepted, log[i]? = some (.write bytes destOffset accepted) →
    ∃ j, i = j + 1 ∧ log[j]? = some (.verify bytes destOffset true)

/-- Each write goes to the offset behind what was written before it. -/
def WritesPlaced (destOffset : Nat) (log : List CopyEvent) : Prop :=
  ∀ i bytes offset accepted, log[i]? = some (.write bytes offset accepted) →
    offset = size64 (destOffset + (written (log.take i)).length)

/-- Nothing follows on a call that has failed. -/
def FailureLast (log : List CopyEvent) : Prop :=
  ∀ i event, log[i]? = some event → event.Failed → i + 1 = log.length

@[simp] theorem written_append (log events : List CopyEvent) :
    written (log ++ events) = written log ++ written events := by
  rw [written, written, written, List.flatMap_append]

theorem WritesVerified.append {log events : List CopyEvent} (before : WritesVerified log)
    (after : WritesVerified events) : WritesVerified (log ++ events) := by
  intro i bytes destOffset accepted found
  rcases Nat.lt_or_ge i log.length with inside | behind
  · rw [List.getElem?_append_left inside] at found
    obtain ⟨j, rfl, checked⟩ := before i bytes destOffset accepted found
    exact ⟨j, rfl, by rw [List.getElem?_append_left (by omega), checked]⟩
  · rw [List.getElem?_append_right behind] at found
    obtain ⟨j, index, checked⟩ := after _ bytes destOffset accepted found
    refine ⟨log.length + j, by omega, ?_⟩
    rw [List.getElem?_append_right (Nat.le_add_right _ _), Nat.add_sub_cancel_left, checked]

theorem WritesPlaced.append {log events : List CopyEvent} {destOffset : Nat}
    (before : WritesPlaced destOffset log)
    (after : WritesPlaced (size64 (destOffset + (written log).length)) events) :
    WritesPlaced destOffset (log ++ events) := by
  intro i bytes offset accepted found
  rcases Nat.lt_or_ge i log.length with inside | behind
  · rw [List.getElem?_append_left inside] at found
    rw [List.take_append_of_le_length (Nat.le_of_lt inside)]
    exact before i bytes offset accepted found
  · rw [List.getElem?_append_right behind] at found
    rw [after _ bytes offset accepted found, size64_add, List.take_append,
      List.take_of_length_le behind, written_append, List.length_append, Nat.add_assoc]

theorem FailureLast.append {log events : List CopyEvent} (before : ∀ event ∈ log, ¬ event.Failed)
    (after : FailureLast events) : FailureLast (log ++ events) := by
  intro i event found failed
  rcases Nat.lt_or_ge i log.length with inside | behind
  · rw [List.getElem?_append_left inside] at found
    exact absurd failed (before event (List.mem_of_getElem? found))
  · rw [List.getElem?_append_right behind] at found
    have last := after _ event found failed
    rw [List.length_append]
    omega

theorem FailureLast.of_accepted {log : List CopyEvent} (accepted : ∀ event ∈ log, ¬ event.Failed) :
    FailureLast log :=
  fun _ event found failed => absurd failed (accepted event (List.mem_of_getElem? found))

section

variable {calls : CopyCalls} {source : SourceStream} {context : PkgAlgorithmContext} {size : Nat}

/-- The loop before a turn: what was written so far are the next bytes of the source, each
chunk was verified, nothing has failed. -/
structure Copying (calls : CopyCalls) (source : SourceStream) (context : PkgAlgorithmContext)
    (size : Nat) (st : CopyState) : Prop where
  gives : source.Gives context.srcOffset st.updated st.source
  src : st.srcOffset = context.srcOffset + st.updated.length
  dest : st.destOffset = size64 (context.destOffset + st.updated.length)
  remain : st.updated.length + st.remainSize = size
  written : written st.log = st.updated
  accepted : ∀ event ∈ st.log, ¬ event.Failed
  placed : WritesPlaced context.destOffset st.log
  verified : calls.verify.isSome = true → WritesVerified st.log

theorem copying_start : Copying calls source context size (copyStart source context size) where
  gives := SourceStream.Gives.refl source _
  src := rfl
  dest := (Nat.mod_eq_of_lt context.destSmall).symm
  remain := Nat.zero_add size
  written := rfl
  accepted := fun event member => by cases member
  placed := fun i bytes offset accepted found => by cases found
  verified := fun _ i bytes offset accepted found => by cases found

/-- A turn that gets to its write puts it where the loop stands. -/
theorem turnEvents_placed (read : CopyEvent) (turn destOffset : Nat) (bytes : Bytes)
    (accepted : Bool) (reads : ∀ bytes offset accepted, read ≠ .write bytes offset accepted)
    (small : destOffset < 2 ^ 64) :
    WritesPlaced destOffset (read :: (calls.verified turn bytes destOffset).1 ++
      [.write bytes destOffset accepted]) := by
  have same : destOffset = size64 (destOffset + 0) := (Nat.mod_eq_of_lt small).symm
  have first (tail : List CopyEvent) : written (read :: tail) = written tail := by
    cases read with
    | read src count bytes => rfl
    | verify bytes offset accepted => rfl
    | write bytes offset accepted => exact absurd rfl (reads bytes offset accepted)
  intro i bytes' offset accepted' found
  cases verifier : calls.verify with
  | none =>
      simp only [CopyCalls.verified, verifier] at found ⊢
      rcases i with _ | _ | i
      · cases found
        exact absurd rfl (reads _ _ _)
      · cases found
        rw [List.cons_append, List.take_succ_cons, first]
        exact same
      · cases found
  | some verify =>
      simp only [CopyCalls.verified, verifier] at found ⊢
      rcases i with _ | _ | _ | i
      · cases found
        exact absurd rfl (reads _ _ _)
      · cases found
      · cases found
        rw [List.cons_append, List.take_succ_cons, first]
        exact same
      · cases found

/-- A turn that gets to its write had the verifier accept just before. -/
theorem turnEvents_verified (read : CopyEvent) (turn destOffset : Nat) (bytes : Bytes)
    (accepted : Bool) (reads : ∀ bytes offset accepted, read ≠ .write bytes offset accepted)
    (verifying : calls.verify.isSome = true)
    (checked : (calls.verified turn bytes destOffset).2 = true) :
    WritesVerified (read :: (calls.verified turn bytes destOffset).1 ++
      [.write bytes destOffset accepted]) := by
  obtain ⟨verify, verifier⟩ := Option.isSome_iff_exists.mp verifying
  simp only [CopyCalls.verified, verifier] at checked ⊢
  intro i bytes' offset accepted' found
  rcases i with _ | _ | _ | i
  · cases found
    exact absurd rfl (reads _ _ _)
  · cases found
  · cases found
    exact ⟨1, rfl, by rw [checked]; rfl⟩
  · cases found

/-- What comes before the write of a turn has not failed. -/
theorem turnChecks_accepted {turn destOffset src count : Nat} {bytes : Bytes}
    (checked : (calls.verified turn bytes destOffset).2 = true) :
    ∀ event ∈ CopyEvent.read src count (some bytes) ::
      (calls.verified turn bytes destOffset).1, ¬ event.Failed := by
  intro event member
  rw [List.mem_cons] at member
  rcases member with rfl | check
  · exact fun failed => by cases failed
  · rw [CopyCalls.verified] at checked check
    cases verifier : calls.verify with
    | none =>
        simp only [verifier] at check
        cases check
    | some verify =>
        simp only [verifier] at checked check
        rw [List.mem_singleton] at check
        subst check
        rw [checked]
        exact fun failed => by cases failed

theorem failureLast_singleton (event : CopyEvent) : FailureLast [event] := by
  intro i other found _
  match i with
  | 0 => rfl
  | _ + 1 => cases found

theorem written_turnEvents {turn destOffset src count : Nat} {read : Option Bytes} {bytes : Bytes} :
    written (.read src count read :: (calls.verified turn bytes destOffset).1 ++
      [.write bytes destOffset true]) = bytes := by
  rw [CopyCalls.verified]
  cases calls.verify with
  | none => exact List.append_nil bytes
  | some verify => exact List.append_nil bytes

/-- Step lemma: a turn that goes on. -/
theorem Copying.step {st st' : CopyState} (copying : Copying calls source context size st)
    (turn : copyTurn calls st = .went st') : Copying calls source context size st' := by
  obtain ⟨bytes, next, read, checked, accepted, rfl⟩ := copyTurn_went turn
  obtain ⟨bound, -, gives⟩ := SourceStream.readData_gives read
  have chain := copying.src ▸ gives
  have total := copying.gives.trans chain
  have src := copying.src
  have dest := copying.dest
  have remain := copying.remain
  have small : st.destOffset < 2 ^ 64 := dest ▸ Nat.mod_lt _ (by decide)
  have isRead (src count : Nat) (read : Option Bytes) :
      ∀ bytes offset accepted, CopyEvent.read src count read ≠ .write bytes offset accepted :=
    fun _ _ _ same => by cases same
  constructor
  · exact total
  · rw [List.length_append, ← Nat.add_assoc, ← src]
    refine Nat.mod_eq_of_lt ?_
    by_cases nothing : bytes = []
    · rw [nothing, List.length_nil, Nat.add_zero, src]
      by_cases none : st.updated = []
      · rw [none]
        exact context.srcSmall
      · exact copying.gives.small none
    · exact gives.small nothing
  · rw [dest, size64_add, List.length_append, Nat.add_assoc]
  · rw [List.length_append]
    dsimp only
    omega
  · dsimp only
    rw [List.append_assoc, written_append, copying.written]
    exact congrArg _ written_turnEvents
  · intro event member
    dsimp only at member
    rw [List.mem_append, List.mem_append, List.mem_singleton] at member
    rcases member with (before | checks) | rfl
    · exact copying.accepted event before
    · exact turnChecks_accepted checked event checks
    · exact fun failed => by cases failed
  · dsimp only
    rw [List.append_assoc]
    refine copying.placed.append ?_
    rw [copying.written, ← dest]
    exact turnEvents_placed _ _ _ _ _ (isRead _ _ _) small
  · intro verifying
    dsimp only
    rw [List.append_assoc]
    exact (copying.verified verifying).append
      (turnEvents_verified _ _ _ _ _ (isRead _ _ _) verifying checked)

/-- Run lemma: the loop is left at its end, or by a turn that breaks off. -/
theorem Copying.loop {fuel : Nat} {st last : CopyState}
    (copying : Copying calls source context size st) (run : copyLoop calls fuel st = some last) :
    (Copying calls source context size last ∧ last.remainSize = 0) ∨
      ∃ before, Copying calls source context size before ∧ 0 < before.remainSize ∧
        copyTurn calls before = .broke last := by
  induction fuel generalizing st with
  | zero => cases run
  | succ fuel ih =>
      rw [copyLoop] at run
      split at run
      · rename_i done
        cases run
        exact Or.inl ⟨copying, done⟩
      rename_i more
      split at run
      · cases run
      · rename_i broke
        cases run
        exact Or.inr ⟨st, copying, Nat.pos_of_ne_zero more, broke⟩
      · rename_i went
        exact ih (copying.step went) run

/-- The events of a turn that breaks off keep the log in order, the failed one is last. -/
theorem BrokenEvents.keeps {st : CopyState} {events : List CopyEvent}
    (broken : BrokenEvents calls st events) (small : st.destOffset < 2 ^ 64) :
    WritesPlaced st.destOffset events ∧
      (calls.verify.isSome = true → WritesVerified events) ∧ FailureLast events := by
  have isRead (src count : Nat) (read : Option Bytes) :
      ∀ bytes offset accepted, CopyEvent.read src count read ≠ .write bytes offset accepted :=
    fun _ _ _ same => by cases same
  cases broken with
  | read =>
      refine ⟨fun i bytes offset accepted found => ?_, fun _ i bytes offset accepted found => ?_,
        failureLast_singleton _⟩
      · match i with
        | 0 => cases found
        | _ + 1 => cases found
      · match i with
        | 0 => cases found
        | _ + 1 => cases found
  | verify verifier =>
      refine ⟨fun i bytes offset accepted found => ?_, fun _ i bytes offset accepted found => ?_,
        fun i event found failed => ?_⟩
      · match i with
        | 0 => cases found
        | 1 => cases found
        | _ + 2 => cases found
      · match i with
        | 0 => cases found
        | 1 => cases found
        | _ + 2 => cases found
      · match i with
        | 0 =>
            cases found
            cases failed
        | 1 => rfl
        | _ + 2 => cases found
  | write checked =>
      refine ⟨turnEvents_placed _ _ _ _ _ (isRead _ _ _) small,
        fun verifying => turnEvents_verified _ _ _ _ _ (isRead _ _ _) verifying checked, ?_⟩
      exact FailureLast.append (turnChecks_accepted checked) (failureLast_singleton _)

/-- What a copy does that is all or failure. -/
structure AllOrFailure (calls : CopyCalls) (source : SourceStream) (context : PkgAlgorithmContext)
    (copied : Copied) : Prop where
  complete : copied.ret = pkgSuccess → (written copied.log).length = context.packedSize ∧
    written copied.log = (source.bytesFrom context.srcOffset).take context.packedSize
  placed : WritesPlaced context.destOffset copied.log
  verified : calls.verify.isSome = true → WritesVerified copied.log
  failed : ∀ i event, copied.log[i]? = some event → event.Failed →
    i + 1 = copied.log.length ∧ copied.ret ≠ pkgSuccess

/-- The log of a loop that is left, and how far it got. -/
theorem Copying.left {fuel : Nat} {st last : CopyState}
    (copying : Copying calls source context size st) (run : copyLoop calls fuel st = some last) :
    WritesPlaced context.destOffset last.log ∧
      (calls.verify.isSome = true → WritesVerified last.log) ∧ FailureLast last.log ∧
      last.srcOffset = context.srcOffset + last.updated.length ∧
      last.destOffset = size64 (context.destOffset + last.updated.length) ∧
      last.updated.length ≤ size ∧
      (last.updated.length = size → Copying calls source context size last) := by
  rcases copying.loop run with ⟨done, remain⟩ | ⟨before, stood, more, broke⟩
  · have total := done.remain
    exact ⟨done.placed, done.verified, FailureLast.of_accepted done.accepted, done.src, done.dest,
      by omega, fun _ => done⟩
  · obtain ⟨updated, src, dest, events, log, broken⟩ := copyTurn_broke broke
    have total := stood.remain
    have stoodDest := stood.dest
    obtain ⟨placed, verified, failure⟩ := broken.keeps (stoodDest ▸ Nat.mod_lt _ (by decide))
    rw [stoodDest, ← stood.written] at placed
    rw [log, updated, src, dest, stood.src]
    refine ⟨stood.placed.append placed, fun verifying =>
      (stood.verified verifying).append (verified verifying),
      FailureLast.append stood.accepted failure, rfl, stoodDest, by omega,
      fun whole => by omega⟩

end

/-- Two of three bytes, and a verifier and a stream that accept them. -/
def middleContext : PkgAlgorithmContext where
  srcOffset := 1
  destOffset := 0
  packedSize := 2
  unpackedSize := 0
  crc := 0
  digestMethod := 0
  digest := []
  srcSmall := one_small
  destSmall := zero_small
  packedSmall := by decide
  unpackedSmall := zero_small

def acceptAll : CopyCalls where
  verify := some fun _ _ _ => true
  write _ _ _ := true

def threeBytes : SourceStream := .memoryMap ⟨[1, 2, 3], by decide⟩

end Updater.Package
