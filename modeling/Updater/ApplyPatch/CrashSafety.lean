import Updater.ApplyPatch.CommandEffects
import Updater.Base.Interleaving

/-! A move or a diff that is stopped and executed again, any number of times: when what it leaves is
what it was meant to leave. -/

set_option autoImplicit false

namespace Updater.ApplyPatch

open Updater.Base Updater.Utils

theorem BlockSet.readLoop_fst_congr {content other : Nat → UInt8} {offset : Nat} {blocks : BlockSet}
    {pos : Nat} {buffer others : Bytes} (inside : pos ≤ buffer.length)
    (length : buffer.length = others.length) :
    (readLoop content offset blocks pos buffer).1 = (readLoop other offset blocks pos others).1 := by
  induction blocks generalizing pos buffer others with
  | nil => rfl
  | cons pair blocks ih =>
      have count : ∀ content, (readContent content (BlockPair.start offset pair)
          (min (buffer.length - pos) (BlockPair.size pair))).length =
            min (buffer.length - pos) (BlockPair.size pair) := by
        intro content
        rw [readContent, List.length_map, List.length_range']
      have same : ∀ content, (writeAt buffer pos (readContent content (BlockPair.start offset pair)
          (min (buffer.length - pos) (BlockPair.size pair)))).length = buffer.length := by
        intro content
        refine length_writeAt ?_
        rw [count]
        omega
      have also : ∀ content, (writeAt others pos (readContent content (BlockPair.start offset pair)
          (min (buffer.length - pos) (BlockPair.size pair)))).length = others.length := by
        intro content
        refine length_writeAt ?_
        rw [count]
        omega
      rw [readLoop, readLoop, ← length]
      split
      · rfl
      · dsimp only
        refine ih ?_ ?_
        · rw [same]
          omega
        · rw [same, also, length]

namespace Setting

/-- The files that stash arguments name, of a command that is not a stream. -/
def stashNames : List String → List String
  | [] => []
  | lastArg :: args =>
      if lastArg = "" ∨ (splitString lastArg ":").length ≠ 2 then []
      else (splitString lastArg ":").getD 0 "" :: stashNames args

/-- The files that the source from `pos` on is loaded from. -/
def sourceNames (cmd : Command) (pos : Nat) : List String :=
  if cmd.getArgumentByPos pos ≠ "-" then
    if cmd.getArgumentByPos (pos + 1) = "" then [] else stashNames (cmd.tokens.drop (pos + 2))
  else stashNames (cmd.tokens.drop (pos + 1))

section Names

variable {setting other : Setting} {cmd : Command} (notStream : cmd.isStreamCmd = false)

include notStream

theorem loadStash_congr {lastArg : String}
    (same : setting.store ((splitString lastArg ":").getD 0 "") =
      other.store ((splitString lastArg ":").getD 0 "")) :
    setting.loadStash cmd lastArg = other.loadStash cmd lastArg := by
  rw [loadStash, loadStash, notStream]
  dsimp only
  rw [Bool.not_false, Bool.true_or, if_pos rfl, if_pos rfl, loadDataFromStore, loadDataFromStore,
    same]

theorem stashPieces_congr {args : List String}
    (same : ∀ name ∈ stashNames args, setting.store name = other.store name) :
    setting.stashPieces cmd args = other.stashPieces cmd args := by
  induction args with
  | nil => rfl
  | cons lastArg args ih =>
      rw [stashPieces, stashPieces]
      rw [stashNames] at same
      by_cases none_ : lastArg = ""
      · rw [if_pos none_, if_pos none_]
      · rw [if_neg none_, if_neg none_]
        by_cases two : (splitString lastArg ":").length ≠ 2
        · have failed : ∀ setting : Setting, setting.loadStash cmd lastArg = .error (-1) := by
            intro setting
            rw [loadStash]
            exact if_pos two
          rw [failed, failed]
        · rw [if_neg (not_or.mpr ⟨none_, two⟩)] at same
          rw [loadStash_congr notStream (same _ (.head _)),
            ih fun name member => same name (.tail _ member)]

/-- Stashes that are loaded are there. -/
theorem stored_of_loads {args : List String} (loads : (setting.stashPieces cmd args).2 = true) :
    ∀ name ∈ stashNames args, setting.store name ≠ none := by
  induction args with
  | nil =>
      intro name member
      cases member
  | cons lastArg args ih =>
      intro name member
      rw [stashPieces] at loads
      rw [stashNames] at member
      split at member
      · cases member
      · rename_i both
        obtain ⟨some_, two⟩ := not_or.mp both
        rw [if_neg some_] at loads
        cases loaded : setting.loadStash cmd lastArg with
        | error ret =>
            rw [loaded] at loads
            cases loads
        | ok pair =>
            rw [loaded] at loads
            cases member with
            | tail _ member => exact ih loads name member
            | head =>
                intro absent
                rw [loadStash, notStream] at loaded
                dsimp only at loaded
                rw [if_neg two, Bool.not_false, Bool.true_or, if_pos rfl, loadDataFromStore, absent,
                  if_pos (by decide)] at loaded
                cases loaded

theorem sourceNames_stored {pos size : Nat}
    (loads : (setting.gathering cmd pos size).loads = true) :
    ∀ name ∈ sourceNames cmd pos, setting.store name ≠ none := by
  intro name member
  rw [gathering] at loads
  rw [sourceNames] at member
  split at loads
  · rename_i ranges
    rw [if_pos ranges] at member
    dsimp only at loads
    split at loads
    · cases loads
    · split at loads
      · rename_i last
        rw [if_pos last] at member
        cases member
      · rename_i last
        rw [if_neg last] at member
        exact stored_of_loads notStream loads name member
  · rename_i stashes
    rw [if_neg stashes] at member
    exact stored_of_loads notStream loads name member

/-- The pieces of the source depend on stashes and failures only. -/
theorem pieces_congr {pos size : Nat} (fails : setting.sourceFails = other.sourceFails)
    (same : ∀ name ∈ sourceNames cmd pos, setting.store name = other.store name) :
    (setting.gathering cmd pos size).pieces = (other.gathering cmd pos size).pieces := by
  rw [gathering, gathering]
  rw [sourceNames] at same
  dsimp only
  by_cases ranges : cmd.getArgumentByPos pos ≠ "-"
  · rw [if_pos ranges] at same
    rw [if_pos ranges, if_pos ranges]
    have read : (setting.readSource (blockSetOf (cmd.getArgumentByPos pos))
          (List.replicate size 0)).1 =
        (other.readSource (blockSetOf (cmd.getArgumentByPos pos)) (List.replicate size 0)).1 := by
      rw [readSource, readSource, fails]
      split
      · rfl
      · exact BlockSet.readLoop_fst_congr (Nat.zero_le _) rfl
    rw [read]
    by_cases last : cmd.getArgumentByPos (pos + 1) = ""
    · rw [if_pos last, if_pos last]
      split
      · rfl
      · rfl
    · rw [if_neg last] at same
      rw [if_neg last, if_neg last, stashPieces_congr notStream same]
      split
      · rfl
      · rfl
  · rw [if_neg ranges] at same
    rw [if_neg ranges, if_neg ranges, stashPieces_congr notStream same]

theorem gathering_congr {pos size : Nat} (fails : setting.sourceFails = other.sourceFails)
    (source : setting.source = other.source)
    (same : ∀ name ∈ sourceNames cmd pos, setting.store name = other.store name) :
    setting.gathering cmd pos size = other.gathering cmd pos size := by
  have read : setting.readSource = other.readSource := by
    funext blocks buffer
    rw [readSource, readSource, fails, source]
  rw [gathering, gathering, read]
  rw [sourceNames] at same
  dsimp only
  by_cases ranges : cmd.getArgumentByPos pos ≠ "-"
  · rw [if_pos ranges] at same
    rw [if_pos ranges, if_pos ranges]
    by_cases last : cmd.getArgumentByPos (pos + 1) = ""
    · rw [if_pos last, if_pos last]
    · rw [if_neg last] at same
      rw [if_neg last, if_neg last, stashPieces_congr notStream same]
  · rw [if_neg ranges] at same
    rw [if_neg ranges, if_neg ranges, stashPieces_congr notStream same]

end Names

end Setting

namespace Setting

/-- The source buffer that is left when all of the source is loaded. -/
def loadedSource (setting : Setting) (cmd : Command) : Bytes :=
  (setting.sourceOf cmd).assembled.read 0 (srcBufferSize cmd)

end Setting

/-- What is the same in every call of a command, the content that its source blocks have at first,
and the content that its target blocks shall get. -/
structure Transfer where
  cmd : Command
  offset : Nat
  inPlaceDiff : Bool
  sha256Hex : Bytes → String
  source : Bytes
  content : Bytes

namespace Transfer

variable (transfer : Transfer)

def srcHash : String :=
  (Setting.hashes transfer.cmd (Setting.argsStart transfer.cmd)).srcHash

def tgtHash : String :=
  (Setting.hashes transfer.cmd (Setting.argsStart transfer.cmd)).tgtHash

def places : List Nat :=
  (Setting.targetBlock transfer.cmd).places transfer.offset

/-- A move or a diff that is not from a stream, to ranges on the device that have as many bytes as
the content, with the digests of the two contents. A move writes its source. -/
structure Meant : Prop where
  type : transfer.cmd.type = .move ∨ transfer.cmd.type = .bsdiff ∨ transfer.cmd.type = .imgdiff
  notStream : transfer.cmd.isStreamCmd = false
  onDevice : (Setting.targetBlock transfer.cmd).OnDevice transfer.offset
  length : transfer.content.length = transfer.places.length
  srcDigest : transfer.sha256Hex transfer.source = transfer.srcHash
  tgtDigest : transfer.sha256Hex transfer.content = transfer.tgtHash
  moved : transfer.cmd.type = .move → transfer.content = transfer.source

/-- `SkipInPlaceMove` takes the command. -/
def Skips : Prop :=
  transfer.cmd.type = .move ∧
    transfer.cmd.getArgumentByPos 2 = transfer.cmd.getArgumentByPos 4 ∧ transfer.inPlaceDiff = true

/-- A call that may write, with the devices and the stash directory of the disk. -/
structure Answers (setting : Setting) (disk : Disk) : Prop where
  offset : setting.offset = transfer.offset
  canWrite : setting.canWrite = true
  inPlaceDiff : setting.inPlaceDiff = transfer.inPlaceDiff
  sha256Hex : setting.sha256Hex = transfer.sha256Hex
  source : setting.source = disk.source
  target : setting.target = disk.target
  store : ∀ fileName, (setting.store fileName).map StoreFile.content = disk.store fileName

/-- The target blocks have the content. -/
def Written (disk : Disk) : Prop :=
  transfer.places.map disk.target = transfer.content

/-- The pieces that a call can load lie inside of the source buffer, and all of them are the
source. -/
def Supplies (disk : Disk) : Prop :=
  ∀ setting, transfer.Answers setting disk →
    (∀ piece ∈ (setting.sourceOf transfer.cmd).pieces,
      piece.Kept (Setting.srcBufferSize transfer.cmd)) ∧
    ((setting.sourceOf transfer.cmd).loads = true →
      setting.loadedSource transfer.cmd = transfer.source)

/-- The stash of the source has whole blocks, but is not the source. -/
def Short (disk : Disk) : Prop :=
  ∃ data, disk.store transfer.srcHash = some data ∧ data.length % hBlockSize = 0 ∧
    data ≠ transfer.source

/-- A call with a patch that is right for the source, and with contents of which no other one has
the digest of the source or of the target. -/
structure Calls (attempt : Attempt) (disk : Disk) : Prop where
  answers : transfer.Answers attempt.toSetting disk
  patch : transfer.cmd.type ≠ .move →
    (attempt.patch transfer.source).flatten = transfer.content
  sourceDigest : (attempt.sourceOf transfer.cmd).loads = true →
    transfer.sha256Hex (attempt.loadedSource transfer.cmd) = transfer.srcHash →
    attempt.loadedSource transfer.cmd = transfer.source
  targetDigest : transfer.sha256Hex (transfer.places.map disk.target) = transfer.tgtHash →
    transfer.Written disk

/-- A call that is not stopped, nor fails, in the middle of the target blocks while the stash of the
source has whole blocks but not all of them. -/
def Spares (attempt : Attempt) (disk : Disk) : Prop :=
  transfer.Short (attempt.after transfer.cmd disk) →
    (attempt.after transfer.cmd disk).target = disk.target ∨
      transfer.Written (attempt.after transfer.cmd disk)

/-- A call keeps to its buffers, takes nothing but the source for the source, and leaves the content
where it returns success. -/
structure Safe (attempt : Attempt) (disk : Disk) : Prop where
  kept : (attempt.execute transfer.cmd).result ≠ none
  source : ∀ loaded, (attempt.loadTarget transfer.cmd
      (Setting.argsStart transfer.cmd)).result = some loaded → loaded.1.loads = true →
    loaded.1.buffer = transfer.source
  written : attempt.Succeeds transfer.cmd → transfer.Written (attempt.after transfer.cmd disk)

/-- The disk differs from the first one in the target and in a stash of the source only, which was
made from a source that needs no stash of this name. -/
structure Kin (first disk : Disk) : Prop where
  ownSource : disk.ownSource = first.ownSource
  others : ∀ name, name ≠ transfer.srcHash → disk.store name = first.store name
  stash : disk.store transfer.srcHash = first.store transfer.srcHash ∨
    first.store transfer.srcHash = none ∧
      transfer.srcHash ∉ Setting.sourceNames transfer.cmd (Setting.targetPos transfer.cmd + 2)

/-- How far the calls have come: the target is as it was at first; or it is not, and no stash is
there that could be taken for the source, but one that is the source where target and source
overlap; or it is written. -/
inductive Phase (first disk : Disk) : Prop
  | untouched : disk.target = first.target → Phase first disk
  | torn : ¬transfer.Skips → ¬transfer.Short disk →
      (Setting.overlaps transfer.cmd (Setting.targetBlock transfer.cmd)
        (Setting.targetPos transfer.cmd + 2) = true → disk.store transfer.srcHash ≠ none) →
      Phase first disk
  | written : transfer.Written disk → Phase first disk

section Kin

variable {transfer} {first disk : Disk}

theorem Kin.refl (disk : Disk) : transfer.Kin disk disk :=
  ⟨rfl, fun _ _ => rfl, .inl rfl⟩

/-- What a call loads is what one would load from the first disk, as far as the stashes go. -/
theorem Kin.atFirst (kin : transfer.Kin first disk) {setting : Setting}
    (answers : transfer.Answers setting disk) :
    ∃ other, transfer.Answers other first ∧ other.sourceFails = setting.sourceFails ∧
      ∀ name ∈ Setting.sourceNames transfer.cmd (Setting.targetPos transfer.cmd + 2),
        setting.store name = other.store name := by
  rcases kin.stash with same | ⟨absent, notNamed⟩
  · refine ⟨{ setting with source := first.source, target := first.target },
      ⟨answers.offset, answers.canWrite, answers.inPlaceDiff, answers.sha256Hex, rfl, rfl, ?_⟩,
      rfl, fun _ _ => rfl⟩
    intro name
    rw [answers.store]
    by_cases stash : name = transfer.srcHash
    · rw [stash, same]
    · exact kin.others name stash
  · refine ⟨{ setting with
        source := first.source
        target := first.target
        store := Function.update setting.store transfer.srcHash none },
      ⟨answers.offset, answers.canWrite, answers.inPlaceDiff, answers.sha256Hex, rfl, rfl, ?_⟩,
      rfl, ?_⟩
    · intro name
      dsimp only
      by_cases stash : name = transfer.srcHash
      · rw [stash, Function.update_self, absent]
        rfl
      · rw [Function.update_of_ne stash, answers.store, kin.others name stash]
    · intro name named
      have other : name ≠ transfer.srcHash := fun stash => notNamed (stash ▸ named)
      exact (Function.update_of_ne other _ _).symm

theorem Kin.source (kin : transfer.Kin first disk) (untouched : disk.target = first.target) :
    disk.source = first.source := by
  rw [Disk.source, Disk.source, kin.ownSource, untouched]

variable (meant : transfer.Meant) (supplies : transfer.Supplies first)

include meant supplies

theorem Kin.kept (kin : transfer.Kin first disk) {setting : Setting}
    (answers : transfer.Answers setting disk) :
    ∀ piece ∈ (setting.sourceOf transfer.cmd).pieces,
      piece.Kept (Setting.srcBufferSize transfer.cmd) := by
  obtain ⟨other, answers, fails, same⟩ := kin.atFirst answers
  have pieces := @Setting.pieces_congr setting other transfer.cmd meant.notStream
    (Setting.targetPos transfer.cmd + 2) (Setting.srcBufferSize transfer.cmd) fails.symm same
  rw [Setting.sourceOf, pieces]
  exact (supplies other answers).1

theorem Kin.loadedSource (kin : transfer.Kin first disk) (untouched : disk.target = first.target)
    {setting : Setting} (answers : transfer.Answers setting disk)
    (loads : (setting.sourceOf transfer.cmd).loads = true) :
    setting.loadedSource transfer.cmd = transfer.source := by
  obtain ⟨other, others, fails, same⟩ := kin.atFirst answers
  have source : setting.source = other.source := by
    rw [answers.source, others.source, kin.source untouched]
  have gathering := @Setting.gathering_congr setting other transfer.cmd meant.notStream
    (Setting.targetPos transfer.cmd + 2) (Setting.srcBufferSize transfer.cmd) fails.symm source same
  rw [Setting.sourceOf, gathering] at loads
  rw [Setting.loadedSource, Setting.sourceOf, gathering]
  exact (supplies other others).2 loads

end Kin

section Target

variable {transfer} {disk : Disk} {setting : Setting} (meant : transfer.Meant)
  (answers : transfer.Answers setting disk)

include meant answers

/-- The target that is read, where it can be. -/
theorem readTarget_eq (read : (setting.readTarget (Setting.targetBlock transfer.cmd) (List.replicate
      (BlockSet.blocksSize (Setting.targetBlock transfer.cmd)) 0)).1 ≠ 0) :
    (setting.readTarget (Setting.targetBlock transfer.cmd) (List.replicate
      (BlockSet.blocksSize (Setting.targetBlock transfer.cmd)) 0)).2 =
        transfer.places.map disk.target := by
  rw [Setting.readTarget] at read ⊢
  split at read
  · exact absurd rfl read
  · rename_i works
    rw [if_neg works]
    rw [BlockSet.readDataFromBlock, answers.offset, answers.target] at read ⊢
    by_cases seekable : (Setting.targetBlock transfer.cmd).Seekable transfer.offset
    · rw [BlockSet.readLoop_eq meant.onDevice seekable]
      · rfl
      · rw [List.length_replicate, meant.onDevice.blocksSize_eq, Nat.zero_add]
    · simp only [BlockSet.Seekable, not_forall, not_not] at seekable
      obtain ⟨pair, member, last⟩ := seekable
      refine absurd (BlockSet.readLoop_eq_zero ⟨pair, member, ?_⟩) read
      exact (meant.onDevice.seekFails_iff member).mpr last

theorem targetDiffers_not_written (differs : setting.TargetDiffers transfer.cmd) :
    ¬transfer.Written disk := by
  intro written
  obtain ⟨read, other⟩ := differs
  rw [readTarget_eq meant answers read, answers.sha256Hex, written] at other
  exact other meant.tgtDigest

end Target

/-- A part of the making of the stash of the source, where it is not there and no stash of its name
is needed. -/
structure Stashes (disk : Disk) (effects : List Effect) : Prop where
  overlaps : Setting.overlaps transfer.cmd (Setting.targetBlock transfer.cmd)
    (Setting.targetPos transfer.cmd + 2) = true
  begun : effects <+: Effect.stash transfer.srcHash transfer.source
  absent : disk.store transfer.srcHash = none
  notNamed : transfer.srcHash ∉
    Setting.sourceNames transfer.cmd (Setting.targetPos transfer.cmd + 2)

/-- What `LoadTarget` does: it leaves the disk alone, stops while it makes the stash, or goes on with
the source, whose stash is then there where source and target overlap. -/
inductive Gathers (disk : Disk) : Traced Effect (Setting.Loaded × String) → Prop
  | stays (result : CommandResult) (buffer : Bytes) : (result = .success → transfer.Written disk) →
      Gathers disk ⟨[], some (⟨false, result, buffer⟩, "")⟩
  | stops (effects : List Effect) (buffer : Bytes) : transfer.Stashes disk effects →
      Gathers disk ⟨effects, some (⟨false, .failed, buffer⟩, transfer.srcHash)⟩
  | stashed (effects : List Effect) : ¬transfer.Written disk → transfer.Stashes disk effects →
      effects ≠ [] →
      Gathers disk ⟨effects, some (⟨true, .success, transfer.source⟩, transfer.srcHash)⟩
  | plain : ¬transfer.Written disk →
      (Setting.overlaps transfer.cmd (Setting.targetBlock transfer.cmd)
        (Setting.targetPos transfer.cmd + 2) = true → disk.store transfer.srcHash ≠ none) →
      Gathers disk ⟨[], some (⟨true, .success, transfer.source⟩, "")⟩

section Gathers

variable {transfer} {attempt : Attempt} {first disk : Disk}

/-- `LoadTarget` of a move or a diff goes on to the source, or leaves the disk alone. -/
theorem loadTarget_cases (meant : transfer.Meant) (calls : transfer.Calls attempt disk) :
    attempt.TargetDiffers transfer.cmd ∧
        attempt.loadTarget transfer.cmd (Setting.argsStart transfer.cmd) =
          attempt.loadSourceBlocks transfer.cmd (Setting.targetBlock transfer.cmd)
            (Setting.targetPos transfer.cmd + 1) transfer.srcHash ∨
      ¬attempt.TargetDiffers transfer.cmd ∧
        ∃ result, (result = .success → transfer.Written disk) ∧
          attempt.loadTarget transfer.cmd (Setting.argsStart transfer.cmd) =
            ⟨[], some (⟨false, result, []⟩, "")⟩ := by
  have notCopy : transfer.cmd.type ≠ .copy := by
    rcases meant.type with type | type | type
    · rw [type]
      decide
    · rw [type]
      decide
    · rw [type]
      decide
  have length := @Setting.length_readTarget attempt.toSetting (Setting.targetBlock transfer.cmd)
    (List.replicate (BlockSet.blocksSize (Setting.targetBlock transfer.cmd)) 0)
  rw [List.length_replicate] at length
  have content := readTarget_eq meant calls.answers
  rw [Attempt.loadTarget, if_pos notCopy, Setting.TargetDiffers]
  change _ ∧ ite ((attempt.readTarget (Setting.targetBlock transfer.cmd) (List.replicate
    (BlockSet.blocksSize (Setting.targetBlock transfer.cmd)) 0)).1 = 0) _ _ = _ ∨ _
  rw [Setting.targetBlock, Setting.targetPos] at length content ⊢
  generalize attempt.readTarget (blockSetOf (transfer.cmd.getArgumentByPos
    (Setting.hashes transfer.cmd (Setting.argsStart transfer.cmd)).pos)) (List.replicate
      (BlockSet.blocksSize (blockSetOf (transfer.cmd.getArgumentByPos
        (Setting.hashes transfer.cmd (Setting.argsStart transfer.cmd)).pos))) 0) = read
          at length content ⊢
  by_cases failed : read.1 = 0
  · rw [if_pos failed]
    exact .inr ⟨fun both => both.1 failed, .failed, (fun other => by cases other), rfl⟩
  · rw [if_neg failed, Setting.verifySha256_eq length, Traced.ofOption_some_bind]
    by_cases verified : attempt.sha256Hex read.2 = transfer.tgtHash
    · rw [Transfer.tgtHash] at verified
      rw [if_pos verified, if_pos rfl]
      refine .inr ⟨fun both => both.2 verified, .success, fun _ => ?_, rfl⟩
      apply calls.targetDigest
      rw [← content failed, ← calls.answers.sha256Hex]
      exact verified
    · rw [Transfer.tgtHash] at verified
      rw [if_neg verified, if_neg (by decide)]
      exact .inl ⟨⟨failed, verified⟩, rfl⟩

variable (meant : transfer.Meant) (supplies : transfer.Supplies first)
  (kin : transfer.Kin first disk) (phase : transfer.Phase first disk)
  (calls : transfer.Calls attempt disk)

include meant supplies kin phase calls

theorem loadTarget_gathers :
    transfer.Gathers disk
      (attempt.loadTarget transfer.cmd (Setting.argsStart transfer.cmd)) := by
  rcases loadTarget_cases meant calls with ⟨differs, goesOn⟩ | ⟨-, result, written, stays⟩
  · have notWritten := targetDiffers_not_written meant calls.answers differs
    have answers := calls.answers
    have loads := @Attempt.loadTargetBuffer_loads attempt transfer.cmd
      (Setting.targetBlock transfer.cmd) (Setting.targetPos transfer.cmd + 2)
      (Setting.srcBlockSize transfer.cmd) transfer.srcHash (kin.kept meant supplies answers)
      answers.canWrite meant.notStream
    -- only the source has its digest, before the target is touched and after it
    have only : (attempt.sourceOf transfer.cmd).loads = true →
        attempt.sha256Hex (attempt.loadedSource transfer.cmd) = transfer.srcHash →
        attempt.loadedSource transfer.cmd = transfer.source := by
      intro loads verified
      rw [answers.sha256Hex] at verified
      exact calls.sourceDigest loads verified
    rw [goesOn, Attempt.loadSourceBlocks]
    change transfer.Gathers disk (attempt.loadTargetBuffer transfer.cmd
      (Setting.targetBlock transfer.cmd) (List.replicate (Setting.srcBufferSize transfer.cmd) 0)
      (Setting.srcBlockSize transfer.cmd) (Setting.targetPos transfer.cmd + 2) transfer.srcHash >>= _)
    rw [Setting.srcBufferSize]
    generalize attempt.loadTargetBuffer transfer.cmd (Setting.targetBlock transfer.cmd)
      (List.replicate (Setting.srcBlockSize transfer.cmd * hBlockSize % sizeMax) 0)
      (Setting.srcBlockSize transfer.cmd) (Setting.targetPos transfer.cmd + 2) transfer.srcHash =
        loaded at loads ⊢
    have absent_iff : attempt.store transfer.srcHash = none ↔
        disk.store transfer.srcHash = none := by
      rw [← answers.store, Option.map_eq_none_iff]
    cases loads with
    | unread ret buffer failed =>
        rw [Traced.some_bind]
        dsimp only
        rw [if_pos failed]
        exact .stays _ _ fun other => by cases other
    | stashed effects ret loads verified overlapping absent begun some_ =>
        have same := only loads verified
        rw [Setting.loadedSource, Setting.sourceOf, Setting.srcBufferSize] at same
        rw [same] at begun ⊢
        have stashes : transfer.Stashes disk effects := by
          refine ⟨overlapping, begun, absent_iff.mp absent, fun named => ?_⟩
          exact Setting.sourceNames_stored meant.notStream loads _ named absent
        rw [Traced.some_bind]
        dsimp only
        by_cases failed : ret ≠ 0
        · rw [if_pos failed]
          have made := Gathers.stops effects transfer.source stashes
          rw [← List.append_nil effects] at made
          exact made
        · rw [if_neg failed]
          have made := Gathers.stashed effects notWritten stashes (some_ (not_not.mp failed))
          rw [← List.append_nil effects] at made
          exact made
    | verified loads verified stash =>
        have same := only loads verified
        rw [Setting.loadedSource, Setting.sourceOf, Setting.srcBufferSize] at same
        rw [same, Traced.some_bind]
        exact .plain notWritten fun overlapping absent => stash overlapping (absent_iff.mpr absent)
    | lost ret buffer loads differs stash =>
        rw [Traced.some_bind]
        dsimp only
        by_cases failed : ret ≠ 0
        · rw [if_pos failed]
          exact .stays _ _ fun other => by cases other
        · obtain ⟨file, found, whole, rfl⟩ := stash (not_not.mp failed)
          rw [if_neg failed]
          have stored : disk.store transfer.srcHash = some file.content := by
            rw [← answers.store, found]
            rfl
          have same : file.content = transfer.source := by
            cases phase with
            | untouched same =>
                have source := kin.loadedSource meant supplies same answers loads
                rw [Setting.loadedSource, Setting.sourceOf, Setting.srcBufferSize] at source
                rw [source, answers.sha256Hex] at differs
                exact absurd meant.srcDigest differs
            | torn _ whole_ _ =>
                by_contra other
                exact whole_ ⟨file.content, stored, whole, other⟩
            | written written => exact absurd written notWritten
          rw [same]
          refine .plain notWritten fun _ absent => ?_
          rw [stored] at absent
          cases absent
  · rw [stays]
    exact .stays result [] written

end Gathers

/-- What `Execute` does: it leaves the disk alone, stops while it makes the stash, or writes to the
target, and then deletes the stash that it has made. -/
inductive Course (disk : Disk) : Traced Effect CommandResult → Prop
  | stays (result : CommandResult) : (result = .success → transfer.Written disk) →
      Course disk ⟨[], some result⟩
  | stops (effects : List Effect) : transfer.Stashes disk effects →
      Course disk ⟨effects, some .failed⟩
  | writes (stash freed : List Effect) (count : Nat) (result : CommandResult) : ¬transfer.Skips →
      (stash = [] ∨ transfer.Stashes disk stash) →
      (Setting.overlaps transfer.cmd (Setting.targetBlock transfer.cmd)
        (Setting.targetPos transfer.cmd + 2) = true → stash = [] →
          disk.store transfer.srcHash ≠ none) →
      (result = .success → transfer.places.length ≤ count) →
      (freed = [] ∨ transfer.places.length ≤ count ∧ transfer.Stashes disk stash ∧
        freed = [.freeStore transfer.srcHash]) →
      Course disk
        ⟨stash ++ ((Effect.writes transfer.places transfer.content).take count ++ freed),
          some result⟩

section Course

variable {transfer} {attempt : Attempt} {first disk : Disk}

theorem skips_iff (answers : transfer.Answers attempt.toSetting disk) :
    attempt.skipInPlaceMove transfer.cmd = true ↔ transfer.Skips := by
  rw [Setting.skipInPlaceMove, answers.canWrite, answers.inPlaceDiff, Bool.true_and,
    Bool.and_eq_true, Bool.and_eq_true, decide_eq_true_eq, decide_eq_true_eq, and_assoc]
  rfl

/-- The content is written to the target, or a part of it. -/
theorem writeTarget_writes (meant : transfer.Meant) (calls : transfer.Calls attempt disk) :
    ∃ count ret, attempt.writeTarget transfer.cmd (Setting.targetBlock transfer.cmd)
        transfer.source =
          ⟨(Effect.writes transfer.places transfer.content).take count, some ret⟩ ∧
      (ret = 0 → transfer.places.length ≤ count) := by
  have offset := calls.answers.offset
  have length := Effect.length_writes meant.length
  by_cases move : transfer.cmd.type = .move
  · have neither : ¬(transfer.cmd.type ≠ .move ∧ transfer.cmd.type ≠ .copy) :=
      fun both => both.1 move
    have onDevice := meant.onDevice
    rw [← offset] at onDevice
    have room := meant.length
    rw [meant.moved move, places, ← offset] at room
    have fits : transfer.source.length < sizeMax := by
      rw [room, ← onDevice.blocksSize_eq]
      exact BlockSet.blocksSize_lt _
    obtain ⟨count, written, run, all⟩ := Attempt.writeLoop_writes onDevice
      (room.trans (Nat.zero_add _).symm) fits
    rw [Attempt.writeTarget, if_neg neither, Attempt.writeDataToBlock, run, Traced.some_bind,
      meant.moved move, places, ← offset]
    refine ⟨count, _, congrArg₂ Traced.mk (List.append_nil _) rfl, fun done_ => all ?_⟩
    rintro rfl
    exact absurd done_ (by decide : ¬(-1 : Int) = 0)
  · have both : transfer.cmd.type ≠ .move ∧ transfer.cmd.type ≠ .copy := by
      refine ⟨move, fun copy => ?_⟩
      rcases meant.type with type | type | type
      · exact move type
      · cases copy.symm.trans type
      · cases copy.symm.trans type
    have patch := calls.patch move
    rw [Attempt.writeTarget, if_pos both, Attempt.writeDiffToBlock, Traced.emit_bind, patch, offset]
    by_cases patched : attempt.patched = 0
    · rw [if_pos patched, patched]
      refine ⟨transfer.places.length, 0, ?_, fun _ => Nat.le_refl _⟩
      rw [List.take_of_length_le (Nat.le_of_eq length)]
      exact congrArg₂ Traced.mk (List.append_nil _) rfl
    · rw [if_neg patched]
      refine ⟨attempt.targetWritten, attempt.patched, ?_, fun done_ => absurd done_ patched⟩
      exact congrArg₂ Traced.mk (List.append_nil _) rfl

section Execute

variable (meant : transfer.Meant) (supplies : transfer.Supplies first)
  (skipped : transfer.Skips → transfer.Written first)
  (kin : transfer.Kin first disk) (phase : transfer.Phase first disk)
  (calls : transfer.Calls attempt disk)

include meant supplies skipped kin phase calls

theorem execute_course : transfer.Course disk (attempt.execute transfer.cmd) := by
  have skips := skips_iff calls.answers
  have gathers := loadTarget_gathers meant supplies kin phase calls
  rw [Attempt.execute]
  by_cases skip : transfer.Skips
  · rw [if_pos (skips.mpr skip)]
    refine .stays .success fun _ => ?_
    cases phase with
    | untouched same =>
        rw [Written, same]
        exact skipped skip
    | torn goesOn _ _ => exact absurd skip goesOn
    | written written => exact written
  · rw [if_neg (mt skips.mp skip)]
    obtain ⟨count, ret, writes, all⟩ := writeTarget_writes meant calls
    have goesOn : ∀ loads : Bool, loads = true →
        ¬(loads = false ∨ attempt.canWrite = false) := by
      rintro loads rfl (lost | readOnly)
      · cases lost
      · cases calls.answers.canWrite.symm.trans readOnly
    generalize attempt.loadTarget transfer.cmd (Setting.argsStart transfer.cmd) = loaded
      at gathers ⊢
    -- what follows the source, with the stash that was made
    have wrote : ∀ (stash freed : List Effect) (result : CommandResult),
        (stash = [] ∨ transfer.Stashes disk stash) →
        (Setting.overlaps transfer.cmd (Setting.targetBlock transfer.cmd)
          (Setting.targetPos transfer.cmd + 2) = true → stash = [] →
            disk.store transfer.srcHash ≠ none) →
        (result = .success → ret = 0) →
        (freed = [] ∨ ret = 0 ∧ transfer.Stashes disk stash ∧
          freed = [.freeStore transfer.srcHash]) →
        transfer.Course disk
          ⟨stash ++ ((Effect.writes transfer.places transfer.content).take count ++ freed),
            some result⟩ := by
      intro stash freed result made kept success frees
      refine .writes stash freed count result skip made kept (fun done_ => all (success done_)) ?_
      exact frees.imp_right fun both => ⟨all both.1, both.2⟩
    cases gathers with
    | stays result buffer written =>
        rw [Traced.some_bind]
        dsimp only
        rw [if_pos (.inl rfl)]
        exact .stays result written
    | stops effects buffer stashes =>
        rw [Traced.some_bind]
        dsimp only
        rw [if_pos (.inl rfl)]
        have made := Course.stops effects stashes
        rw [← List.append_nil effects] at made
        exact made
    | stashed effects notWritten stashes some_ =>
        rw [Traced.some_bind]
        dsimp only
        rw [if_neg (goesOn true rfl)]
        change transfer.Course disk ⟨effects ++ (attempt.writeTarget transfer.cmd
          (Setting.targetBlock transfer.cmd) transfer.source >>= _).events,
          (attempt.writeTarget transfer.cmd (Setting.targetBlock transfer.cmd)
            transfer.source >>= _).result⟩
        rw [writes, Traced.some_bind]
        dsimp only
        by_cases failed : ret ≠ 0
        · rw [if_pos failed]
          refine wrote effects [] _ (.inr stashes) (fun _ none_ => absurd none_ some_) ?_ (.inl rfl)
          intro success
          split at success
          · cases success
          · cases success
        · rw [if_neg failed, Traced.emit_bind]
          have zero := not_not.mp failed
          by_cases frees : transfer.srcHash ≠ "" ∧ attempt.frees = true
          · rw [if_pos frees]
            exact wrote effects [.freeStore transfer.srcHash] .success (.inr stashes)
              (fun _ none_ => absurd none_ some_) (fun _ => zero) (.inr ⟨zero, stashes, rfl⟩)
          · rw [if_neg frees]
            exact wrote effects [] .success (.inr stashes) (fun _ none_ => absurd none_ some_)
              (fun _ => zero) (.inl rfl)
    | plain notWritten stash =>
        rw [Traced.some_bind]
        dsimp only
        rw [if_neg (goesOn true rfl)]
        change transfer.Course disk ⟨[] ++ (attempt.writeTarget transfer.cmd
          (Setting.targetBlock transfer.cmd) transfer.source >>= _).events,
          (attempt.writeTarget transfer.cmd (Setting.targetBlock transfer.cmd)
            transfer.source >>= _).result⟩
        rw [writes, Traced.some_bind]
        dsimp only
        by_cases failed : ret ≠ 0
        · rw [if_pos failed]
          refine wrote [] [] _ (.inl rfl) (fun overlapping _ => stash overlapping) ?_ (.inl rfl)
          intro success
          split at success
          · cases success
          · cases success
        · rw [if_neg failed, if_neg fun both => both.1 rfl]
          exact wrote [] [] .success (.inl rfl) (fun overlapping _ => stash overlapping)
            (fun _ => not_not.mp failed) (.inl rfl)

end Execute

end Course

section After

variable {transfer} {first disk : Disk}

theorem prefix_append_cases {α : Type} {begun front back : List α} (split : begun <+: front ++ back) :
    begun <+: front ∨ ∃ rest, begun = front ++ rest ∧ rest <+: back := by
  rcases List.prefix_or_prefix_of_prefix split (List.prefix_append front back) with short | long
  · exact .inl short
  · obtain ⟨rest, rfl⟩ := long
    exact .inr ⟨rest, rfl, (List.prefix_append_right_inj front).mp split⟩

/-- The disk after a part of the making of the stash. -/
theorem Stashes.after {effects : List Effect} (stashes : transfer.Stashes disk effects) :
    disk.performAll effects = disk ∨
      ∃ data, disk.performAll effects =
        { disk with store := Function.update disk.store transfer.srcHash (some data) } := by
  obtain ⟨-, begun, -, -⟩ := stashes
  cases effects with
  | nil => exact .inl rfl
  | cons effect effects =>
      obtain ⟨rfl, rest⟩ := List.cons_prefix_cons.mp begun
      obtain ⟨data, -, rfl⟩ := List.prefix_map_iff.mp rest
      exact .inr ⟨data, disk.performAll_stash transfer.srcHash data⟩

theorem Stashes.shorter {effects fewer : List Effect} (stashes : transfer.Stashes disk effects)
    (begun : fewer <+: effects) : transfer.Stashes disk fewer :=
  ⟨stashes.overlaps, begun.trans stashes.begun, stashes.absent, stashes.notNamed⟩

/-- A stash that is begun is there. -/
theorem Stashes.stored {effects : List Effect} (stashes : transfer.Stashes disk effects)
    (some_ : effects ≠ []) : (disk.performAll effects).store transfer.srcHash ≠ none := by
  cases effects with
  | nil => exact absurd rfl some_
  | cons effect effects =>
      obtain ⟨-, begun, -, -⟩ := stashes
      obtain ⟨rfl, rest⟩ := List.cons_prefix_cons.mp begun
      obtain ⟨data, -, rfl⟩ := List.prefix_map_iff.mp rest
      have after := disk.performAll_stash transfer.srcHash data
      rw [Effect.stash] at after
      rw [after]
      dsimp only
      rw [Function.update_self]
      exact nofun

theorem Stashes.first_absent {effects : List Effect} (stashes : transfer.Stashes disk effects)
    (kin : transfer.Kin first disk) : first.store transfer.srcHash = none := by
  rcases kin.stash with same | ⟨absent, -⟩
  · rw [← same, stashes.absent]
  · exact absent

theorem Kin.stashed {effects : List Effect} (kin : transfer.Kin first disk)
    (stashes : transfer.Stashes disk effects) : transfer.Kin first (disk.performAll effects) := by
  rcases stashes.after with same | ⟨data, made⟩
  · rw [same]
    exact kin
  · rw [made]
    refine ⟨kin.ownSource, fun name other => ?_, .inr ⟨stashes.first_absent kin, stashes.notNamed⟩⟩
    exact (Function.update_of_ne other _ _).trans (kin.others name other)

theorem Stashes.target {effects : List Effect} (stashes : transfer.Stashes disk effects) :
    (disk.performAll effects).target = disk.target := by
  rcases stashes.after with same | ⟨data, made⟩
  · rw [same]
  · rw [made]

theorem Kin.retargeted (kin : transfer.Kin first disk) (target : Nat → UInt8) :
    transfer.Kin first { disk with target := target } :=
  ⟨kin.ownSource, kin.others, kin.stash⟩

theorem performAll_content (meant : transfer.Meant) {count : Nat}
    (all : transfer.places.length ≤ count) :
    transfer.Written (disk.performAll
      ((Effect.writes transfer.places transfer.content).take count)) := by
  have length := Effect.length_writes meant.length
  rw [List.take_of_length_le (by rw [length]; exact all), disk.performAll_writes]
  exact map_putBytes meant.onDevice.nodup_places meant.length

/-- What a call can leave: the content; or else, a target that is as before, or a target of which the
source has a stash where they overlap, with stashes as before but for one that was made. -/
structure Reaches (transfer : Transfer) (first disk after : Disk) : Prop where
  kin : transfer.Kin first after
  store : transfer.Written after ∨ after.store = disk.store ∨
    Setting.overlaps transfer.cmd (Setting.targetBlock transfer.cmd)
      (Setting.targetPos transfer.cmd + 2) = true ∧ disk.store transfer.srcHash = none
  target : transfer.Written after ∨ after.target = disk.target ∨
    ¬transfer.Skips ∧ (Setting.overlaps transfer.cmd (Setting.targetBlock transfer.cmd)
      (Setting.targetPos transfer.cmd + 2) = true → after.store transfer.srcHash ≠ none)

theorem Stashes.reaches {effects : List Effect} (stashes : transfer.Stashes disk effects)
    (kin : transfer.Kin first disk) : transfer.Reaches first disk (disk.performAll effects) :=
  ⟨kin.stashed stashes, .inr (.inr ⟨stashes.overlaps, stashes.absent⟩),
    .inr (.inl stashes.target)⟩

theorem Reaches.refl (kin : transfer.Kin first disk) : transfer.Reaches first disk disk :=
  ⟨kin, .inr (.inl rfl), .inr (.inl rfl)⟩

/-- A part of the content written behind the stash. -/
theorem reaches_writes {stash : List Effect} {count : Nat} (kin : transfer.Kin first disk)
    (goesOn : ¬transfer.Skips) (made : stash = [] ∨ transfer.Stashes disk stash)
    (kept : Setting.overlaps transfer.cmd (Setting.targetBlock transfer.cmd)
      (Setting.targetPos transfer.cmd + 2) = true → stash = [] →
        disk.store transfer.srcHash ≠ none) :
    transfer.Reaches first disk ((disk.performAll stash).performAll
      ((Effect.writes transfer.places transfer.content).take count)) := by
  rw [Effect.take_writes, Disk.performAll_writes]
  rcases made with rfl | stashes
  · exact ⟨kin.retargeted _, .inr (.inl rfl),
      .inr (.inr ⟨goesOn, fun overlapping => kept overlapping rfl⟩)⟩
  · refine ⟨(kin.stashed stashes).retargeted _, .inr (.inr ⟨stashes.overlaps, stashes.absent⟩),
      .inr (.inr ⟨goesOn, fun overlapping => ?_⟩)⟩
    by_cases none_ : stash = []
    · rw [none_]
      exact kept overlapping none_
    · exact stashes.stored none_

theorem Kin.freed {stash : List Effect} (kin : transfer.Kin first disk)
    (stashes : transfer.Stashes disk stash) {after : Disk} (next : transfer.Kin first after) :
    transfer.Kin first (after.performAll [.freeStore transfer.srcHash]) := by
  refine ⟨next.ownSource, fun name other => ?_, .inl ?_⟩
  · exact (Function.update_of_ne other _ _).trans (next.others name other)
  · exact (Function.update_self _ _ _).trans (stashes.first_absent kin).symm

/-- Wherever a call is stopped. -/
theorem Course.reaches {run : Traced Effect CommandResult} (meant : transfer.Meant)
    (kin : transfer.Kin first disk) (course : transfer.Course disk run) {effects : List Effect}
    (begun : effects <+: run.events) : transfer.Reaches first disk (disk.performAll effects) := by
  cases course with
  | stays result _ =>
      rw [List.prefix_nil.mp begun]
      exact .refl kin
  | stops stash stashes => exact (stashes.shorter begun).reaches kin
  | writes stash freed count result goesOn made kept success frees =>
      rcases prefix_append_cases begun with inStash | ⟨rest, rfl, rest_⟩
      · rcases made with rfl | stashes
        · rw [List.prefix_nil.mp inStash]
          exact .refl kin
        · exact (stashes.shorter inStash).reaches kin
      · rw [Disk.performAll_append]
        rcases prefix_append_cases rest_ with inWrites | ⟨last, rfl, last_⟩
        · rw [List.prefix_iff_eq_take.mp inWrites, List.take_take]
          exact reaches_writes kin goesOn made kept
        · have written := @reaches_writes transfer first disk stash count kin goesOn made kept
          rw [Disk.performAll_append]
          rcases frees with rfl | ⟨all, stashes, rfl⟩
          · rw [List.prefix_nil.mp last_]
            exact written
          · cases last with
            | nil => exact written
            | cons effect last =>
                obtain ⟨rfl, none_⟩ := List.cons_prefix_cons.mp last_
                have content := @performAll_content transfer (disk.performAll stash) meant count all
                rw [List.prefix_nil.mp none_]
                exact ⟨kin.freed stashes written.kin, .inl content, .inl content⟩

theorem Course.result_ne_none {run : Traced Effect CommandResult}
    (course : transfer.Course disk run) : run.result ≠ none := by
  cases course with
  | stays result _ => exact nofun
  | stops effects _ => exact nofun
  | writes stash freed count result => exact nofun

/-- Where a call returns success, it leaves the content. -/
theorem Course.success {run : Traced Effect CommandResult} (meant : transfer.Meant)
    (course : transfer.Course disk run) (done_ : run.result = some .success) :
    transfer.Written (disk.performAll run.events) := by
  cases course with
  | stays result written => exact written (Option.some.inj done_)
  | stops stash stashes => exact nomatch Option.some.inj done_
  | writes stash freed count result goesOn made kept success frees =>
      have content := @performAll_content transfer (disk.performAll stash) meant count
        (success (Option.some.inj done_))
      rw [Disk.performAll_append, Disk.performAll_append]
      rcases frees with rfl | ⟨-, -, rfl⟩
      · exact content
      · exact content

/-- A call that is spared takes the calls on to the next one. -/
theorem Reaches.phase {after : Disk} (reaches : transfer.Reaches first disk after)
    (phase : transfer.Phase first disk)
    (spares : transfer.Short after → after.target = disk.target ∨ transfer.Written after) :
    transfer.Phase first after := by
  by_cases written : transfer.Written after
  · exact .written written
  · have store := reaches.store.resolve_left written
    by_cases same : after.target = disk.target
    · cases phase with
      | untouched before => exact .untouched (same.trans before)
      | torn goesOn whole stash =>
          have stores : after.store = disk.store :=
            store.resolve_right fun both => stash both.1 both.2
          refine .torn goesOn ?_ ?_
          · rw [Short, stores]
            exact whole
          · rw [stores]
            exact stash
      | written before =>
          refine .written ?_
          rw [Written, same]
          exact before
    · obtain ⟨goesOn, stash⟩ := (reaches.target.resolve_left written).resolve_left same
      exact .torn goesOn (fun short => (spares short).elim same written) stash

end After

section Runs

variable {transfer} {first : Disk} {attempts : List Attempt}

/-- A command that is stopped and called again, any number of times, is safe in every call, if no
call is stopped or fails in the middle of the target blocks while a stash is there that has whole
blocks of the source but not all of them. -/
theorem safe_of_spared (meant : transfer.Meant) (supplies : transfer.Supplies first)
    (skipped : transfer.Skips → transfer.Written first)
    (spared : Along (fun attempt disk => attempt.after transfer.cmd disk)
      (fun attempt disk => transfer.Calls attempt disk ∧ transfer.Spares attempt disk)
      first attempts) :
    Along (fun attempt disk => attempt.after transfer.cmd disk) transfer.Safe first attempts := by
  refine @Along.imp _ _ _ _ (fun disk => transfer.Kin first disk ∧ transfer.Phase first disk) _
    ?_ ?_ first attempts ⟨.refl first, .untouched rfl⟩ spared
  · rintro attempt disk ⟨kin, phase⟩ ⟨calls, -⟩
    have course := execute_course meant supplies skipped kin phase calls
    refine ⟨course.result_ne_none, ?_, ?_⟩
    · intro loaded found loads
      have gathers := loadTarget_gathers meant supplies kin phase calls
      generalize attempt.loadTarget transfer.cmd (Setting.argsStart transfer.cmd) = run
        at gathers found
      cases gathers with
      | stays result buffer _ =>
          cases found
          exact nomatch loads
      | stops effects buffer _ =>
          cases found
          exact nomatch loads
      | stashed effects _ _ _ =>
          cases found
          rfl
      | plain _ _ =>
          cases found
          rfl
    · rintro ⟨whole, success⟩
      rw [Attempt.after, Attempt.effects, whole]
      exact course.success meant success
  · rintro attempt disk ⟨kin, phase⟩ ⟨calls, spares⟩
    have course := execute_course meant supplies skipped kin phase calls
    have begun : attempt.effects transfer.cmd <+: (attempt.execute transfer.cmd).events := by
      rw [Attempt.effects]
      split
      · exact List.prefix_rfl
      · exact List.take_prefix _ _
    have reaches := course.reaches meant kin begun
    exact ⟨reaches.kin, reaches.phase phase spares⟩

end Runs

/-- The digest of a block of ones. -/
def onesDigest : String :=
  "3431383721510cf1c211de027cf958c183e16db5fabb6b230eb284c85e196aa9"

def zeroBlock : Bytes := List.replicate 4096 0

def oneBlock : Bytes := List.replicate 4096 1

/-- A digest that is right for a block of zeros and for a block of ones. -/
def blockDigest (bytes : Bytes) : String :=
  if bytes = zeroBlock then Setting.zerosDigest
  else if bytes = oneBlock then onesDigest
  else ""

/-- A diff of the first block to itself. -/
def blockDiff : Command where
  type := .bsdiff
  cmdhead := "bsdiff"
  cmdLine := "bsdiff 0 64 " ++ Setting.zerosDigest ++ " " ++ onesDigest ++ " 2,0,1 1 2,0,1"
  tokens := ["bsdiff", "0", "64", Setting.zerosDigest, onesDigest, "2,0,1", "1", "2,0,1"]
  isStreamCmd := false

def blockTransfer : Transfer where
  cmd := blockDiff
  offset := 0
  inPlaceDiff := true
  sha256Hex := blockDigest
  source := zeroBlock
  content := oneBlock

/-- A call that nothing fails in. -/
def blockAttempt (store : String → Option StoreFile) (device : Nat → UInt8) (crash : Option Nat) :
    Attempt :=
  { Setting.zeros with
    inPlaceDiff := true
    source := device
    target := device
    store
    sha256Hex := blockDigest
    patch := fun _ => [oneBlock]
    storeWritten := 0
    targetWritten := 0
    frees := true
    crash }

def blockDisk (store : String → Option StoreFile) (device : Nat → UInt8) : Disk where
  store fileName := (store fileName).map StoreFile.content
  target := device
  ownSource := none

theorem blockDiff_init : Command.init ("bsdiff 0 64 " ++ Setting.zerosDigest ++ " " ++ onesDigest ++
    " 2,0,1 1 2,0,1") false = some blockDiff := by
  decide +kernel

theorem blockDiff_target : Setting.targetBlock blockDiff = [(0, 1)] := by
  decide +kernel

theorem blockDiff_args : Setting.srcBlockSize blockDiff = 1 ∧ Setting.targetPos blockDiff = 5 ∧
    blockTransfer.srcHash = Setting.zerosDigest ∧ blockTransfer.tgtHash = onesDigest := by
  decide +kernel

theorem blockRange : BlockSet.OnDevice [(0, 1)] 0 ∧ BlockSet.Seekable [(0, 1)] 0 ∧
    BlockSet.places 0 [(0, 1)] = List.range' 0 4096 := by
  refine ⟨⟨by decide, List.pairwise_singleton _ _, by decide⟩, ?_, ?_⟩
  · intro pair member
    rw [List.mem_singleton.mp member]
    decide
  · have size : BlockPair.size (0, 1) = 4096 := by decide
    rw [BlockSet.places, List.flatMap_singleton, size]
    exact congrArg (List.range' · 4096) (Nat.zero_mul _)

theorem blockTransfer_places : blockTransfer.places = List.range' 0 4096 := by
  rw [places, blockTransfer, blockDiff_target]
  exact blockRange.2.2

theorem length_zeroBlock : zeroBlock.length = 4096 :=
  List.length_replicate

theorem length_oneBlock : oneBlock.length = 4096 :=
  List.length_replicate

theorem zeros_ne_ones : zeroBlock ≠ oneBlock := by
  intro same
  have byte := (List.replicate_right_inj (by decide)).mp same
  exact absurd byte (by decide)

theorem blockDigest_zeros : blockDigest (zeroBlock) = Setting.zerosDigest :=
  if_pos rfl

theorem blockDigest_ones : blockDigest (oneBlock) = onesDigest := by
  rw [blockDigest, if_neg zeros_ne_ones.symm, if_pos rfl]

theorem blockDigest_eq {bytes : Bytes} :
    (blockDigest bytes = Setting.zerosDigest → bytes = zeroBlock) ∧
      (blockDigest bytes = onesDigest → bytes = oneBlock) := by
  rw [blockDigest]
  split
  · rename_i zeros
    exact ⟨fun _ => zeros, fun other => absurd other (by decide)⟩
  · split
    · rename_i ones
      exact ⟨fun other => absurd other (by decide), fun _ => ones⟩
    · exact ⟨fun other => absurd other (by decide), fun other => absurd other (by decide)⟩

theorem blockTransfer_meant : blockTransfer.Meant where
  type := .inr (.inl rfl)
  notStream := rfl
  onDevice := by
    rw [blockTransfer, blockDiff_target]
    exact blockRange.1
  length := by
    rw [blockTransfer_places, List.length_range']
    exact length_oneBlock
  srcDigest := by
    have source : blockTransfer.source = zeroBlock := rfl
    have digest : blockTransfer.sha256Hex = blockDigest := rfl
    rw [blockDiff_args.2.2.1, source, digest, blockDigest_zeros]
  tgtDigest := by
    have content : blockTransfer.content = oneBlock := rfl
    have digest : blockTransfer.sha256Hex = blockDigest := rfl
    rw [blockDiff_args.2.2.2, content, digest, blockDigest_ones]
  moved := nofun

section Block

variable {setting : Setting}

/-- All of the block is read. -/
theorem block_read (offset : setting.offset = 0) :
    setting.readTarget (Setting.targetBlock blockDiff)
        (List.replicate (BlockSet.blocksSize (Setting.targetBlock blockDiff)) 0) =
      if setting.targetFails [(0, 1)] then (0, zeroBlock)
      else (4096, (List.range' 0 4096).map setting.target) := by
  have size : BlockSet.blocksSize [(0, 1)] = 4096 := by decide
  rw [blockDiff_target, size, Setting.readTarget, BlockSet.readDataFromBlock, offset,
    BlockSet.readLoop_eq blockRange.1 blockRange.2.1
      (by rw [blockRange.2.2, List.length_range', List.length_replicate]),
    blockRange.2.2, List.length_replicate, List.take_zero, List.nil_append, zeroBlock]

/-- The block is the source, if it can be read. -/
theorem block_source : (setting.sourceOf blockDiff).pieces = [] ∧
    (setting.sourceFails [(0, 1)] = true → (setting.sourceOf blockDiff).loads = false) ∧
    (setting.sourceFails [(0, 1)] = false → (setting.sourceOf blockDiff).loads = true ∧
      setting.loadedSource blockDiff = (List.range' 0 4096).map setting.source) := by
  have size : Setting.srcBufferSize blockDiff = 4096 := by decide +kernel
  have ranges : blockSetOf (blockDiff.getArgumentByPos 7) = [(0, 1)] := by decide +kernel
  have some_ : blockDiff.getArgumentByPos 7 ≠ "-" := by decide
  have last : blockDiff.getArgumentByPos 8 = "" := rfl
  have gathers : setting.sourceOf blockDiff =
      if setting.sourceFails [(0, 1)] then ⟨zeroBlock, [], false⟩
      else ⟨(List.range' 0 4096).map setting.source, [], true⟩ := by
    rw [Setting.sourceOf, size, blockDiff_args.2.1, Setting.gathering]
    dsimp only
    rw [if_pos some_, ranges, if_pos last, Setting.readSource, BlockSet.readDataFromBlock,
      BlockSet.readLoop_eq blockRange.1 blockRange.2.1
        (by rw [blockRange.2.2, List.length_range', List.length_replicate]),
      blockRange.2.2, List.length_replicate, List.take_zero, List.nil_append]
    split
    · rfl
    · rfl
  rw [Setting.loadedSource, gathers, size]
  cases setting.sourceFails [(0, 1)] with
  | true => exact ⟨rfl, fun _ => rfl, fun other => by cases other⟩
  | false =>
      refine ⟨rfl, (fun other => by cases other), fun _ => ⟨rfl, ?_⟩⟩
      have read := (Memory.holds_ofBytes ((List.range' 0 4096).map setting.source)).read_zero
      rw [List.length_map, List.length_range'] at read
      exact read

end Block

theorem map_zero : (List.range' 0 4096).map (fun _ => (0 : UInt8)) = zeroBlock := by
  rw [List.map_const', List.length_range', zeroBlock]

/-- Devices of zeros, and no stash. -/
def blankDisk : Disk :=
  blockDisk (fun _ => none) fun _ => 0

theorem blankDisk_supplies : blockTransfer.Supplies blankDisk := by
  intro setting answers
  obtain ⟨pieces, fails, works⟩ := @block_source setting
  refine ⟨?_, fun loads => ?_⟩
  · change ∀ piece ∈ (setting.sourceOf blockDiff).pieces, _
    rw [pieces]
    exact nofun
  · cases same : setting.sourceFails [(0, 1)] with
    | true => exact nomatch (fails same).symm.trans loads
    | false =>
        have source := (works same).2
        rw [answers.source] at source
        exact source.trans map_zero

theorem blockTransfer_goesOn : ¬blockTransfer.Skips :=
  fun skips => nomatch skips.1

theorem blockAttempt_calls (store : String → Option StoreFile) (device : Nat → UInt8)
    (crash : Option Nat) :
    blockTransfer.Calls (blockAttempt store device crash) (blockDisk store device) where
  answers := ⟨rfl, rfl, rfl, rfl, rfl, rfl, fun _ => rfl⟩
  patch _ := by
    have patch : (blockAttempt store device crash).patch blockTransfer.source = [oneBlock] := rfl
    have content : blockTransfer.content = oneBlock := rfl
    rw [patch, List.flatten_singleton, content]
  sourceDigest _ same := by
    have digest : blockTransfer.sha256Hex = blockDigest := rfl
    rw [blockDiff_args.2.2.1, digest] at same
    exact blockDigest_eq.1 same
  targetDigest same := by
    have digest : blockTransfer.sha256Hex = blockDigest := rfl
    rw [blockDiff_args.2.2.2, digest] at same
    exact blockDigest_eq.2 same

section Calls

variable {store : String → Option StoreFile} {device : Nat → UInt8} {crash : Option Nat}

/-- Where the block has another content than it shall get, its source is loaded. -/
theorem blockAttempt_loadTarget
    (differs : (List.range' 0 4096).map device ≠ oneBlock) :
    (blockAttempt store device crash).loadTarget blockDiff (Setting.argsStart blockDiff) =
      (blockAttempt store device crash).loadSourceBlocks blockDiff [(0, 1)] 6
        Setting.zerosDigest := by
  have calls := blockAttempt_calls store device crash
  have goesOn : (blockAttempt store device crash).TargetDiffers blockDiff := by
    rw [Setting.TargetDiffers, block_read rfl]
    have works : (blockAttempt store device crash).targetFails [(0, 1)] = false := rfl
    rw [works, if_neg Bool.false_ne_true]
    refine ⟨(by decide : 4096 ≠ 0), fun same => differs (blockDigest_eq.2 ?_)⟩
    exact same.trans blockDiff_args.2.2.2
  rcases loadTarget_cases blockTransfer_meant calls with ⟨-, run⟩ | ⟨stays, -⟩
  · have found := run
    rw [blockDiff_args.2.2.1] at found
    change _ = (blockAttempt store device crash).loadSourceBlocks blockDiff
      (Setting.targetBlock blockDiff) (Setting.targetPos blockDiff + 1) _ at found
    rw [blockDiff_target, blockDiff_args.2.1] at found
    exact found
  · exact absurd goesOn stays

theorem blockAttempt_source :
    (blockAttempt store device crash).loadTargetBuffer blockDiff [(0, 1)]
        (List.replicate (1 * hBlockSize % sizeMax) 0) 1 7 Setting.zerosDigest =
      if blockDigest ((List.range' 0 4096).map device) = Setting.zerosDigest then
        if Setting.overlaps blockDiff [(0, 1)] 7 && (store Setting.zerosDigest).isNone then do
          let ret ← (blockAttempt store device crash).writeDataToStore Setting.zerosDigest
            ((List.range' 0 4096).map device) (1 * hBlockSize % sizeMax)
          pure (if ret ≠ 0 then -1 else 0, (List.range' 0 4096).map device, Setting.zerosDigest)
        else pure (0, (List.range' 0 4096).map device, "")
      else
        let loaded := (blockAttempt store device crash).loadDataFromStore Setting.zerosDigest
          ((List.range' 0 4096).map device)
        pure (if loaded.1 = 0 then 0 else -1, loaded.2, "") := by
  obtain ⟨pieces, -, works⟩ := @block_source (blockAttempt store device crash).toSetting
  obtain ⟨loads, source⟩ := works rfl
  have size : Setting.srcBufferSize blockDiff = 1 * hBlockSize % sizeMax := by
    rw [Setting.srcBufferSize, blockDiff_args.1]
  rw [Setting.sourceOf, size, blockDiff_args.2.1] at pieces loads
  rw [Setting.loadedSource, Setting.sourceOf, size, blockDiff_args.2.1] at source
  exact Attempt.loadTargetBuffer_eq (by rw [pieces]; exact fun _ other => by cases other) rfl rfl
    loads source

theorem blockDiff_overlaps : Setting.overlaps blockDiff [(0, 1)] 7 = true := by
  decide +kernel

theorem blockAttempt_loads
    (differs : (List.range' 0 4096).map device ≠ oneBlock) :
    (blockAttempt store device crash).loadTarget blockDiff (Setting.argsStart blockDiff) =
      (blockAttempt store device crash).loadTargetBuffer blockDiff [(0, 1)]
        (List.replicate (1 * hBlockSize % sizeMax) 0) 1 7 Setting.zerosDigest >>= fun loaded =>
          pure (if loaded.1 ≠ 0 then ⟨false, .failed, loaded.2.1⟩
            else ⟨true, .success, loaded.2.1⟩, loaded.2.2) := by
  have one : string2Int (blockDiff.getArgumentByPos 6) nDec = 1 := by decide +kernel
  rw [blockAttempt_loadTarget differs, Attempt.loadSourceBlocks]
  dsimp only
  rw [one]

/-- The first call makes the stash before anything else. -/
theorem blockAttempt_stashes :
    (blockAttempt (fun _ => none) (fun _ => 0) crash).loadTarget blockDiff
        (Setting.argsStart blockDiff) =
      ⟨Effect.stash Setting.zerosDigest zeroBlock,
        some (⟨true, .success, zeroBlock⟩, Setting.zerosDigest)⟩ := by
  have differs : (List.range' 0 4096).map (fun _ => (0 : UInt8)) ≠ oneBlock := by
    rw [map_zero]
    exact zeros_ne_ones
  have size : 1 * hBlockSize % sizeMax = 4096 := by decide
  have whole : slice zeroBlock 0 4096 = zeroBlock := by
    have all := slice_full zeroBlock
    rw [length_zeroBlock] at all
    exact all
  have stored : (blockAttempt (fun _ => none) (fun _ => 0) crash).toSetting.writeDataToStore
      zeroBlock 4096 = some 0 := by
    have inside : 0 + 4096 % 2 ^ 32 ≤ zeroBlock.length := by
      rw [length_zeroBlock]
      decide
    rw [Setting.writeDataToStore, if_neg (by decide), checkedSlice, if_pos inside]
    rfl
  have stashes : (blockAttempt (fun _ => none) (fun _ => 0) crash).writeDataToStore
      Setting.zerosDigest zeroBlock 4096 =
        ⟨Effect.stash Setting.zerosDigest zeroBlock, some 0⟩ := by
    have low : 4096 % 2 ^ 32 = 4096 := by decide
    rw [Attempt.writeDataToStore, stored, Traced.ofOption_some_bind]
    dsimp only
    rw [if_pos rfl, if_neg (by decide), low, whole, Traced.emit_bind]
    exact congrArg₂ Traced.mk (List.append_nil _) rfl
  have absent : (true && (none : Option StoreFile).isNone) = true := rfl
  rw [blockAttempt_loads differs, blockAttempt_source, map_zero, size, stashes, blockDiff_overlaps,
    if_pos blockDigest_zeros, if_pos absent, Traced.some_bind]
  exact congrArg₂ Traced.mk ((List.append_nil _).trans (List.append_nil _)) rfl

/-- A stash of no bytes. -/
def emptyStash (fileName : String) : Option StoreFile :=
  if fileName = Setting.zerosDigest then some ⟨[], by decide, true, true⟩ else none

theorem emptyStash_found : emptyStash Setting.zerosDigest = some ⟨[], by decide, true, true⟩ :=
  if_pos rfl

/-- With a stash there, the second call goes on without one. -/
theorem blockAttempt_plain :
    (blockAttempt emptyStash (fun _ => 0) crash).loadTarget blockDiff
        (Setting.argsStart blockDiff) =
      ⟨[], some (⟨true, .success, zeroBlock⟩, "")⟩ := by
  have differs : (List.range' 0 4096).map (fun _ => (0 : UInt8)) ≠ oneBlock := by
    rw [map_zero]
    exact zeros_ne_ones
  rw [blockAttempt_loads differs, blockAttempt_source, map_zero, emptyStash_found,
    blockDiff_overlaps, if_pos blockDigest_zeros]
  rfl

/-- The device of the block once its first byte is written. -/
def tornDevice : Nat → UInt8 :=
  Function.update (fun _ => 0) 0 1

theorem tornDevice_block : (List.range' 0 4096).map tornDevice ≠ zeroBlock ∧
    (List.range' 0 4096).map tornDevice ≠ oneBlock := by
  have block : ∀ byte : UInt8, (List.range' 0 4096).map tornDevice = List.replicate 4096 byte →
      tornDevice 0 = byte ∧ tornDevice 1 = byte := by
    intro byte same
    have all : ∀ place ∈ List.range' 0 4096, tornDevice place = byte := by
      intro place member
      have found := List.mem_map_of_mem member (f := tornDevice)
      rw [same] at found
      exact List.eq_of_mem_replicate found
    exact ⟨all 0 (by decide), all 1 (by decide)⟩
  refine ⟨fun same => ?_, fun same => ?_⟩
  · exact absurd (block 0 same).1 (by decide)
  · exact absurd (block 1 same).2 (by decide)

/-- The third call takes the empty stash for the source. -/
theorem blockAttempt_takes :
    (blockAttempt emptyStash tornDevice crash).loadTarget blockDiff (Setting.argsStart blockDiff) =
      ⟨[], some (⟨true, .success, []⟩, "")⟩ := by
  obtain ⟨notZeros, notOnes⟩ := tornDevice_block
  have digest : blockDigest ((List.range' 0 4096).map tornDevice) ≠ Setting.zerosDigest :=
    fun same => notZeros (blockDigest_eq.1 same)
  have loaded : (blockAttempt emptyStash tornDevice crash).loadDataFromStore Setting.zerosDigest
      ((List.range' 0 4096).map tornDevice) = (0, []) := by
    have found : (blockAttempt emptyStash tornDevice crash).store Setting.zerosDigest =
        some ⟨[], by decide, true, true⟩ := emptyStash_found
    rw [Setting.loadDataFromStore, found]
    rfl
  rw [blockAttempt_loads notOnes, blockAttempt_source, if_neg digest, loaded]
  rfl

end Calls

/-- A call goes on to the target with what it has loaded. -/
theorem blockAttempt_events {store : String → Option StoreFile} {device : Nat → UInt8}
    {crash : Option Nat} {stash : List Effect} {freeStash : String}
    (loads : (blockAttempt store device crash).loadTarget blockDiff (Setting.argsStart blockDiff) =
      ⟨stash, some (⟨true, .success, zeroBlock⟩, freeStash)⟩) :
    ∃ more, ((blockAttempt store device crash).execute blockDiff).events =
      stash ++ (Effect.writes (List.range' 0 4096) oneBlock ++ more) := by
  have answers := (blockAttempt_calls store device crash).answers
  have goesOn : ¬(true = false ∨ (blockAttempt store device crash).canWrite = false) := by
    rintro (lost | readOnly)
    · cases lost
    · cases readOnly
  have diff : blockDiff.type ≠ .move ∧ blockDiff.type ≠ .copy := by decide
  have written : (blockAttempt store device crash).writeDiffToBlock [(0, 1)] zeroBlock =
      ⟨Effect.writes (List.range' 0 4096) oneBlock, some 0⟩ := by
    have patch : (blockAttempt store device crash).patch zeroBlock = [oneBlock] := rfl
    have patched : (blockAttempt store device crash).patched = 0 := rfl
    have offset : (blockAttempt store device crash).offset = 0 := rfl
    rw [Attempt.writeDiffToBlock, patch, patched, offset, blockRange.2.2, List.flatten_singleton,
      if_pos rfl, Traced.emit_bind]
    exact congrArg₂ Traced.mk (List.append_nil _) rfl
  have target : blockSetOf (blockDiff.getArgumentByPos
      (Setting.hashes blockDiff (Setting.argsStart blockDiff)).pos) = [(0, 1)] := blockDiff_target
  have skips : ¬(blockAttempt store device crash).skipInPlaceMove blockDiff = true :=
    mt (skips_iff answers).mp blockTransfer_goesOn
  rw [Attempt.execute, if_neg skips, loads, Traced.some_bind]
  dsimp only
  rw [if_neg goesOn, target, Attempt.writeTarget, if_pos diff, written, Traced.some_bind]
  exact ⟨_, rfl⟩

/-- The calls of a diff that is stopped twice: when it has created the stash, and when it has written
one byte. -/
def stoppedTwice : List Attempt :=
  [blockAttempt (fun _ => none) (fun _ => 0) (some 1),
    blockAttempt emptyStash (fun _ => 0) (some 1),
    blockAttempt emptyStash tornDevice none]

theorem stoppedTwice_first :
    (blockAttempt (fun _ => none) (fun _ => 0) (some 1)).after blockDiff blankDisk =
      blockDisk emptyStash fun _ => 0 := by
  obtain ⟨more, events⟩ := blockAttempt_events (@blockAttempt_stashes (some 1))
  have effects : (blockAttempt (fun _ => none) (fun _ => 0) (some 1)).effects blockDiff =
      [.createStore Setting.zerosDigest] := by
    rw [Attempt.effects]
    change List.take 1 ((blockAttempt (fun _ => none) (fun _ => 0) (some 1)).execute
      blockDiff).events = _
    rw [events]
    rfl
  have stores : Function.update (fun _ => none) Setting.zerosDigest (some []) =
      fun fileName => (emptyStash fileName).map StoreFile.content := by
    funext fileName
    by_cases same : fileName = Setting.zerosDigest
    · rw [same, Function.update_self, emptyStash_found, Option.map_some]
    · rw [Function.update_of_ne same, emptyStash, if_neg same, Option.map_none]
  rw [Attempt.after, effects]
  exact congrArg (fun store => Disk.mk store (fun _ => 0) none) stores

theorem stoppedTwice_second :
    (blockAttempt emptyStash (fun _ => 0) (some 1)).after blockDiff
        (blockDisk emptyStash fun _ => 0) = blockDisk emptyStash tornDevice := by
  obtain ⟨more, events⟩ := blockAttempt_events (@blockAttempt_plain (some 1))
  have effects : (blockAttempt emptyStash (fun _ => 0) (some 1)).effects blockDiff =
      [.writeTarget 0 1] := by
    rw [Attempt.effects]
    change List.take 1 ((blockAttempt emptyStash (fun _ => 0) (some 1)).execute
      blockDiff).events = _
    rw [events, oneBlock, List.range'_succ, List.replicate_succ]
    rfl
  rw [Attempt.after, effects]
  rfl

theorem stoppedOnce_safe :
    Along (fun attempt disk => attempt.after blockTransfer.cmd disk) blockTransfer.Safe blankDisk
      [blockAttempt (fun _ => none) (fun _ => 0) (some 1)] := by
  refine safe_of_spared blockTransfer_meant blankDisk_supplies
    (fun skips => absurd skips blockTransfer_goesOn) ⟨⟨blockAttempt_calls _ _ _, fun _ => ?_⟩, trivial⟩
  left
  change (Attempt.after _ blockDiff _).target = _
  rw [stoppedTwice_first]
  rfl

/-- Stopped twice, the diff takes an empty stash for its source. -/
theorem stoppedTwice_unsafe :
    Command.init ("bsdiff 0 64 " ++ Setting.zerosDigest ++ " " ++ onesDigest ++
        " 2,0,1 1 2,0,1") false = some blockTransfer.cmd ∧
      blockTransfer.Meant ∧ blockTransfer.Supplies blankDisk ∧ ¬blockTransfer.Skips ∧
      Along (fun attempt disk => attempt.after blockTransfer.cmd disk) blockTransfer.Calls blankDisk
        stoppedTwice ∧
      ¬Along (fun attempt disk => attempt.after blockTransfer.cmd disk) blockTransfer.Safe blankDisk
        stoppedTwice := by
  have first := stoppedTwice_first
  have second := stoppedTwice_second
  refine ⟨blockDiff_init, blockTransfer_meant, blankDisk_supplies, blockTransfer_goesOn, ?_, ?_⟩
  · refine ⟨blockAttempt_calls _ _ _, ?_, ?_, trivial⟩
    · change blockTransfer.Calls _ (Attempt.after _ blockDiff _)
      rw [first]
      exact blockAttempt_calls _ _ _
    · change blockTransfer.Calls _ (Attempt.after _ blockDiff (Attempt.after _ blockDiff _))
      rw [first, second]
      exact blockAttempt_calls _ _ _
  · rintro ⟨-, -, safe, -⟩
    have taken := safe.source _ (congrArg Traced.result blockAttempt_takes) rfl
    have length := congrArg List.length taken
    exact absurd (length.trans length_zeroBlock) (by decide)

end Transfer
end Updater.ApplyPatch
