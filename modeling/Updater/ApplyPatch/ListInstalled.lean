import Updater.ApplyPatch.CrashSafety
import Updater.ApplyPatch.ListPasses

/-! A whole list of moves and diffs: when the passes over it come to their end, however often they
were stopped, the target has what all of the commands shall write. -/

set_option autoImplicit false

namespace Updater.ApplyPatch

open Updater.Base Updater.Utils

/-- A call of a command, and the disk that it found. -/
structure TransferCall where
  cmd : Command
  attempt : Attempt
  disk : Disk

/-- The disk, and the calls so far. -/
structure ListWorld where
  disk : Disk
  calls : List TransferCall

/-- `Execute` of the commands, with what devices and directory answer in each call. A call that is
stopped ends its pass as one that fails does. What a call adds to `written` counts for the progress
only. -/
def callCommand (attempts : Nat → Disk → Attempt) (counts : Nat → Nat) : CommandFunction ListWorld :=
  fun cmd written world =>
    let attempt := attempts world.calls.length world.disk
    let result :=
      if attempt.crash.isSome then .failed else (attempt.execute cmd).result.getD .failed
    (result, written + counts world.calls.length,
      { disk := attempt.after cmd world.disk
        calls := world.calls ++ [{ cmd, attempt, disk := world.disk }] })

theorem Disk.performAll_outside {effects : List Effect} {place : Nat}
    (outside : ∀ byte, Effect.writeTarget place byte ∉ effects) (disk : Disk) :
    (disk.performAll effects).target place = disk.target place := by
  induction effects generalizing disk with
  | nil => rfl
  | cons effect effects ih =>
      have rest := ih (fun byte member => outside byte (List.mem_cons_of_mem effect member))
        (disk.perform effect)
      refine rest.trans ?_
      cases effect with
      | createStore fileName => rfl
      | appendStore fileName byte => rfl
      | freeStore fileName => rfl
      | writeTarget other byte =>
          refine Function.update_of_ne (fun same => ?_) _ _
          subst same
          exact outside byte List.mem_cons_self

theorem Effect.mem_writes {places : List Nat} {data : Bytes} {place : Nat} {byte : UInt8}
    (member : Effect.writeTarget place byte ∈ Effect.writes places data) : place ∈ places := by
  obtain ⟨put, inside, same⟩ := List.mem_map.mp member
  cases same
  exact (List.of_mem_zip inside).1

theorem Effect.writeTarget_notMem_stash {fileName : String} {data : Bytes} {place : Nat}
    {byte : UInt8} : Effect.writeTarget place byte ∉ Effect.stash fileName data := by
  simp [Effect.stash]

namespace Transfer

variable {transfer : Transfer} {attempt : Attempt} {started disk : Disk}

theorem Stashes.notMem_target {effects : List Effect} (stashes : transfer.Stashes disk effects)
    {place : Nat} {byte : UInt8} : Effect.writeTarget place byte ∉ effects :=
  fun member => Effect.writeTarget_notMem_stash (stashes.begun.subset member)

/-- A command writes to its target blocks only. -/
theorem Course.inside {run : Traced Effect CommandResult} (course : transfer.Course disk run)
    {place : Nat} {byte : UInt8} (member : Effect.writeTarget place byte ∈ run.events) :
    place ∈ transfer.places := by
  cases course with
  | stays result written => exact absurd member (by simp)
  | stops effects stashes => exact absurd member stashes.notMem_target
  | writes stash freed count result goesOn made kept success frees =>
      obtain inStash | inRest := List.mem_append.mp member
      · obtain rfl | stashes := made
        · exact absurd inStash (by simp)
        · exact absurd inStash stashes.notMem_target
      · obtain inWrites | inFreed := List.mem_append.mp inRest
        · exact Effect.mem_writes (List.mem_of_mem_take inWrites)
        · obtain rfl | ⟨-, -, rfl⟩ := frees
          · exact absurd inFreed (by simp)
          · exact absurd inFreed (by simp)

/-- How a command stands that was begun on a disk. -/
structure Begun (transfer : Transfer) (started disk : Disk) : Prop where
  kin : transfer.Kin started disk
  phase : transfer.Phase started disk
  outside : ∀ place, place ∉ transfer.places → disk.target place = started.target place

theorem Begun.refl (transfer : Transfer) (disk : Disk) : transfer.Begun disk disk :=
  ⟨.refl disk, .untouched rfl, fun _ _ => rfl⟩

section Call

variable (meant : transfer.Meant) (supplies : transfer.Supplies started)
  (skipped : transfer.Skips → transfer.Written started) (begun : transfer.Begun started disk)
  (calls : transfer.Calls attempt disk)

include meant supplies skipped begun calls

theorem Begun.written (succeeds : attempt.Succeeds transfer.cmd) :
    transfer.Written (attempt.after transfer.cmd disk) := by
  have course := execute_course meant supplies skipped begun.kin begun.phase calls
  obtain ⟨whole, success⟩ := succeeds
  rw [Attempt.after, Attempt.effects, whole]
  exact course.success meant success

/-- Another call of the command. -/
theorem Begun.call (spares : transfer.Spares attempt disk) :
    transfer.Begun started (attempt.after transfer.cmd disk) := by
  have course := execute_course meant supplies skipped begun.kin begun.phase calls
  have part : attempt.effects transfer.cmd <+: (attempt.execute transfer.cmd).events := by
    rw [Attempt.effects]
    split
    · exact List.prefix_rfl
    · exact List.take_prefix _ _
  have reaches := course.reaches meant begun.kin part
  refine ⟨reaches.kin, reaches.phase begun.phase spares, fun place other => ?_⟩
  refine Eq.trans ?_ (begun.outside place other)
  exact Disk.performAll_outside (fun byte member => other (course.inside (part.subset member))) disk

end Call

end Transfer

/-- Two disks that differ in target blocks of the commands and in stashes of their sources only. -/
structure Disk.SameBut (transfers : List Transfer) (first disk : Disk) : Prop where
  target : ∀ place, (∀ transfer ∈ transfers, place ∉ transfer.places) →
    disk.target place = first.target place
  store : ∀ name, (∀ transfer ∈ transfers, name ≠ transfer.srcHash) →
    disk.store name = first.store name
  ownSource : disk.ownSource = first.ownSource

section List

variable {transfers : List Transfer} {first : Disk}

/-- A list whose commands write to blocks apart from each other, and none of which changes what a
later one reads. -/
structure Ordered (transfers : List Transfer) (first : Disk) : Prop where
  meant : ∀ transfer ∈ transfers, transfer.Meant
  apart : transfers.Pairwise fun transfer later => ∀ place ∈ transfer.places, place ∉ later.places
  kept : ∀ front transfer back, transfers = front ++ transfer :: back →
    ∀ disk, Disk.SameBut front first disk → (∀ other ∈ front, other.Written disk) →
      transfer.Supplies disk ∧ (transfer.Skips → transfer.Written disk)

/-- A call with a right patch, and without colliding digests, that is not stopped in the middle of
the target blocks while the stash of the source is not whole. -/
def TransferCall.Good (transfers : List Transfer) (call : TransferCall) : Prop :=
  ∀ transfer ∈ transfers, transfer.cmd = call.cmd →
    transfer.Calls call.attempt call.disk ∧ transfer.Spares call.attempt call.disk

/-- So many commands are done, and the next one is begun. -/
structure Installed (transfers : List Transfer) (first : Disk) (count : Nat) (disk started : Disk) :
    Prop where
  same : Disk.SameBut (transfers.take count) first started
  written : ∀ transfer ∈ transfers.take count, transfer.Written started
  next : ∀ transfer, transfers[count]? = some transfer → transfer.Begun started disk
  last : transfers[count]? = none → disk = started

theorem Installed.zero : Installed transfers first 0 first first where
  same := ⟨fun _ _ => rfl, fun _ _ => rfl, rfl⟩
  written := by simp
  next transfer _ := .refl transfer first
  last _ := rfl

variable {count : Nat} {disk started : Disk} {transfer : Transfer} {attempt : Attempt}

theorem Ordered.supplies (ordered : Ordered transfers first)
    (installed : Installed transfers first count disk started)
    (next : transfers[count]? = some transfer) :
    transfer.Supplies started ∧ (transfer.Skips → transfer.Written started) := by
  obtain ⟨inside, rfl⟩ := List.getElem?_eq_some_iff.mp next
  exact ordered.kept (transfers.take count) _ (transfers.drop (count + 1))
    (by rw [List.getElem_cons_drop, List.take_append_drop]) started installed.same installed.written

/-- A call of the next command. -/
theorem Installed.call (ordered : Ordered transfers first)
    (installed : Installed transfers first count disk started)
    (next : transfers[count]? = some transfer) (calls : transfer.Calls attempt disk)
    (spares : transfer.Spares attempt disk) :
    Installed transfers first count (attempt.after transfer.cmd disk) started ∧
      (attempt.Succeeds transfer.cmd → Installed transfers first (count + 1)
        (attempt.after transfer.cmd disk) (attempt.after transfer.cmd disk)) := by
  have meant := ordered.meant transfer (List.mem_of_getElem? next)
  obtain ⟨supplies, skipped⟩ := ordered.supplies installed next
  have before := installed.next transfer next
  have begun := before.call meant supplies skipped calls spares
  refine ⟨⟨installed.same, installed.written, fun other found => ?_, fun none_ => ?_⟩,
    fun succeeds => ?_⟩
  · obtain rfl := Option.some.inj (next.symm.trans found)
    exact begun
  · exact absurd (next.symm.trans none_) (Option.some_ne_none _)
  · have front : transfers.take (count + 1) = transfers.take count ++ [transfer] := by
      rw [List.take_add_one, next]
      rfl
    have apart : ∀ other ∈ transfers.take count, ∀ place ∈ other.places, place ∉ transfer.places := by
      have pairs := ordered.apart.sublist (List.take_sublist (count + 1) transfers)
      rw [front, List.pairwise_append] at pairs
      exact fun other member => pairs.2.2 other member transfer List.mem_cons_self
    refine ⟨⟨fun place other => ?_, fun name other => ?_, ?_⟩, fun written member => ?_,
      fun later _ => .refl later _, fun _ => rfl⟩
    · rw [front] at other
      refine (begun.outside place (other transfer (by simp))).trans ?_
      exact installed.same.target place fun done_ member => other done_ (by simp [member])
    · rw [front] at other
      refine (begun.kin.others name (other transfer (by simp))).trans ?_
      exact installed.same.store name fun done_ member => other done_ (by simp [member])
    · exact begun.kin.ownSource.trans installed.same.ownSource
    · rw [front] at member
      obtain earlier | own := List.mem_append.mp member
      · refine Eq.trans (List.map_congr_left fun place inside => ?_) (installed.written written earlier)
        exact begun.outside place (apart written earlier place inside)
      · rw [List.mem_singleton.mp own]
        exact before.written meant supplies skipped calls succeeds

variable {attempts : Nat → Disk → Attempt} {counts : Nat → Nat} {headers lines : List String}

/-- As far as all calls are good, so many commands are done. -/
def Reached (transfers : List Transfer) (first : Disk) (count : Nat) (world : ListWorld) : Prop :=
  (∀ call ∈ world.calls, call.Good transfers) →
    ∃ started, Installed transfers first count world.disk started

theorem callCommand_success {cmd : Command} {written : Nat} {world : ListWorld}
    (success : (callCommand attempts counts cmd written world).1 = .success) :
    (attempts world.calls.length world.disk).Succeeds cmd := by
  rw [callCommand] at success
  dsimp only at success
  cases crash : (attempts world.calls.length world.disk).crash with
  | some count =>
      rw [crash, if_pos (by rfl)] at success
      cases success
  | none =>
      rw [crash, if_neg (by simp)] at success
      refine ⟨crash, ?_⟩
      cases result : ((attempts world.calls.length world.disk).execute cmd).result with
      | none =>
          rw [result] at success
          cases success
      | some value =>
          rw [result] at success
          exact congrArg some success

theorem Reached.call {cmd : Command} {world : ListWorld} {written : Nat}
    (ordered : Ordered transfers first) (next : (transfers.map Transfer.cmd)[count]? = some cmd)
    (reached : Reached transfers first count world)
    (good : ∀ call ∈ (callCommand attempts counts cmd written world).2.2.calls,
      call.Good transfers) :
    ∃ started, Installed transfers first count
        (callCommand attempts counts cmd written world).2.2.disk started ∧
      ((attempts world.calls.length world.disk).Succeeds cmd →
        Installed transfers first (count + 1)
          (callCommand attempts counts cmd written world).2.2.disk
          (callCommand attempts counts cmd written world).2.2.disk) := by
  rw [List.getElem?_map] at next
  obtain ⟨transfer, found, rfl⟩ := Option.map_eq_some_iff.mp next
  obtain ⟨started, installed⟩ := reached fun call member => good call (List.mem_append_left _ member)
  obtain ⟨calls, spares⟩ := good ⟨transfer.cmd, attempts world.calls.length world.disk, world.disk⟩
    (List.mem_append_right _ List.mem_cons_self) transfer (List.mem_of_getElem? found) rfl
  exact ⟨started, installed.call ordered found calls spares⟩

theorem callCommand_stages (ordered : Ordered transfers first) :
    Stages (callCommand attempts counts) (transfers.map Transfer.cmd) (Reached transfers first) := by
  constructor
  · intro count written cmd world next reached success good
    obtain ⟨started, -, done⟩ := reached.call ordered next good
    exact ⟨_, done (callCommand_success success)⟩
  · intro count written cmd world next reached failure good
    obtain ⟨started, installed, -⟩ := reached.call ordered next good
    exact ⟨started, installed⟩

/-- A list of moves and diffs in which no line occurs twice is run until a pass comes to its end;
passes before may have failed or been stopped inside of any command. The target blocks of every
command have what it shall write, and the rest of the target is as it was. -/
theorem passes_install {count : Nat} (parsed : commandsOf false lines = transfers.map Transfer.cmd)
    (distinct : (lines.filter (· ≠ "")).Nodup) (ordered : Ordered transfers first)
    (good : ∀ call ∈ (passes (callCommand attempts counts) headers lines false ⟨first, []⟩
      count).2.2.world.calls, call.Good transfers)
    (ok : (passes (callCommand attempts counts) headers lines false ⟨first, []⟩ count).1 = true) :
    (∀ transfer ∈ transfers, transfer.Written (passes (callCommand attempts counts) headers lines
      false ⟨first, []⟩ count).2.2.world.disk) ∧
    Disk.SameBut transfers first (passes (callCommand attempts counts) headers lines
      false ⟨first, []⟩ count).2.2.world.disk := by
  have nonNew : ∀ line ∈ lines, line ≠ "" → isNonNew line = true := by
    intro line member some_
    cases init : Command.init line false with
    | none => exact absurd (Command.init_eq_none_iff.mp init) some_
    | some cmd =>
        have inside : cmd ∈ transfers.map Transfer.cmd := by
          rw [← parsed]
          exact List.mem_filterMap.mpr ⟨line, member, init⟩
        obtain ⟨transfer, present, rfl⟩ := List.mem_map.mp inside
        rw [Command.init_isNonNew init]
        obtain type | type | type := (ordered.meant transfer present).type
        · rw [type]
          rfl
        · rw [type]
          rfl
        · rw [type]
          rfl
  have stages := @callCommand_stages _ _ attempts counts ordered
  rw [← parsed] at stages
  obtain ⟨done, stands⟩ := @passes_stand _ _ headers _ _ _ stages nonNew distinct ⟨first, []⟩
    (fun _ => ⟨first, .zero⟩) count
  obtain ⟨started, installed⟩ := stands.reached good
  rw [stands.ended ok, parsed, List.length_map] at installed
  have same := installed.last (List.getElem?_eq_none (Nat.le_refl _))
  have written := installed.written
  have rest := installed.same
  rw [List.take_length] at written rest
  rw [same]
  exact ⟨written, rest⟩

end List

namespace Transfer

/-- The diff of the first block to itself, as the only line of a list. -/
def blockLines : List String :=
  ["bsdiff 0 64 " ++ Setting.zerosDigest ++ " " ++ onesDigest ++ " 2,0,1 1 2,0,1"]

/-- The first call is stopped when it has created the stash. -/
def stoppedOnce (count : Nat) (_ : Disk) : Attempt :=
  if count = 0 then blockAttempt (fun _ => none) (fun _ => 0) (some 1)
  else blockAttempt emptyStash (fun _ => 0) none

theorem blockLines_parsed : commandsOf false blockLines = [blockTransfer].map Transfer.cmd := by
  rw [blockLines, commandsOf_cons_some blockDiff_init]
  rfl

theorem blockLines_ordered : Ordered [blockTransfer] blankDisk where
  meant transfer member := by
    rw [List.mem_singleton.mp member]
    exact blockTransfer_meant
  apart := List.pairwise_singleton _ _
  kept front transfer back split disk same written := by
    cases front with
    | cons other front => exact absurd (congrArg List.length split) (by simp)
    | nil =>
        obtain ⟨rfl, -⟩ := List.cons.inj split
        have blank : disk = blankDisk := by
          obtain ⟨store, target, ownSource⟩ := disk
          obtain ⟨targets, stores, own⟩ := same
          obtain rfl : ownSource = none := own
          obtain rfl : target = fun _ => 0 := funext fun place => targets place (by simp)
          exact congrArg (Disk.mk · (fun _ => 0) none) (funext fun name => stores name (by simp))
        rw [blank]
        exact ⟨blankDisk_supplies, fun skips => absurd skips blockTransfer_goesOn⟩

theorem blockAttempt_succeeds :
    (blockAttempt emptyStash (fun _ => 0) none).Succeeds blockDiff := by
  have goesOn : ¬(true = false ∨ (blockAttempt emptyStash (fun _ => 0) none).canWrite = false) := by
    rintro (lost | readOnly)
    · cases lost
    · cases readOnly
  have diff : blockDiff.type ≠ .move ∧ blockDiff.type ≠ .copy := by decide
  have skips : ¬(blockAttempt emptyStash (fun _ => 0) none).skipInPlaceMove blockDiff = true :=
    mt (skips_iff (blockAttempt_calls _ _ _).answers).mp blockTransfer_goesOn
  refine ⟨rfl, ?_⟩
  rw [Attempt.execute, if_neg skips, blockAttempt_plain, Traced.some_bind]
  dsimp only
  rw [if_neg goesOn, Attempt.writeTarget, if_pos diff, Attempt.writeDiffToBlock, Traced.emit_bind]
  rfl

/-- A pass over a list of one line. -/
theorem oneLine_pass {World : Type} {line : String} {cmd : Command}
    (parsed : Command.init line false = some cmd) (registered : cmd.cmdhead ∈ registeredHeads)
    (function : CommandFunction World) (isRetry : Bool) (world : World) :
    (commandsParser function ["1", "1", "0", "0"] ⟨[line], 0⟩ false
        (freshState isRetry none world)).2.2.world = (function cmd 0 world).2.2 ∧
      ((function cmd 0 world).1 = .success → (commandsParser function ["1", "1", "0", "0"] ⟨[line], 0⟩
        false (freshState isRetry none world)).1 = true) ∧
      ((function cmd 0 world).1 = .failed → (commandsParser function ["1", "1", "0", "0"] ⟨[line], 0⟩
        false (freshState isRetry none world)).2.2.retryFile = none) := by
  cases answer : function cmd 0 world with
  | mk result rest =>
      obtain ⟨written, after⟩ := rest
      cases result with
      | success =>
          simp [commandsParser, CommandIterator.check, initCommandParser, freshState, parserLoop, parsed,
            commandsExecute, registered, answer, checkResult, reloadForRetry, afterCommand, registerForRetry]
          split
          · rfl
          · rfl
      | failed =>
          simp [commandsParser, CommandIterator.check, initCommandParser, freshState, parserLoop, parsed,
            commandsExecute, registered, answer, checkResult, reloadForRetry, postMessage]
      | needRetry =>
          simp [commandsParser, CommandIterator.check, initCommandParser, freshState, parserLoop, parsed,
            commandsExecute, registered, answer, checkResult, reloadForRetry, postMessage]
      | other code =>
          simp [commandsParser, CommandIterator.check, initCommandParser, freshState, parserLoop, parsed,
            commandsExecute, registered, answer, checkResult, reloadForRetry]

/-- The first call leaves a stash of no bytes, and the second one writes the block. -/
theorem stoppedOnce_good :
    TransferCall.Good [blockTransfer] ⟨blockDiff, stoppedOnce 0 blankDisk, blankDisk⟩ ∧
      TransferCall.Good [blockTransfer]
        ⟨blockDiff, stoppedOnce 1 (blockDisk emptyStash fun _ => 0), blockDisk emptyStash fun _ => 0⟩ := by
  have skipped : blockTransfer.Skips → blockTransfer.Written blankDisk :=
    fun skips => absurd skips blockTransfer_goesOn
  have firstCalls : blockTransfer.Calls (stoppedOnce 0 blankDisk) blankDisk :=
    blockAttempt_calls _ _ _
  have after : (stoppedOnce 0 blankDisk).after blockTransfer.cmd blankDisk =
      blockDisk emptyStash fun _ => 0 := stoppedTwice_first
  have firstSpares : blockTransfer.Spares (stoppedOnce 0 blankDisk) blankDisk := fun _ => by
    rw [after]
    exact .inl rfl
  have begun := (Begun.refl blockTransfer blankDisk).call blockTransfer_meant blankDisk_supplies skipped
    firstCalls firstSpares
  rw [after] at begun
  refine ⟨fun transfer member _ => ?_, fun transfer member _ => ?_⟩
  · rw [List.mem_singleton.mp member]
    exact ⟨firstCalls, firstSpares⟩
  · rw [List.mem_singleton.mp member]
    have calls : blockTransfer.Calls (stoppedOnce 1 (blockDisk emptyStash fun _ => 0))
        (blockDisk emptyStash fun _ => 0) := blockAttempt_calls _ _ _
    exact ⟨calls, fun _ => .inr (begun.written blockTransfer_meant blankDisk_supplies skipped calls
      blockAttempt_succeeds)⟩

/-- The second pass ends the list that the first one was stopped in. -/
theorem blockLines_installed :
    blockTransfer.Written (passes (callCommand stoppedOnce fun _ => 0) ["1", "1", "0", "0"] blockLines
      false ⟨blankDisk, []⟩ 1).2.2.world.disk := by
  have registered : blockDiff.cmdhead ∈ registeredHeads := by decide
  have firstCall : (callCommand stoppedOnce (fun _ => 0) blockDiff 0 ⟨blankDisk, []⟩).2.2 =
      ⟨blockDisk emptyStash fun _ => 0, [⟨blockDiff, stoppedOnce 0 blankDisk, blankDisk⟩]⟩ := by
    have after : (stoppedOnce 0 blankDisk).after blockDiff blankDisk =
        blockDisk emptyStash fun _ => 0 := stoppedTwice_first
    simp only [callCommand, List.length_nil, List.nil_append, after]
  obtain ⟨firstWorld, -, firstFile⟩ := oneLine_pass blockDiff_init registered
    (callCommand stoppedOnce fun _ => 0) false ⟨blankDisk, []⟩
  have first : passes (callCommand stoppedOnce fun _ => 0) ["1", "1", "0", "0"] blockLines false
      ⟨blankDisk, []⟩ 0 = commandsParser (callCommand stoppedOnce fun _ => 0) ["1", "1", "0", "0"]
        ⟨["bsdiff 0 64 " ++ Setting.zerosDigest ++ " " ++ onesDigest ++ " 2,0,1 1 2,0,1"], 0⟩ false
        (freshState false none ⟨blankDisk, []⟩) := by
    rw [passes, firstRun, blockLines]
  have stopped := firstFile rfl
  rw [firstCall, ← first] at firstWorld
  rw [← first] at stopped
  obtain ⟨secondWorld, secondOk, -⟩ := oneLine_pass blockDiff_init registered
    (callCommand stoppedOnce fun _ => 0) true
    ⟨blockDisk emptyStash fun _ => 0, [⟨blockDiff, stoppedOnce 0 blankDisk, blankDisk⟩]⟩
  have second : passes (callCommand stoppedOnce fun _ => 0) ["1", "1", "0", "0"] blockLines false
      ⟨blankDisk, []⟩ 1 = commandsParser (callCommand stoppedOnce fun _ => 0) ["1", "1", "0", "0"]
        ⟨["bsdiff 0 64 " ++ Setting.zerosDigest ++ " " ++ onesDigest ++ " 2,0,1 1 2,0,1"], 0⟩ false
        (freshState true none
          ⟨blockDisk emptyStash fun _ => 0, [⟨blockDiff, stoppedOnce 0 blankDisk, blankDisk⟩]⟩) := by
    rw [passes, retryRun, firstWorld, stopped, blockLines]
  refine (passes_install blockLines_parsed (by decide) blockLines_ordered ?_ ?_).1 blockTransfer
    List.mem_cons_self
  · rw [second, secondWorld]
    intro call member
    obtain firstMember | secondMember := List.mem_append.mp member
    · rw [List.mem_singleton.mp firstMember]
      exact stoppedOnce_good.1
    · rw [List.mem_singleton.mp secondMember]
      exact stoppedOnce_good.2
  · rw [second]
    refine secondOk ?_
    obtain ⟨whole, success⟩ := blockAttempt_succeeds
    have attempt : stoppedOnce 1 (blockDisk emptyStash fun _ => 0) =
        blockAttempt emptyStash (fun _ => 0) none := rfl
    simp only [callCommand, List.length_singleton, attempt, success, whole, Option.isSome_none,
      Bool.false_eq_true, if_false, Option.getD_some]

end Transfer

end Updater.ApplyPatch
