import Updater.ApplyPatch.TransferManager

/-! Resuming a transfer list from the retry file. Positions in the list, not
command texts, say which command ran: the same line may occur several times. -/

set_option autoImplicit false

namespace Updater.ApplyPatch

open Updater.Utils

/-- Lines that become a command of any type but `new`. -/
def isNonNew (line : String) : Bool :=
  line ≠ "" && parseCommandType ((splitString line " ").headD "") ≠ .new

/-- Positions of the non-`new` commands of `lines`, whose first line stands at `start`. -/
def nonNewPositions (start : Nat) : List String → List Nat
  | [] => []
  | line :: rest =>
      if isNonNew line then start :: nonNewPositions (start + 1) rest
      else nonNewPositions (start + 1) rest

def lastNonNew (lines : List String) : Option String :=
  (lines.filter isNonNew).getLast?

section

variable {World : Type}

/-- Positions of the non-`new` commands whose function was called. -/
def TransferState.nonNewExecuted (st : TransferState World) : List Nat :=
  (st.executed.filter (fun call => call.cmd.type ≠ .new)).map (·.position)

def TransferState.nonNewSucceeded (st : TransferState World) : List Nat :=
  (st.executed.filter (fun call => call.cmd.type ≠ .new && call.result = .success)).map (·.position)

/-- A process that starts to work on a partition; only the retry file and the
device survive from an earlier one. -/
def freshState (isRetry : Bool) (retryFile : Option String) (world : World) :
    TransferState World where
  version := 0
  blockCount := 0
  maxEntries := 0
  maxBlocks := 0
  written := 0
  canWrite := true
  env := some { isRetry }
  retryFile
  world
  messages := []
  progress := []
  executed := []

def firstRun (function : CommandFunction World) (headers lines : List String) (isStream : Bool)
    (world : World) : Bool × CommandIterator × TransferState World :=
  commandsParser function headers { lines, ct := 0 } isStream (freshState false none world)

def retryRun (function : CommandFunction World) (headers lines : List String) (isStream : Bool)
    (retryFile : Option String) (world : World) : Bool × CommandIterator × TransferState World :=
  commandsParser function headers { lines, ct := 0 } isStream (freshState true retryFile world)

/-- Done in the first run, then executed on retry: together an initial piece of
the list's non-`new` commands, and all of them once the retry succeeds. -/
def ResumesExactly (lines : List String) (first : TransferState World)
    (retry : Bool × CommandIterator × TransferState World) : Prop :=
  first.nonNewSucceeded ++ retry.2.2.nonNewExecuted <+: nonNewPositions 0 lines ∧
    (retry.1 = true →
      first.nonNewSucceeded ++ retry.2.2.nonNewExecuted = nonNewPositions 0 lines)

instance (lines : List String) (first : TransferState World)
    (retry : Bool × CommandIterator × TransferState World) :
    Decidable (ResumesExactly lines first retry) :=
  inferInstanceAs (Decidable (_ ∧ _))

end

/-- Among the lines a run got through, the one its retry file names occurs once. -/
def ResumeKeyUnique (done : List String) : Prop :=
  ∀ line, lastNonNew done = some line → done.count line = 1

theorem nonNewPositions_append (start : Nat) (before after : List String) :
    nonNewPositions start (before ++ after) =
      nonNewPositions start before ++ nonNewPositions (start + before.length) after := by
  induction before generalizing start with
  | nil => simp [nonNewPositions]
  | cons line before ih =>
      simp only [List.cons_append, nonNewPositions, List.length_cons]
      rw [ih (start + 1), Nat.add_assoc, Nat.add_comm 1]
      split <;> simp

theorem nonNewPositions_cons (start : Nat) (line : String) (rest : List String) :
    nonNewPositions start (line :: rest) =
      nonNewPositions start [line] ++ nonNewPositions (start + 1) rest :=
  nonNewPositions_append start [line] rest

theorem le_of_mem_nonNewPositions {start position : Nat} {lines : List String}
    (member : position ∈ nonNewPositions start lines) : start ≤ position := by
  induction lines generalizing start with
  | nil => simp [nonNewPositions] at member
  | cons line rest ih =>
      simp only [nonNewPositions] at member
      split at member
      · rcases List.mem_cons.mp member with rfl | member
        · exact Nat.le_refl _
        · exact Nat.le_of_succ_le (ih member)
      · exact Nat.le_of_succ_le (ih member)

theorem nonNewPositions_nodup (start : Nat) (lines : List String) :
    (nonNewPositions start lines).Nodup := by
  induction lines generalizing start with
  | nil => simp [nonNewPositions]
  | cons line rest ih =>
      simp only [nonNewPositions]
      split
      · refine List.nodup_cons.mpr ⟨fun member => ?_, ih _⟩
        exact absurd (le_of_mem_nonNewPositions member) (by omega)
      · exact ih _

theorem nonNewPositions_eq_nil {start : Nat} {lines : List String}
    (noNonNew : ∀ line ∈ lines, isNonNew line = false) : nonNewPositions start lines = [] := by
  induction lines generalizing start with
  | nil => rfl
  | cons line rest ih =>
      have tail : nonNewPositions (start + 1) rest = [] :=
        ih fun line member => noNonNew line (by simp [member])
      simp [nonNewPositions, noNonNew line (by simp), tail]

theorem Command.init_isNonNew {line : String} {isStream : Bool} {cmd : Command}
    (parsed : Command.init line isStream = some cmd) :
    isNonNew line = decide (cmd.type ≠ .new) := by
  simp only [Command.init] at parsed
  split at parsed
  · cases parsed
  · rename_i nonempty
    cases parsed
    simp [isNonNew, nonempty]

/-- The only command word of type `new` is `new` itself, which is registered. -/
theorem Command.registered_of_new {line : String} {isStream : Bool} {cmd : Command}
    (parsed : Command.init line isStream = some cmd) (isNew : cmd.type = .new) :
    cmd.cmdhead ∈ registeredHeads := by
  have kind := Command.init_type parsed
  rw [isNew, parseCommandType] at kind
  by_cases head : cmd.cmdhead = "new"
  · simp [head, registeredHeads]
  · exfalso
    revert kind
    simp only [head, if_false]
    repeat' split
    all_goals simp

theorem isNonNew_of_init_none {line : String} {isStream : Bool}
    (rejected : Command.init line isStream = none) : isNonNew line = false := by
  simp [isNonNew, Command.init_eq_none_iff.mp rejected]

theorem isNonNew_ne_empty {line : String} (nonNew : isNonNew line = true) : line ≠ "" := by
  intro empty
  simp [isNonNew, empty] at nonNew

section

variable {World : Type}

/-- Parts of the state that neither the loop nor a command function changes. -/
def SameSetup (before after : TransferState World) : Prop :=
  after.canWrite = before.canWrite ∧ after.env = before.env

theorem afterCommand_keeps (initBlock : Nat) (st : TransferState World) :
    SameSetup st (afterCommand initBlock st).2 ∧
      (afterCommand initBlock st).2.executed = st.executed ∧
      (afterCommand initBlock st).2.retryFile = st.retryFile := by
  simp only [afterCommand]
  generalize (if initBlock = 0 then st.written else initBlock) = start
  split <;> exact ⟨⟨rfl, rfl⟩, rfl, rfl⟩

/-- What executing one command of a writing pass does, by outcome. -/
inductive CommandStep (function : CommandFunction World) (position : Nat) (cmd : Command)
    (st : TransferState World) : Bool × TransferState World → Prop where
  | done {next : TransferState World} (registered : cmd.cmdhead ∈ registeredHeads)
      (setup : SameSetup st next)
      (executed : next.executed = st.executed ++ [⟨position, cmd, .success⟩])
      (retryFile : next.retryFile = if cmd.type ≠ .new then some cmd.cmdLine else st.retryFile) :
      CommandStep function position cmd st (true, next)
  | unknown (unregistered : cmd.cmdhead ∉ registeredHeads) :
      CommandStep function position cmd st (false, st)
  | stopped {next : TransferState World} {result : CommandResult} (failure : result ≠ .success)
      (returned : (function cmd st.written st.world).1 = result)
      (setup : SameSetup st next)
      (executed : next.executed = st.executed ++ [⟨position, cmd, result⟩])
      (retryFile : next.retryFile = st.retryFile) :
      CommandStep function position cmd st (false, next)

theorem commandsExecute_step (function : CommandFunction World) (position : Nat) (cmd : Command)
    (st : TransferState World) (writing : st.canWrite = true) :
    CommandStep function position cmd st (commandsExecute function position cmd st) := by
  simp only [commandsExecute]
  split
  · rename_i registered
    rcases answer : function cmd st.written st.world with ⟨result, written, world⟩
    have returned : (function cmd st.written st.world).1 = result := by rw [answer]
    simp only [writing]
    cases result with
    | success =>
        simp only [checkResult, registerForRetry]
        split
        · rename_i nonNew
          exact .done registered ⟨writing.symm, rfl⟩ rfl (by simp [nonNew])
        · rename_i isNew
          exact .done registered ⟨writing.symm, rfl⟩ rfl (by simp [isNew])
    | needRetry | failed =>
        simp only [checkResult, postMessage]
        split <;> exact .stopped (by simp) returned ⟨writing.symm, rfl⟩ rfl rfl
    | other code => exact .stopped (by simp) returned ⟨writing.symm, rfl⟩ rfl rfl
  · rename_i unregistered
    exact .unknown unregistered

end

section

variable {World : Type} (function : CommandFunction World) (isStream : Bool)

/-- Setup of a pass that executes what it reaches: it may write and has an
environment, and no stored command makes it skip. -/
structure Executing (retryCmd : String) (st : TransferState World) : Prop where
  writing : st.canWrite = true
  env : ∃ env, st.env = some env ∧ ¬ (retryCmd ≠ "" ∧ env.isRetry = true)

theorem Executing.of_setup {retryCmd : String} {before after : TransferState World}
    (executing : Executing retryCmd before) (setup : SameSetup before after) :
    Executing retryCmd after :=
  ⟨setup.1.trans executing.writing, by rw [setup.2]; exact executing.env⟩

theorem SameSetup.trans {first second third : TransferState World}
    (left : SameSetup first second) (right : SameSetup second third) : SameSetup first third :=
  ⟨right.1.trans left.1, right.2.trans left.2⟩

/-- One line of an executing pass that is a command. -/
theorem parserLoop_command {line : String} {rest : List String} {ct initBlock : Nat}
    {retryCmd : String} {cmd : Command} {st : TransferState World}
    (executing : Executing retryCmd st) (parsed : Command.init line isStream = some cmd) :
    parserLoop function isStream (line :: rest) ct retryCmd initBlock st =
      match commandsExecute function ct cmd st with
      | (false, st) => (false, ct, st)
      | (true, st) =>
          let (initBlock, st) := afterCommand initBlock st
          parserLoop function isStream rest (ct + 1) retryCmd initBlock st := by
  obtain ⟨env, envEq, notResuming⟩ := executing.env
  have stays := commandsExecute_step function ct cmd st executing.writing
  simp only [parserLoop, parsed, envEq, notResuming, false_and, ↓reduceIte, executing.writing,
    Bool.not_true, Bool.false_and, Bool.false_eq_true]
  generalize commandsExecute function ct cmd st = step at stays
  cases stays with
  | done _ setup _ _ => simp [setup.1, executing.writing]
  | unknown _ => rfl
  | stopped _ _ _ _ _ => rfl

/-- Outcome of an executing pass over `lines`: it got through `done`, whose
commands all succeeded, and either that was everything or the next command
failed, with or without its function being called. -/
structure PassOutcome (lines : List String) (ct : Nat) (before : TransferState World)
    (result : Bool × Nat × TransferState World) (done rest : List String) : Prop where
  split : lines = done ++ rest
  stop : result.2.1 = ct + done.length
  ended : result.1 = true → rest = []
  succeeded : result.2.2.nonNewSucceeded = before.nonNewSucceeded ++ nonNewPositions ct done
  executed : result.2.2.nonNewExecuted = before.nonNewExecuted ++ nonNewPositions ct done ∨
    ∃ line tail, rest = line :: tail ∧ isNonNew line = true ∧
      result.2.2.nonNewExecuted =
        before.nonNewExecuted ++ nonNewPositions ct done ++ [ct + done.length]
  retryFile : result.2.2.retryFile = (lastNonNew done).or before.retryFile
  registered : ∀ line ∈ done, isNonNew line = true →
    (splitString line " ").headD "" ∈ registeredHeads

theorem nonNewExecuted_append {before after : TransferState World} {call : Execution}
    (executed : after.executed = before.executed ++ [call]) :
    after.nonNewExecuted =
      before.nonNewExecuted ++ if call.cmd.type ≠ .new then [call.position] else [] := by
  simp only [TransferState.nonNewExecuted, executed, List.filter_append, List.map_append]
  by_cases nonNew : call.cmd.type = .new <;> simp [nonNew]

theorem nonNewSucceeded_append {before after : TransferState World} {call : Execution}
    (executed : after.executed = before.executed ++ [call]) :
    after.nonNewSucceeded =
      before.nonNewSucceeded ++
        if call.cmd.type ≠ .new ∧ call.result = .success then [call.position] else [] := by
  simp only [TransferState.nonNewSucceeded, executed, List.filter_append, List.map_append]
  by_cases nonNew : call.cmd.type = .new <;> by_cases success : call.result = .success <;>
    simp [nonNew, success]

theorem lastNonNew_cons (line : String) (rest : List String) :
    lastNonNew (line :: rest) =
      (lastNonNew rest).or (if isNonNew line then some line else none) := by
  simp only [lastNonNew, List.filter_cons]
  split
  · rw [List.getLast?_cons]
    cases (rest.filter isNonNew).getLast? <;> rfl
  · simp

/-- A line that was got through goes in front of the outcome of the rest. -/
theorem PassOutcome.cons {line : String} {rest done remaining : List String} {ct : Nat}
    {before middle : TransferState World} {result : Bool × Nat × TransferState World}
    (outcome : PassOutcome rest (ct + 1) middle result done remaining)
    (succeeded : middle.nonNewSucceeded = before.nonNewSucceeded ++ nonNewPositions ct [line])
    (executed : middle.nonNewExecuted = before.nonNewExecuted ++ nonNewPositions ct [line])
    (retryFile : middle.retryFile = (lastNonNew [line]).or before.retryFile)
    (registered : isNonNew line = true → (splitString line " ").headD "" ∈ registeredHeads) :
    PassOutcome (line :: rest) ct before result (line :: done) remaining where
  split := by rw [outcome.split, List.cons_append]
  stop := by rw [outcome.stop, List.length_cons, Nat.add_assoc, Nat.add_comm 1]
  ended := outcome.ended
  succeeded := by
    rw [outcome.succeeded, succeeded, nonNewPositions_cons ct line done, List.append_assoc]
  executed := by
    rw [nonNewPositions_cons ct line done, ← List.append_assoc, ← executed]
    rcases outcome.executed with same | ⟨failed, tail, shape, nonNew, extra⟩
    · exact .inl same
    · refine .inr ⟨failed, tail, shape, nonNew, ?_⟩
      rw [extra, List.length_cons, Nat.add_assoc, Nat.add_comm 1]
  retryFile := by
    have single : lastNonNew [line] = if isNonNew line then some line else none := by
      rw [lastNonNew_cons]
      simp [lastNonNew]
    rw [outcome.retryFile, retryFile, single, lastNonNew_cons line done, Option.or_assoc]
  registered := by
    intro reached member nonNew
    rcases List.mem_cons.mp member with rfl | member
    · exact registered nonNew
    · exact outcome.registered reached member nonNew

/-- A pass that stops at once has got through nothing. -/
theorem PassOutcome.stopped {line : String} {rest : List String} {ct : Nat}
    {before after : TransferState World}
    (succeeded : after.nonNewSucceeded = before.nonNewSucceeded)
    (executed : after.nonNewExecuted =
      before.nonNewExecuted ++ nonNewPositions ct [line] ∨
        after.nonNewExecuted = before.nonNewExecuted)
    (retryFile : after.retryFile = before.retryFile) :
    PassOutcome (line :: rest) ct before (false, ct, after) [] (line :: rest) where
  split := rfl
  stop := rfl
  ended := by simp
  succeeded := by simpa [nonNewPositions] using succeeded
  executed := by
    rcases executed with ran | same
    · cases nonNew : isNonNew line with
      | false => exact .inl (by simpa [nonNewPositions, nonNew] using ran)
      | true =>
          exact .inr ⟨line, rest, rfl, nonNew, by simpa [nonNewPositions, nonNew] using ran⟩
    · exact .inl (by simpa [nonNewPositions] using same)
  retryFile := by simpa [lastNonNew] using retryFile
  registered := by simp

theorem PassOutcome.of_same {lines done rest : List String} {ct : Nat}
    {before middle : TransferState World} {result : Bool × Nat × TransferState World}
    (outcome : PassOutcome lines ct middle result done rest)
    (executed : middle.executed = before.executed) (retryFile : middle.retryFile = before.retryFile) :
    PassOutcome lines ct before result done rest := by
  have sameExecuted : middle.nonNewExecuted = before.nonNewExecuted := by
    simp only [TransferState.nonNewExecuted, executed]
  have sameSucceeded : middle.nonNewSucceeded = before.nonNewSucceeded := by
    simp only [TransferState.nonNewSucceeded, executed]
  exact ⟨outcome.split, outcome.stop, outcome.ended, sameSucceeded ▸ outcome.succeeded,
    sameExecuted ▸ outcome.executed, retryFile ▸ outcome.retryFile, outcome.registered⟩

/-- Run lemma of an executing pass, by induction on the lines. -/
theorem parserLoop_outcome (lines : List String) (ct initBlock : Nat) (retryCmd : String)
    (st : TransferState World) (executing : Executing retryCmd st) :
    ∃ done rest, PassOutcome lines ct st
      (parserLoop function isStream lines ct retryCmd initBlock st) done rest := by
  induction lines generalizing ct initBlock st with
  | nil =>
      refine ⟨[], [], rfl, rfl, fun _ => rfl, ?_, .inl ?_, ?_, by simp⟩ <;>
        simp [parserLoop, nonNewPositions, lastNonNew]
  | cons line rest ih =>
      cases parsed : Command.init line isStream with
      | none =>
          have skipped := isNonNew_of_init_none parsed
          obtain ⟨done, remaining, outcome⟩ := ih (ct + 1) initBlock st executing
          refine ⟨line :: done, remaining, ?_⟩
          simp only [parserLoop, parsed]
          exact outcome.cons (by simp [nonNewPositions, skipped]) (by simp [nonNewPositions, skipped])
            (by simp [lastNonNew, skipped]) (by simp [skipped])
      | some cmd =>
          have kind := Command.init_isNonNew parsed
          have stays := commandsExecute_step function ct cmd st executing.writing
          rw [parserLoop_command function isStream executing parsed]
          generalize commandsExecute function ct cmd st = step at stays
          cases stays with
          | @done next registered setup executed retryFile =>
              obtain ⟨setupAfter, executedAfter, retryAfter⟩ := afterCommand_keeps initBlock next
              obtain ⟨done, remaining, outcome⟩ := ih (ct + 1) (afterCommand initBlock next).1
                (afterCommand initBlock next).2 (executing.of_setup (setup.trans setupAfter))
              refine ⟨line :: done, remaining,
                (outcome.of_same executedAfter retryAfter).cons ?_ ?_ ?_ ?_⟩
              · rw [nonNewSucceeded_append executed]
                simp [nonNewPositions, kind]
              · rw [nonNewExecuted_append executed]
                simp [nonNewPositions, kind]
              · rw [retryFile, Command.init_cmdLine parsed]
                simp only [lastNonNew_cons, kind]
                by_cases nonNew : cmd.type = .new <;> simp [nonNew, lastNonNew]
              · intro _
                have head := Command.init_cmdhead parsed
                exact head ▸ registered
          | unknown unregistered => exact ⟨[], _, .stopped rfl (.inr rfl) rfl⟩
          | stopped failure _ setup executed retryFile =>
              refine ⟨[], _, .stopped ?_ (.inl ?_) retryFile⟩
              · rw [nonNewSucceeded_append executed]
                simp [failure]
              · rw [nonNewExecuted_append executed]
                simp [nonNewPositions, kind]

/-- While the stored line is looked for, only `new` commands run: the pass
either ends on one of them or arrives behind the line with nothing to skip. -/
theorem parserLoop_skip (before : List String) (key : String) (after : List String)
    (ct initBlock : Nat) (st : TransferState World) (writing : st.canWrite = true)
    (retry : st.env = some { isRetry := true }) (nonNew : isNonNew key = true)
    (absent : key ∉ before) :
    ∃ result, parserLoop function isStream (before ++ key :: after) ct key initBlock st = result ∧
      (result.1 = false ∧ (∃ cmd written world, (function cmd written world).1 ≠ .success) ∧
          result.2.2.nonNewExecuted = st.nonNewExecuted ∨
        ∃ initBlock' st', SameSetup st st' ∧ st'.nonNewExecuted = st.nonNewExecuted ∧
          result = parserLoop function isStream after (ct + before.length + 1) "" initBlock' st') := by
  refine ⟨_, rfl, ?_⟩
  induction before generalizing ct initBlock st with
  | nil =>
      have nonempty := isNonNew_ne_empty nonNew
      cases parsed : Command.init key isStream with
      | none => exact absurd (Command.init_eq_none_iff.mp parsed) nonempty
      | some cmd =>
          have kind : cmd.type ≠ .new := by
            simpa [nonNew] using Command.init_isNonNew parsed
          refine .inr ⟨initBlock, st, ⟨rfl, rfl⟩, rfl, ?_⟩
          simp [parserLoop, parsed, retry, nonempty, kind]
  | cons line before ih =>
      have different : line ≠ key := fun same => absent (by simp [same])
      have absentTail : key ∉ before := fun member => absent (by simp [member])
      have nonempty := isNonNew_ne_empty nonNew
      have shift : ct + (line :: before).length + 1 = ct + 1 + before.length + 1 := by
        simp only [List.length_cons]; omega
      rw [List.cons_append, shift]
      cases parsed : Command.init line isStream with
      | none =>
          simpa only [parserLoop, parsed] using ih (ct + 1) initBlock st writing retry absentTail
      | some cmd =>
          by_cases kind : cmd.type = .new
          · have stays := commandsExecute_step function ct cmd st writing
            simp only [parserLoop, parsed, retry, different, kind, and_false, ↓reduceIte,
              ne_eq, not_true_eq_false, writing, Bool.not_true, Bool.false_and, Bool.false_eq_true]
            generalize commandsExecute function ct cmd st = step at stays
            cases stays with
            | @done next _ setup executed _ =>
                obtain ⟨setupAfter, executedAfter, _⟩ := afterCommand_keeps initBlock next
                have setupBoth := setup.trans setupAfter
                have nothing : (afterCommand initBlock next).2.nonNewExecuted =
                    st.nonNewExecuted := by
                  have step := nonNewExecuted_append executed
                  simp only [kind, ne_eq, not_true_eq_false, ↓reduceIte, List.append_nil] at step
                  rw [← step]
                  simp only [TransferState.nonNewExecuted, executedAfter]
                have tail := ih (ct + 1) (afterCommand initBlock next).1
                  (afterCommand initBlock next).2 (setupBoth.1.trans writing)
                  (setupBoth.2.trans retry) absentTail
                simp only [setup.1, writing, ↓reduceIte]
                rcases tail with ⟨stopped, failed, same⟩ | ⟨initBlock', st', setup', same, shape⟩
                · exact .inl ⟨stopped, failed, same.trans nothing⟩
                · exact .inr ⟨initBlock', st', setupBoth.trans setup', same.trans nothing, shape⟩
            | unknown unregistered =>
                exact absurd (Command.registered_of_new parsed kind) unregistered
            | stopped failure returned _ executed _ =>
                refine .inl ⟨rfl, ⟨cmd, st.written, st.world, returned ▸ failure⟩, ?_⟩
                rw [nonNewExecuted_append executed]
                simp [kind]
          · simpa [parserLoop, parsed, retry, nonempty, different, kind] using
              ih (ct + 1) initBlock st writing retry absentTail

/-- With four headers and at least one line, a run is a pass of the loop from
the first line on; otherwise it fails before it touches anything. -/
theorem commandsParser_loop (headers lines : List String) (st : TransferState World)
    {env : ScriptEnv} (present : st.env = some env)
    (accepted : headers.length = transferHeadersCount ∧ lines ≠ []) :
    ∃ st', SameSetup st st' ∧ st'.executed = st.executed ∧ st'.retryFile = st.retryFile ∧
      commandsParser function headers { lines, ct := 0 } isStream st =
        ((parserLoop function isStream lines 0
            (if env.isRetry then st.retryFile.getD "" else "") 0 st').1,
          { lines, ct := (parserLoop function isStream lines 0
            (if env.isRetry then st.retryFile.getD "" else "") 0 st').2.1 },
          (parserLoop function isStream lines 0
            (if env.isRetry then st.retryFile.getD "" else "") 0 st').2.2) := by
  obtain ⟨four, nonempty⟩ := accepted
  match headers, four with
  | [version, blockCount, maxEntries, maxBlocks], _ =>
      have start : 0 < lines.length := List.length_pos_iff.mpr nonempty
      refine ⟨{ st with
        version := string2Int version nDec
        blockCount := string2Int blockCount nDec
        maxEntries := string2Int maxEntries nDec
        maxBlocks := string2Int maxBlocks nDec }, ⟨rfl, rfl⟩, rfl, rfl, ?_⟩
      simp [commandsParser, CommandIterator.check, start, initCommandParser, present,
        reloadForRetry]

theorem commandsParser_rejected (headers lines : List String) (st : TransferState World)
    (rejected : ¬ (headers.length = transferHeadersCount ∧ lines ≠ [])) :
    commandsParser function headers { lines, ct := 0 } isStream st =
      (false, { lines, ct := 0 }, st) := by
  by_cases start : 0 < lines.length
  · have refused : initCommandParser headers st = none := by
      match headers with
      | [_, _, _, _] => exact absurd ⟨rfl, List.length_pos_iff.mp start⟩ rejected
      | [] | [_] | [_, _] | [_, _, _] | _ :: _ :: _ :: _ :: _ :: _ => rfl
    simp [commandsParser, CommandIterator.check, start, refused]
  · simp [commandsParser, CommandIterator.check, start]

/-- Outcome of a whole run that has no stored command to look for. -/
theorem commandsParser_outcome (headers lines : List String) (st : TransferState World)
    {env : ScriptEnv} (writing : st.canWrite = true) (present : st.env = some env)
    (noKey : env.isRetry = true → st.retryFile = none) :
    ∃ done rest, PassOutcome lines 0 st
      ((commandsParser function headers { lines, ct := 0 } isStream st).1,
        (commandsParser function headers { lines, ct := 0 } isStream st).2.1.ct,
        (commandsParser function headers { lines, ct := 0 } isStream st).2.2) done rest := by
  by_cases accepted : headers.length = transferHeadersCount ∧ lines ≠ []
  · obtain ⟨st', setup, executed, retryFile, shape⟩ :=
      commandsParser_loop function isStream headers lines st present accepted
    have key : (if env.isRetry then st.retryFile.getD "" else "") = "" := by
      split
      · rename_i retry; simp [noKey retry]
      · rfl
    rw [key] at shape
    have executing : Executing "" st' :=
      ⟨setup.1.trans writing, env, setup.2.trans present, by simp⟩
    obtain ⟨done, rest, outcome⟩ := parserLoop_outcome function isStream lines 0 0 "" st' executing
    rw [shape]
    exact ⟨done, rest, outcome.of_same executed retryFile⟩
  · rw [commandsParser_rejected function isStream headers lines st accepted]
    exact ⟨[], lines, rfl, rfl, by simp, by simp [nonNewPositions],
      .inl (by simp [nonNewPositions]), by simp [lastNonNew], by simp⟩

theorem firstRun_outcome (headers lines : List String) (world : World) :
    ∃ rest, PassOutcome lines 0 (freshState false none world)
      ((firstRun function headers lines isStream world).1,
        (firstRun function headers lines isStream world).2.1.ct,
        (firstRun function headers lines isStream world).2.2)
      (lines.take (firstRun function headers lines isStream world).2.1.ct) rest := by
  obtain ⟨done, rest, outcome⟩ := commandsParser_outcome function isStream headers lines
    (freshState false none world) rfl rfl (by simp)
  have stop : (firstRun function headers lines isStream world).2.1.ct = done.length :=
    outcome.stop.trans (Nat.zero_add _)
  have same : lines.take (firstRun function headers lines isStream world).2.1.ct = done := by
    rw [stop, outcome.split, List.take_left']
    rfl
  exact ⟨rest, same ▸ outcome⟩

/-- When every command function succeeds, a registered non-`new` command is
executed if no other non-`new` command stands before it. -/
theorem parserLoop_reaches (succeeds : ∀ cmd written world, (function cmd written world).1 = .success)
    (news : List String) (line : String) (rest : List String) (ct initBlock : Nat)
    (st : TransferState World) (executing : Executing "" st)
    (onlyNew : ∀ other ∈ news, isNonNew other = false) (nonNew : isNonNew line = true)
    (registered : (splitString line " ").headD "" ∈ registeredHeads) :
    ct + news.length ∈
      (parserLoop function isStream (news ++ line :: rest) ct "" initBlock st).2.2.nonNewExecuted := by
  induction news generalizing ct initBlock st with
  | nil =>
      cases parsed : Command.init line isStream with
      | none => exact absurd (isNonNew_of_init_none parsed) (by simp [nonNew])
      | some cmd =>
          have kind : cmd.type ≠ .new := by simpa [nonNew] using Command.init_isNonNew parsed
          have stays := commandsExecute_step function ct cmd st executing.writing
          rw [List.nil_append, parserLoop_command function isStream executing parsed]
          generalize commandsExecute function ct cmd st = step at stays
          cases stays with
          | @done next _ setup executed _ =>
              obtain ⟨setupAfter, executedAfter, retryAfter⟩ := afterCommand_keeps initBlock next
              obtain ⟨done, remaining, outcome⟩ := parserLoop_outcome function isStream rest (ct + 1)
                (afterCommand initBlock next).1 "" (afterCommand initBlock next).2
                (executing.of_setup (setup.trans setupAfter))
              have ran : ct ∈ next.nonNewExecuted := by
                rw [nonNewExecuted_append executed]
                simp [kind]
              have mono := (outcome.of_same executedAfter retryAfter).executed
              rcases mono with same | ⟨_, _, _, _, same⟩ <;>
                · simp only [List.length_nil, Nat.add_zero]
                  rw [same]
                  simp [ran]
          | unknown unregistered =>
              exact absurd (Command.init_cmdhead parsed ▸ registered) unregistered
          | stopped failure returned _ _ _ => exact absurd (returned ▸ succeeds _ _ _) failure
  | cons other news ih =>
      have isNew : isNonNew other = false := onlyNew other (by simp)
      have shift : ct + (other :: news).length = ct + 1 + news.length := by
        simp only [List.length_cons]; omega
      have onlyNewTail : ∀ other ∈ news, isNonNew other = false :=
        fun other member => onlyNew other (by simp [member])
      rw [List.cons_append, shift]
      cases parsed : Command.init other isStream with
      | none => simpa only [parserLoop, parsed] using ih (ct + 1) initBlock st executing onlyNewTail
      | some cmd =>
          have kind : cmd.type = .new := by simpa [isNew] using Command.init_isNonNew parsed
          have stays := commandsExecute_step function ct cmd st executing.writing
          rw [parserLoop_command function isStream executing parsed]
          generalize commandsExecute function ct cmd st = step at stays
          cases stays with
          | @done next _ setup _ _ =>
              obtain ⟨setupAfter, _, _⟩ := afterCommand_keeps initBlock next
              exact ih (ct + 1) (afterCommand initBlock next).1 (afterCommand initBlock next).2
                (executing.of_setup (setup.trans setupAfter)) onlyNewTail
          | unknown unregistered =>
              exact absurd (Command.registered_of_new parsed kind) unregistered
          | stopped failure returned _ _ _ => exact absurd (returned ▸ succeeds _ _ _) failure

/-- A pass over what follows a done prefix continues the prefix's positions. -/
theorem PassOutcome.resumes {before after done rest : List String} {st : TransferState World}
    {result : Bool × Nat × TransferState World}
    (outcome : PassOutcome after before.length st result done rest)
    (nothing : st.nonNewExecuted = []) :
    nonNewPositions 0 before ++ result.2.2.nonNewExecuted <+:
        nonNewPositions 0 (before ++ after) ∧
      (result.1 = true → nonNewPositions 0 before ++ result.2.2.nonNewExecuted =
        nonNewPositions 0 (before ++ after)) := by
  have whole : nonNewPositions 0 (before ++ after) = nonNewPositions 0 before ++
      (nonNewPositions before.length done ++
        nonNewPositions (before.length + done.length) rest) := by
    rw [nonNewPositions_append, outcome.split, nonNewPositions_append, Nat.zero_add]
  rw [whole]
  rcases outcome.executed with same | ⟨line, tail, shape, nonNew, same⟩
  · rw [same, nothing, List.nil_append]
    refine ⟨?_, fun ok => ?_⟩
    · exact List.prefix_append_right_inj _ |>.mpr (List.prefix_append _ _)
    · rw [outcome.ended ok]; simp [nonNewPositions]
  · rw [same, nothing, List.nil_append, shape]
    refine ⟨?_, fun ok => ?_⟩
    · rw [List.prefix_append_right_inj, List.prefix_append_right_inj]
      simp [nonNewPositions, nonNew]
    · exact absurd (outcome.ended ok) (by simp [shape])

/-- The last non-`new` line splits a list; only other commands follow it. -/
theorem lastNonNew_split {lines : List String} {line : String}
    (found : lastNonNew lines = some line) :
    ∃ before after, lines = before ++ line :: after ∧ isNonNew line = true ∧
      ∀ other ∈ after, isNonNew other = false := by
  induction lines with
  | nil => simp [lastNonNew] at found
  | cons head rest ih =>
      rw [lastNonNew_cons] at found
      cases later : lastNonNew rest with
      | some last =>
          rw [later, Option.some_or, Option.some.injEq] at found
          subst found
          obtain ⟨before, after, shape, nonNew, onlyNew⟩ := ih later
          exact ⟨head :: before, after, by rw [shape, List.cons_append], nonNew, onlyNew⟩
      | none =>
          rw [later, Option.none_or] at found
          split at found
          · rename_i nonNew
            cases found
            refine ⟨[], rest, rfl, nonNew, fun other member => ?_⟩
            have none := List.getLast?_eq_none_iff.mp later
            simpa using List.filter_eq_nil_iff.mp none other member
          · cases found

theorem resumes_of_key_unique {headers lines : List String} {world : World}
    (unique : ResumeKeyUnique
      (lines.take (firstRun function headers lines isStream world).2.1.ct))
    (function' : CommandFunction World) (world' : World) :
    ResumesExactly lines (firstRun function headers lines isStream world).2.2
      (retryRun function' headers lines isStream
        (firstRun function headers lines isStream world).2.2.retryFile world') := by
  obtain ⟨rest, outcome⟩ := firstRun_outcome function isStream headers lines world
  have split := outcome.split
  have succeeded := outcome.succeeded
  have stored := outcome.retryFile
  generalize lines.take (firstRun function headers lines isStream world).2.1.ct = done at *
  generalize firstRun function headers lines isStream world = first at *
  have succeededDone : first.2.2.nonNewSucceeded = nonNewPositions 0 done := succeeded
  cases key : lastNonNew done with
  | none =>
      -- nothing was registered: the retry runs the whole list
      have empty : nonNewPositions 0 done = [] := by
        refine nonNewPositions_eq_nil fun line member => ?_
        have none := List.getLast?_eq_none_iff.mp key
        simpa using List.filter_eq_nil_iff.mp none line member
      have noFile : first.2.2.retryFile = none := by simpa [key, freshState] using stored
      obtain ⟨done', rest', outcome'⟩ := commandsParser_outcome function' isStream headers
        lines (freshState true first.2.2.retryFile world') rfl rfl (fun _ => noFile)
      rw [ResumesExactly, succeededDone, empty]
      exact @PassOutcome.resumes World [] lines done' rest' _ _ outcome' rfl
  | some line =>
      obtain ⟨before, after, shape, nonNew, onlyNew⟩ := lastNonNew_split key
      have once := unique line key
      have absent : line ∉ before := by
        intro member
        have twice := List.count_pos_iff.mpr member
        rw [shape, List.count_append, List.count_cons_self] at once
        omega
      have stored : first.2.2.retryFile = some line := by simpa [key] using stored
      have whole : lines = before ++ line :: (after ++ rest) := by rw [split, shape]; simp
      have positions : nonNewPositions 0 done = nonNewPositions 0 (before ++ [line]) := by
        have cut : done = (before ++ [line]) ++ after := by rw [shape]; simp
        rw [cut, nonNewPositions_append, nonNewPositions_eq_nil onlyNew, List.append_nil]
      rw [ResumesExactly, succeededDone, positions]
      by_cases accepted : headers.length = transferHeadersCount ∧ lines ≠ []
      · obtain ⟨st', setup, executed, _, loop⟩ := commandsParser_loop function' isStream headers lines
          (freshState true first.2.2.retryFile world') rfl accepted
        have nothing : st'.nonNewExecuted = [] := by
          simp [TransferState.nonNewExecuted, executed, freshState]
        rw [retryRun, loop, stored]
        simp only [freshState, ↓reduceIte, Option.getD_some]
        obtain ⟨result, run, skipped⟩ := parserLoop_skip function' isStream before line
          (after ++ rest) 0 0 st' setup.1 setup.2 nonNew absent
        rw [whole, run]
        have regroup : before ++ line :: (after ++ rest) = (before ++ [line]) ++ (after ++ rest) := by
          simp
        rcases skipped with ⟨stopped, _, same⟩ | ⟨initBlock, st'', setup', same, resumed⟩
        · rw [same, nothing, List.append_nil, regroup,
            nonNewPositions_append 0 (before ++ [line]) (after ++ rest)]
          exact ⟨List.prefix_append _ _, by simp [stopped]⟩
        · have executing : Executing "" st'' :=
            ⟨setup'.1.trans setup.1, _, setup'.2.trans setup.2, by simp⟩
          obtain ⟨done', rest', outcome'⟩ := parserLoop_outcome function' isStream
            (after ++ rest) (0 + before.length + 1) initBlock "" st'' executing
          rw [← resumed] at outcome'
          have start : 0 + before.length + 1 = (before ++ [line]).length := by simp
          rw [start] at outcome'
          rw [regroup]
          exact outcome'.resumes (same.trans nothing)
      · rw [retryRun, commandsParser_rejected function' isStream headers lines _ accepted]
        have regroup : lines = (before ++ [line]) ++ (after ++ rest) := by rw [whole]; simp
        rw [regroup, nonNewPositions_append 0 (before ++ [line]) (after ++ rest)]
        exact ⟨by simp [TransferState.nonNewExecuted, freshState], by simp⟩

/-- The first non-`new` line of a list that has one. -/
theorem firstNonNew_split {lines : List String} (present : ∃ line ∈ lines, isNonNew line = true) :
    ∃ news line after, lines = news ++ line :: after ∧ isNonNew line = true ∧
      ∀ other ∈ news, isNonNew other = false := by
  induction lines with
  | nil => simp at present
  | cons head rest ih =>
      cases nonNew : isNonNew head with
      | true => exact ⟨[], head, rest, rfl, nonNew, by simp⟩
      | false =>
          have later : ∃ line ∈ rest, isNonNew line = true := by
            simpa [nonNew] using present
          obtain ⟨news, line, after, shape, kind, onlyNew⟩ := ih later
          refine ⟨head :: news, line, after, by rw [shape, List.cons_append], kind, ?_⟩
          intro other member
          rcases List.mem_cons.mp member with rfl | member
          · exact nonNew
          · exact onlyNew other member

def alwaysSucceeds : CommandFunction World :=
  fun _ written world => (.success, written, world)

/-- A line that also stands further up the list is found there instead, and a
retry whose commands all succeed executes a finished command again. -/
theorem key_unique_of_resumes {headers lines : List String} {world : World}
    (resumes : ∀ (function' : CommandFunction World) (world' : World),
      ResumesExactly lines (firstRun function headers lines isStream world).2.2
        (retryRun function' headers lines isStream
          (firstRun function headers lines isStream world).2.2.retryFile world')) :
    ResumeKeyUnique
      (lines.take (firstRun function headers lines isStream world).2.1.ct) := by
  intro key found
  by_contra repeated
  obtain ⟨rest, outcome⟩ := firstRun_outcome function isStream headers lines world
  have nonempty : lines ≠ [] := by
    rintro rfl
    simp [lastNonNew] at found
  have four : headers.length = transferHeadersCount := by
    by_contra rejected
    have shape := commandsParser_rejected function isStream headers lines
      (freshState false none world) (fun both => rejected both.1)
    rw [firstRun, shape] at found
    simp [lastNonNew] at found
  have always := resumes alwaysSucceeds world
  have split := outcome.split
  have succeeded := outcome.succeeded
  have stored := outcome.retryFile
  have known := outcome.registered
  generalize lines.take (firstRun function headers lines isStream world).2.1.ct = done at *
  generalize firstRun function headers lines isStream world = first at *
  have succeededDone : first.2.2.nonNewSucceeded = nonNewPositions 0 done := succeeded
  have storedKey : first.2.2.retryFile = some key := by simpa [found] using stored
  -- the key's first occurrence, and the first command that runs behind it
  obtain ⟨before, after, shape, nonNew, onlyNewAfter⟩ := lastNonNew_split found
  have earlier : key ∈ before := by
    by_contra absent
    have absentAfter : key ∉ after := fun member => by
      simp [onlyNewAfter key member] at nonNew
    apply repeated
    rw [shape, List.count_append, List.count_cons_self, List.count_eq_zero.mpr absent,
      List.count_eq_zero.mpr absentAfter]
  obtain ⟨front, middle, beforeShape, absent⟩ := List.eq_append_cons_of_mem earlier
  have present : ∃ line ∈ middle ++ key :: after, isNonNew line = true :=
    ⟨key, by simp, nonNew⟩
  obtain ⟨news, line, behind, middleShape, lineNonNew, onlyNew⟩ := firstNonNew_split present
  have doneShape : done = front ++ key :: (news ++ line :: behind) := by
    rw [shape, beforeShape, ← middleShape]
    simp
  have whole : lines = front ++ key :: (news ++ line :: (behind ++ rest)) := by
    rw [split, doneShape]
    simp
  have registered := known line (by rw [doneShape]; simp) lineNonNew
  let position := 0 + front.length + 1 + news.length
  have doneBefore : position ∈ first.2.2.nonNewSucceeded := by
    rw [succeededDone, doneShape, nonNewPositions_append, nonNewPositions_cons _ key,
      nonNewPositions_append, nonNewPositions_cons _ line]
    simp [nonNewPositions, lineNonNew, position]
  have again : position ∈
      (retryRun alwaysSucceeds headers lines isStream first.2.2.retryFile world).2.2.nonNewExecuted := by
    obtain ⟨st', setup, _, _, loop⟩ := commandsParser_loop alwaysSucceeds isStream headers lines
      (freshState true first.2.2.retryFile world) rfl ⟨four, nonempty⟩
    rw [retryRun, loop, storedKey]
    simp only [freshState, ↓reduceIte, Option.getD_some]
    obtain ⟨result, run, skipped⟩ := parserLoop_skip alwaysSucceeds isStream front key
      (news ++ line :: (behind ++ rest)) 0 0 st' setup.1 setup.2 nonNew absent
    rw [whole, run]
    rcases skipped with ⟨_, ⟨_, _, _, failed⟩, _⟩ | ⟨initBlock, st'', setup', _, resumed⟩
    · exact absurd rfl failed
    · have executing : Executing "" st'' :=
        ⟨setup'.1.trans setup.1, _, setup'.2.trans setup.2, by simp⟩
      rw [resumed]
      exact parserLoop_reaches alwaysSucceeds isStream (fun _ _ _ => rfl) news line
        (behind ++ rest) (0 + front.length + 1) initBlock st'' executing onlyNew lineNonNew registered
  have distinct := (nonNewPositions_nodup 0 lines).sublist always.1.sublist
  exact (List.nodup_append.mp distinct).2.2 position doneBefore position again rfl

end

/-- A retry resumes exactly, whatever its commands do, just when the line in the
retry file occurs once among the lines the first run got through. -/
theorem retry_resumes_iff_key_unique {World : Type} (function : CommandFunction World)
    (headers lines : List String) (isStream : Bool) (world : World) :
    (∀ (function' : CommandFunction World) (world' : World),
      ResumesExactly lines (firstRun function headers lines isStream world).2.2
        (retryRun function' headers lines isStream
          (firstRun function headers lines isStream world).2.2.retryFile world')) ↔
      ResumeKeyUnique
        (lines.take (firstRun function headers lines isStream world).2.1.ct) :=
  ⟨key_unique_of_resumes function isStream, resumes_of_key_unique function isStream⟩

/-- Succeeds as long as the world, a budget of commands, lasts. -/
def budgeted : CommandFunction Nat :=
  fun _ written budget =>
    if budget = 0 then (.failed, written, 0) else (.success, written, budget - 1)

def repeatedLines : List String :=
  ["free a", "zero 2,0,1", "free a", "zero 2,1,2"]

/-- The first run stops at the last line with `free a` in the retry file; the
retry resumes behind the first `free a` and zeroes the first block again. -/
theorem repeated_line_executed_twice :
    let first := firstRun budgeted ["1", "2", "0", "0"] repeatedLines false 3
    let retry := retryRun budgeted ["1", "2", "0", "0"] repeatedLines false first.2.2.retryFile 9
    first.2.2.nonNewSucceeded = [0, 1, 2] ∧ retry.1 = true ∧
      retry.2.2.nonNewExecuted = [1, 2, 3] ∧ ¬ ResumesExactly repeatedLines first.2.2 retry := by
  decide

end Updater.ApplyPatch
