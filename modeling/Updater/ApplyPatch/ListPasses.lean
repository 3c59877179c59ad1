import Updater.ApplyPatch.RetryResumption

/-! Passes over a transfer list, each started behind the one before it with the retry file that was
left: whatever stops them, the commands are done one after another. -/

set_option autoImplicit false

namespace Updater.ApplyPatch

open Updater.Utils

/-- The commands of a list; an empty line is none. -/
def commandsOf (isStream : Bool) (lines : List String) : List Command :=
  lines.filterMap (Command.init · isStream)

theorem commandsOf_append (isStream : Bool) (front back : List String) :
    commandsOf isStream (front ++ back) = commandsOf isStream front ++ commandsOf isStream back :=
  List.filterMap_append

theorem commandsOf_cons_none {isStream : Bool} {line : String} {rest : List String}
    (parsed : Command.init line isStream = none) :
    commandsOf isStream (line :: rest) = commandsOf isStream rest :=
  List.filterMap_cons_none parsed

theorem commandsOf_cons_some {isStream : Bool} {line : String} {rest : List String} {cmd : Command}
    (parsed : Command.init line isStream = some cmd) :
    commandsOf isStream (line :: rest) = cmd :: commandsOf isStream rest :=
  List.filterMap_cons_some parsed

theorem commandsOf_empty {isStream : Bool} {lines : List String} (plain : ∀ line ∈ lines, line = "") :
    commandsOf isStream lines = [] :=
  List.filterMap_eq_nil_iff.mpr fun line member => Command.init_eq_none_iff.mpr (plain line member)

section

variable {World : Type} (function : CommandFunction World) (headers lines : List String)
  (isStream : Bool)

/-- A first run, and as many retries behind it. -/
def passes (world : World) : Nat → Bool × CommandIterator × TransferState World
  | 0 => firstRun function headers lines isStream world
  | count + 1 =>
      let before := (passes world count).2.2
      retryRun function headers lines isStream before.retryFile before.world

end

section Rule

variable {World : Type} {function : CommandFunction World} {headers lines : List String}
  {isStream : Bool} {commands : List Command} {stage : Nat → World → Prop}

/-- What holds of the world while so many commands are done, and the next one may have been tried:
a call that succeeds takes it on, and any other call keeps it. -/
structure Stages (function : CommandFunction World) (commands : List Command)
    (stage : Nat → World → Prop) : Prop where
  done {count written : Nat} {cmd : Command} {world : World} :
    commands[count]? = some cmd → stage count world →
      (function cmd written world).1 = .success → stage (count + 1) (function cmd written world).2.2
  failed {count written : Nat} {cmd : Command} {world : World} :
    commands[count]? = some cmd → stage count world →
      (function cmd written world).1 ≠ .success → stage count (function cmd written world).2.2

theorem checkResult_world (result : CommandResult) (line : String) (type : CommandType)
    (st : TransferState World) :
    (checkResult result line type st).2.world = st.world ∧
      ((checkResult result line type st).1 = true → result = .success) := by
  cases result with
  | success =>
      rw [checkResult]
      split
      · exact ⟨rfl, fun _ => rfl⟩
      · exact ⟨rfl, fun _ => rfl⟩
  | failed | needRetry =>
      rw [checkResult, postMessage]
      split
      · exact ⟨rfl, fun ok => absurd ok Bool.false_ne_true⟩
      · exact ⟨rfl, fun ok => absurd ok Bool.false_ne_true⟩
  | other code => exact ⟨rfl, fun ok => absurd ok Bool.false_ne_true⟩

theorem checkResult_success (line : String) (type : CommandType) (st : TransferState World) :
    (checkResult .success line type st).1 = true := rfl

theorem afterCommand_world (initBlock : Nat) (st : TransferState World) :
    (afterCommand initBlock st).2.world = st.world := by
  simp only [afterCommand]
  generalize (if initBlock = 0 then st.written else initBlock) = start
  split
  · rfl
  · rfl

/-- One command of a writing pass: its function is called, or nothing happens. -/
theorem commandsExecute_stage (stages : Stages function commands stage) {count position : Nat}
    {cmd : Command} {st : TransferState World} (writing : st.canWrite = true)
    (next : commands[count]? = some cmd) (begun : stage count st.world) :
    ((commandsExecute function position cmd st).1 = true ∧
      stage (count + 1) (commandsExecute function position cmd st).2.world) ∨
    ((commandsExecute function position cmd st).1 = false ∧
      stage count (commandsExecute function position cmd st).2.world) := by
  rw [commandsExecute]
  split
  · cases answer : function cmd st.written st.world with
    | mk result rest =>
        obtain ⟨written, world⟩ := rest
        have done := @stages.done count st.written cmd st.world next begun
        have failed := @stages.failed count st.written cmd st.world next begun
        rw [answer] at done failed
        dsimp only at done failed ⊢
        rw [if_pos writing]
        obtain ⟨same, success⟩ := checkResult_world result cmd.cmdLine cmd.type
          { st with
            written, world, executed := st.executed ++ [{ position, cmd, result : Execution }] }
        rw [same]
        by_cases succeeded : result = .success
        · subst succeeded
          exact .inl ⟨checkResult_success .., done rfl⟩
        · exact .inr ⟨(Bool.not_eq_true _).mp fun ok => succeeded (success ok),
            failed succeeded⟩
  · exact .inr ⟨rfl, begun⟩

/-- A pass that skips nothing, from a line on: it gets through some of the lines. -/
theorem parserLoop_stage {front : List Command} {ct initBlock : Nat} {retryCmd : String}
    {st : TransferState World}
    (stages : Stages function (front ++ commandsOf isStream lines) stage)
    (nonNew : ∀ line ∈ lines, line ≠ "" → isNonNew line = true)
    (executing : Executing retryCmd st) (begun : stage front.length st.world) :
    ∃ done rest, lines = done ++ rest ∧
      ((parserLoop function isStream lines ct retryCmd initBlock st).1 = true → rest = []) ∧
      stage (front.length + (commandsOf isStream done).length)
        (parserLoop function isStream lines ct retryCmd initBlock st).2.2.world ∧
      (parserLoop function isStream lines ct retryCmd initBlock st).2.2.retryFile =
        (lastNonNew done).or st.retryFile := by
  induction lines generalizing front ct initBlock st with
  | nil => exact ⟨[], [], rfl, fun _ => rfl, begun, rfl⟩
  | cons line rest ih =>
      have laterNonNew := fun other member => nonNew other (List.mem_cons_of_mem line member)
      cases parsed : Command.init line isStream with
      | none =>
          rw [commandsOf_cons_none parsed] at stages
          obtain ⟨done, remaining, split, ended, reached, retryFile⟩ :=
            @ih front (ct + 1) initBlock st stages laterNonNew executing begun
          have shape : parserLoop function isStream (line :: rest) ct retryCmd initBlock st =
              parserLoop function isStream rest (ct + 1) retryCmd initBlock st := by
            rw [parserLoop, parsed]
          rw [shape]
          refine ⟨line :: done, remaining, congrArg (line :: ·) split, ended, ?_, ?_⟩
          · rwa [commandsOf_cons_none parsed]
          · rw [retryFile, lastNonNew_cons, isNonNew_of_init_none parsed]
            simp
      | some cmd =>
          have kind : isNonNew line = true := nonNew line List.mem_cons_self fun empty => by
            rw [Command.init_eq_none_iff.mpr empty] at parsed
            cases parsed
          have type : cmd.type ≠ .new := by
            rw [Command.init_isNonNew parsed] at kind
            exact of_decide_eq_true kind
          rw [commandsOf_cons_some parsed, List.append_cons] at stages
          have next : (front ++ [cmd] ++ commandsOf isStream rest)[front.length]? = some cmd := by
            simp
          have ran := @commandsExecute_stage _ _ _ _ stages _ ct _ _ executing.writing next begun
          have kept := commandsExecute_step function ct cmd st executing.writing
          rw [parserLoop_command function isStream executing parsed]
          generalize commandsExecute function ct cmd st = step at ran kept
          cases kept with
          | @done after registered setup executed retryFile =>
              have reached : stage (front ++ [cmd]).length after.world := by
                rw [List.length_append]
                exact (ran.resolve_right fun stopped => absurd stopped.1.symm Bool.false_ne_true).2
              obtain ⟨setupAfter, -, retryAfter⟩ := afterCommand_keeps initBlock after
              have world := afterCommand_world initBlock after
              dsimp only
              generalize afterCommand initBlock after = middle at setupAfter retryAfter world
              obtain ⟨initBlock', middle⟩ := middle
              obtain ⟨done, remaining, split, ended, reached, stored⟩ :=
                @ih (front ++ [cmd]) (ct + 1) initBlock' middle stages laterNonNew
                  (executing.of_setup (setup.trans setupAfter)) (world ▸ reached)
              refine ⟨line :: done, remaining, congrArg (line :: ·) split, ended, ?_, ?_⟩
              · rw [commandsOf_cons_some parsed, List.length_cons]
                rw [List.length_append, Nat.add_assoc, Nat.add_comm [cmd].length] at reached
                exact reached
              · rw [stored, retryAfter, retryFile, if_pos type, Command.init_cmdLine parsed,
                  lastNonNew_cons, kind, if_pos rfl, Option.or_assoc]
                rfl
          | unknown unregistered => exact ⟨[], _, rfl, fun ok => absurd ok Bool.false_ne_true, begun, rfl⟩
          | @stopped after result failure returned setup executed retryFile =>
              refine ⟨[], _, rfl, fun ok => absurd ok Bool.false_ne_true, ?_, retryFile⟩
              exact (ran.resolve_left fun ok => absurd ok.1 Bool.false_ne_true).2

/-- Without `new` commands nothing is done before the line of the retry file. -/
theorem parserLoop_skips {before after : List String} {key : String} {ct initBlock : Nat}
    {st : TransferState World} (nonNew : ∀ line ∈ before, line ≠ "" → isNonNew line = true)
    (keyNonNew : isNonNew key = true) (absent : key ∉ before)
    (retry : st.env = some { isRetry := true }) :
    parserLoop function isStream (before ++ key :: after) ct key initBlock st =
      parserLoop function isStream after (ct + before.length + 1) "" initBlock st := by
  have type {line : String} {cmd : Command} (parsed : Command.init line isStream = some cmd)
      (kind : isNonNew line = true) : cmd.type ≠ .new := by
    rw [Command.init_isNonNew parsed] at kind
    exact of_decide_eq_true kind
  have some_ := isNonNew_ne_empty keyNonNew
  induction before generalizing ct with
  | nil =>
      cases parsed : Command.init key isStream with
      | none => exact absurd (Command.init_eq_none_iff.mp parsed) some_
      | some cmd => simp [parserLoop, parsed, retry, some_, type parsed keyNonNew]
  | cons line before ih =>
      obtain ⟨other, absent⟩ := List.ne_and_not_mem_of_not_mem_cons absent
      have rest := @ih (ct + 1) (fun line member => nonNew line (List.mem_cons_of_mem _ member)) absent
      rw [List.cons_append, List.length_cons, Nat.add_comm before.length, ← Nat.add_assoc, ← rest]
      cases parsed : Command.init line isStream with
      | none => rw [parserLoop, parsed]
      | some cmd =>
          have kind : isNonNew line = true := nonNew line List.mem_cons_self fun empty => by
            rw [Command.init_eq_none_iff.mpr empty] at parsed
            cases parsed
          simp [parserLoop, parsed, retry, some_, Ne.symm other, type parsed kind]

/-- What `CommandsParser` makes of the headers: it refuses the list, or passes over it. -/
theorem commandsParser_cases (st : TransferState World) {env : ScriptEnv} (present : st.env = some env) :
    commandsParser function headers { lines, ct := 0 } isStream st = (false, { lines, ct := 0 }, st) ∨
      ∃ begun : TransferState World,
        (commandsParser function headers { lines, ct := 0 } isStream st).2.2 =
          (parserLoop function isStream lines 0
            (if env.isRetry then st.retryFile.getD "" else "") 0 begun).2.2 ∧
        (commandsParser function headers { lines, ct := 0 } isStream st).1 =
          (parserLoop function isStream lines 0
            (if env.isRetry then st.retryFile.getD "" else "") 0 begun).1 ∧
        SameSetup st begun ∧ begun.retryFile = st.retryFile ∧ begun.world = st.world := by
  rw [commandsParser]
  split
  · cases read : initCommandParser headers st with
    | none => exact .inl rfl
    | some pair =>
        obtain ⟨retryCmd, begun⟩ := pair
        rw [initCommandParser.eq_def] at read
        split at read
        · dsimp only at read
          split at read
          · rename_i found
            obtain ⟨rfl, rfl⟩ := Prod.mk.inj (Option.some.inj read)
            obtain rfl := Option.some.inj (found.symm.trans present)
            exact .inr ⟨_, rfl, rfl, ⟨rfl, rfl⟩, rfl, rfl⟩
          · rename_i missing
            exact absurd (present.symm.trans missing) (Option.some_ne_none _)
        · exact absurd read.symm (Option.some_ne_none _)
  · exact .inl rfl

/-- Where the passes stand: some of the lines are done, the retry file names the last command of
them, and after a pass that succeeded all of them are done. -/
structure Stands (isStream : Bool) (lines : List String) (stage : Nat → World → Prop)
    (done : List String) (ok : Bool) (st : TransferState World) : Prop where
  split : done <+: lines
  ended : ok = true → done = lines
  reached : stage (commandsOf isStream done).length st.world
  retryFile : st.retryFile = lastNonNew done

/-- A pass that executes what it reaches, behind lines that are done. -/
theorem parserLoop_stands {front later : List String} {ct initBlock : Nat}
    {st : TransferState World} (split : lines = front ++ later)
    (stages : Stages function (commandsOf isStream lines) stage)
    (nonNew : ∀ line ∈ lines, line ≠ "" → isNonNew line = true) (executing : Executing "" st)
    (begun : stage (commandsOf isStream front).length st.world)
    (retryFile : st.retryFile = lastNonNew front) :
    ∃ done, Stands isStream lines stage done
      (parserLoop function isStream later ct "" initBlock st).1
      (parserLoop function isStream later ct "" initBlock st).2.2 := by
  subst split
  rw [commandsOf_append] at stages
  obtain ⟨done, rest, rfl, ended, reached, stored⟩ := @parserLoop_stage _ _ _ _ _ _ ct initBlock _ _
    stages (fun line member => nonNew line (List.mem_append_right front member)) executing begun
  refine ⟨front ++ done, ?_, ?_, ?_, ?_⟩
  · rw [← List.append_assoc]
    exact List.prefix_append _ _
  · intro ok
    rw [ended ok, List.append_nil]
  · rw [commandsOf_append, List.length_append]
    exact reached
  · rw [stored, retryFile]
    simp only [lastNonNew, List.filter_append, List.getLast?_append]

/-- A pass behind another one. -/
theorem commandsParser_stands {done : List String} {isRetry : Bool} {world : World}
    (stages : Stages function (commandsOf isStream lines) stage)
    (nonNew : ∀ line ∈ lines, line ≠ "" → isNonNew line = true)
    (distinct : (lines.filter (· ≠ "")).Nodup) (split : done <+: lines)
    (reached : stage (commandsOf isStream done).length world)
    (first : isRetry = false → done = []) :
    ∃ later, Stands isStream lines stage later
      (commandsParser function headers { lines, ct := 0 } isStream
        (freshState isRetry (lastNonNew done) world)).1
      (commandsParser function headers { lines, ct := 0 } isStream
        (freshState isRetry (lastNonNew done) world)).2.2 := by
  obtain rejected | ⟨begun, state, ok, setup, retryFile, same⟩ := @commandsParser_cases World function
    headers lines isStream (freshState isRetry (lastNonNew done) world) { isRetry } rfl
  · rw [rejected]
    exact ⟨done, split, fun ok => absurd ok Bool.false_ne_true, reached, rfl⟩
  · rw [state, ok]
    have world_ : begun.world = world := same
    have executing : Executing "" begun := ⟨setup.1, _, setup.2, by simp⟩
    cases key : lastNonNew done with
    | none =>
        have noKey : (if isRetry then (freshState isRetry (none : Option String) world).retryFile.getD ""
            else "") = "" := by cases isRetry <;> rfl
        have plain : ∀ line ∈ done, line = "" := fun line member => by
          by_contra some_
          have none_ := List.filter_eq_nil_iff.mp (List.getLast?_eq_none_iff.mp key) line member
          exact none_ (nonNew line (split.subset member) some_)
        rw [commandsOf_empty plain] at reached
        rw [key] at retryFile
        rw [noKey]
        exact parserLoop_stands (List.nil_append lines).symm stages nonNew executing
          (world_ ▸ reached) retryFile
    | some line =>
        obtain ⟨before, after, rfl, lineNonNew, others⟩ := lastNonNew_split key
        have retry : isRetry = true := by
          cases isRetry with
          | true => rfl
          | false => exact absurd (first rfl) (by simp)
        obtain ⟨rest, rfl⟩ := split
        have plain : ∀ other ∈ after, other = "" := fun other member => by
          by_contra some_
          have inside : other ∈ before ++ line :: after ++ rest := by simp [member]
          exact absurd ((others other member).symm.trans (nonNew other inside some_))
            Bool.false_ne_true
        have absent : line ∉ before := fun member => by
          have some_ := isNonNew_ne_empty lineNonNew
          rw [List.append_assoc, List.filter_append, List.nodup_append] at distinct
          exact distinct.2.2 line (by simp [member, some_]) line (by simp [some_]) rfl
        subst retry
        rw [key] at retryFile
        have loop := @parserLoop_skips World function isStream before (after ++ rest) line 0 0 begun
          (fun other member => nonNew other (by simp [member])) lineNonNew absent setup.2
        have shape : before ++ line :: after ++ rest = before ++ line :: (after ++ rest) := by simp
        have front : commandsOf isStream (before ++ [line]) =
            commandsOf isStream (before ++ line :: after) := by
          rw [List.append_cons before line after, commandsOf_append _ _ after, commandsOf_empty plain,
            List.append_nil]
        have name : lastNonNew (before ++ [line]) = some line := by
          simp [lastNonNew, lineNonNew]
        have keyLine : (if true then (freshState true (some line) world).retryFile.getD "" else "") =
            line := rfl
        rw [keyLine, shape, loop, ← shape]
        exact parserLoop_stands (by simp) stages nonNew executing (by rw [front, world_]; exact reached)
          (retryFile.trans name.symm)

/-- Whatever stops the passes over a list without `new` commands, in which no line occurs twice: each
begins behind what is done. -/
theorem passes_stand (stages : Stages function (commandsOf isStream lines) stage)
    (nonNew : ∀ line ∈ lines, line ≠ "" → isNonNew line = true)
    (distinct : (lines.filter (· ≠ "")).Nodup) {world : World} (begun : stage 0 world)
    (count : Nat) :
    ∃ done, Stands isStream lines stage done (passes function headers lines isStream world count).1
      (passes function headers lines isStream world count).2.2 := by
  induction count with
  | zero =>
      exact @commandsParser_stands World function headers lines isStream stage [] false world stages
        nonNew distinct List.nil_prefix begun fun _ => rfl
  | succ count ih =>
      obtain ⟨done, stands⟩ := ih
      rw [passes, retryRun, stands.retryFile]
      exact commandsParser_stands stages nonNew distinct stands.split stands.reached
        fun first => absurd first.symm Bool.false_ne_true

end Rule

end Updater.ApplyPatch
