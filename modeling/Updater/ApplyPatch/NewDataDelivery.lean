import Mathlib.Data.List.Forall2
import Updater.ApplyPatch.NewDataHandshake

/-! While every pending writer has room for the bytes that come, the commands get
consecutive slices of `new.dat`; the threads never wait for each other. -/

set_option autoImplicit false

namespace Updater.ApplyPatch

open Updater.Base

/-- What the commands' thread knows where it is. -/
def CommandLinked (writer : Option BlockWriter) (readyToWrite : Bool) : CommandState → Prop
  | .ready => writer = none
  | .waiting _ signalled => signalled = false → writer.isSome = true ∧ readyToWrite = true
  | .failing _ => writer.isSome = true ∧ readyToWrite = false
  | .joined => writer = none ∧ readyToWrite = false

/-- What the unpacking thread knows where it is. -/
def ExtractLinked (writer : Option BlockWriter) (readyToWrite : Bool) : ExtractState → Prop
  | .waiting signalled => signalled = false → writer = none ∧ readyToWrite = true
  | .writing => writer.isSome = true
  | .finishing => ∃ pending, writer = some pending ∧ pending.isWriteDone = true
  | _ => True

variable {writer : Option BlockWriter} {readyToWrite : Bool}

/-- A thread that is woken may go on whatever it waited for. -/
theorem CommandLinked.signal {command : CommandState}
    (linked : CommandLinked writer readyToWrite command) :
    CommandLinked writer readyToWrite command.signal := by
  cases command with
  | waiting blocks signalled => exact nofun
  | ready => exact linked
  | failing blocks => exact linked
  | joined => exact linked

theorem ExtractLinked.signal {extract : ExtractState}
    (linked : ExtractLinked writer readyToWrite extract) :
    ExtractLinked writer readyToWrite extract.signal := by
  cases extract with
  | waiting signalled => exact nofun
  | returned => trivial
  | loop => trivial
  | writing => exact linked
  | finishing => exact linked
  | ending => trivial
  | ended => trivial

theorem ExtractState.signal_active {extract : ExtractState} (before : extract.signal ≠ .ending)
    (behind : extract.signal ≠ .ended) : extract ≠ .ending ∧ extract ≠ .ended := by
  constructor
  · rintro rfl
    exact before rfl
  · rintro rfl
    exact behind rfl

theorem ExtractState.signal_returned {extract : ExtractState}
    (returned : extract.signal = .returned) : extract = .returned := by
  cases extract with
  | returned => rfl
  | _ => cases returned

/-- Without a writer, only a wait knows anything. -/
theorem ExtractLinked.change {extract : ExtractState} (linked : ExtractLinked none readyToWrite extract)
    (writer' : Option BlockWriter) (readyToWrite' : Bool) :
    ExtractLinked writer' readyToWrite' extract.signal := by
  cases extract with
  | waiting signalled => exact nofun
  | returned => trivial
  | loop => trivial
  | writing => cases linked
  | finishing =>
      obtain ⟨_, impossible, _⟩ := linked
      cases impossible
  | ending => trivial
  | ended => trivial

/-- Which writer is pending is nothing the commands' thread depends on. -/
theorem CommandLinked.change {pending : BlockWriter} {command : CommandState}
    (linked : CommandLinked (some pending) readyToWrite command) (pending' : BlockWriter) :
    CommandLinked (some pending') readyToWrite command := by
  cases command with
  | ready => cases linked
  | waiting blocks signalled => exact linked
  | failing blocks => exact linked
  | joined => cases linked.1

theorem CommandState.signal_ne_waiting {command : CommandState}
    (different : ∀ blocks signalled, command ≠ .waiting blocks signalled) (blocks : BlockSet)
    (signalled : Bool) : command.signal ≠ .waiting blocks signalled := by
  cases command with
  | waiting blocks signalled => exact absurd rfl (different blocks signalled)
  | ready => exact nofun
  | failing blocks => exact nofun
  | joined => exact nofun

namespace NewDataState

variable {st next : NewDataState}

/-- The control states agree with each other. -/
structure Linked (st : NewDataState) : Prop where
  command : CommandLinked st.writer st.readyToWrite st.command
  extract : ExtractLinked st.writer st.readyToWrite st.extract
  closed : st.readyToWrite = false → st.extract = .ended ∨ st.command = .joined
  failed : ∀ result ∈ st.results, result.2 = false →
    st.readyToWrite = false ∧ ∀ blocks signalled, st.command ≠ .waiting blocks signalled

/-- Taking or ending a command, under the mutex. -/
theorem Linked.checkWriter {blocks : BlockSet}
    (extract : ExtractLinked st.writer st.readyToWrite st.extract)
    (closed : st.readyToWrite = false → st.extract = .ended)
    (failed : ∀ result ∈ st.results, result.2 = false →
      st.readyToWrite = false ∧ st.writer.isSome = true) :
    (st.checkWriter blocks).Linked := by
  obtain ⟨offset, device, commands, chunks, writer, readyToWrite, command, results, rest, there⟩ := st
  unfold NewDataState.checkWriter
  cases writer with
  | none =>
      refine ⟨rfl, extract, fun shut => .inl (closed shut), ?_⟩
      intro result member bad
      rcases List.mem_append.mp member with old | new
      · cases (failed result old bad).2
      · cases List.mem_singleton.mp new
        cases bad
  | some pending =>
      cases readyToWrite with
      | true =>
          refine ⟨fun _ => ⟨rfl, rfl⟩, extract, nofun, ?_⟩
          intro result member bad
          cases (failed result member bad).1
      | false => exact ⟨⟨rfl, rfl⟩, extract, fun shut => .inl (closed shut), fun _ _ _ => ⟨rfl, nofun⟩⟩

theorem Linked.commandStep (linked : st.Linked) (stepped : st.commandStep = some next) :
    next.Linked := by
  obtain ⟨offset, device, commands, chunks, writer, readyToWrite, command, results, rest, there⟩ := st
  obtain ⟨here, extract, closed, failed⟩ := linked
  unfold NewDataState.commandStep at stepped
  cases command with
  | ready =>
      cases here
      cases commands with
      | nil =>
          cases stepped
          exact ⟨⟨rfl, rfl⟩, extract.change none false, fun _ => .inr rfl, fun _ _ _ => ⟨rfl, nofun⟩⟩
      | cons blocks commands =>
          cases stepped
          apply Linked.checkWriter
          · exact extract.change _ readyToWrite
          · intro shut
            rcases closed shut with ended | impossible
            · exact congrArg ExtractState.signal ended
            · cases impossible
          · intro result member bad
            exact ⟨(failed result member bad).1, rfl⟩
  | waiting blocks signalled =>
      cases signalled with
      | false => cases stepped
      | true =>
          cases stepped
          apply Linked.checkWriter extract
          · intro shut
            rcases closed shut with ended | impossible
            · exact ended
            · cases impossible
          · intro result member bad
            exact absurd rfl ((failed result member bad).2 blocks true)
  | failing blocks =>
      cases stepped
      obtain ⟨-, shut⟩ := here
      cases shut
      rcases closed rfl with ended | impossible
      · cases ended
        exact ⟨rfl, trivial, fun _ => .inl rfl, fun _ _ _ => ⟨rfl, nofun⟩⟩
      · cases impossible
  | joined => cases stepped

theorem Linked.lookForWriter (linked : st.Linked) (active : st.extract ≠ .ended) :
    st.lookForWriter.Linked := by
  obtain ⟨offset, device, commands, chunks, writer, readyToWrite, command, results, rest, there⟩ := st
  obtain ⟨here, extract, closed, failed⟩ := linked
  unfold NewDataState.lookForWriter
  have joined : readyToWrite = false → command = .joined := by
    intro shut
    rcases closed shut with ended | joined
    · exact absurd ended active
    · exact joined
  cases writer with
  | none =>
      cases readyToWrite with
      | true => exact ⟨here, fun _ => ⟨rfl, rfl⟩, nofun, failed⟩
      | false => exact ⟨here, trivial, fun _ => .inr (joined rfl), failed⟩
  | some pending => exact ⟨here, rfl, fun shut => .inr (joined shut), failed⟩

theorem Linked.extractStep (linked : st.Linked) (stepped : st.extractStep = some next) :
    next.Linked := by
  obtain ⟨offset, device, commands, chunks, writer, readyToWrite, command, results, rest, there⟩ := st
  have whole := linked
  obtain ⟨here, extract, closed, failed⟩ := linked
  have joined (active : there ≠ .ended) (shut : readyToWrite = false) : command = .joined := by
    rcases closed shut with ended | joined
    · exact absurd ended active
    · exact joined
  unfold NewDataState.extractStep at stepped
  cases there with
  | returned =>
      cases chunks with
      | nil =>
          cases stepped
          exact ⟨here, trivial, fun shut => .inr (joined nofun shut), failed⟩
      | cons chunk chunks =>
          cases stepped
          exact ⟨here, trivial, fun shut => .inr (joined nofun shut), failed⟩
  | loop =>
      dsimp only at stepped
      split at stepped
      · cases stepped
        exact ⟨here, trivial, fun shut => .inr (joined nofun shut), failed⟩
      · cases stepped
        exact whole.lookForWriter nofun
  | waiting signalled =>
      cases signalled with
      | false => cases stepped
      | true =>
          cases stepped
          exact whole.lookForWriter nofun
  | writing =>
      obtain ⟨pending, there, rfl⟩ := Option.map_eq_some_iff.mp stepped
      cases there
      unfold NewDataState.writeRest
      dsimp only
      split
      · exact ⟨here, trivial, fun shut => .inr (joined nofun shut), failed⟩
      · split
        · exact ⟨here.change _, trivial, fun shut => .inr (joined nofun shut), failed⟩
        · refine ⟨here.change _, ?_, fun shut => .inr (joined nofun shut), failed⟩
          dsimp only
          split
          · rename_i finished
            exact ⟨_, rfl, finished⟩
          · trivial
  | finishing =>
      cases stepped
      obtain ⟨pending, rfl, -⟩ := extract
      refine ⟨?_, trivial, ?_, ?_⟩
      · cases command with
        | ready => cases here
        | waiting blocks signalled => exact nofun
        | failing blocks => cases joined nofun here.2
        | joined => cases here.1
      · intro shut
        exact .inr (congrArg CommandState.signal (joined nofun shut))
      · intro result member bad
        obtain ⟨shut, different⟩ := failed result member bad
        exact ⟨shut, CommandState.signal_ne_waiting different⟩
  | ending =>
      cases writer with
      | none =>
          cases stepped
          refine ⟨?_, trivial, fun _ => .inl rfl, fun result member bad =>
            ⟨rfl, (failed result member bad).2⟩⟩
          cases command with
          | ready => rfl
          | waiting blocks signalled =>
              intro asleep
              cases (here asleep).1
          | failing blocks => cases here.1
          | joined => exact ⟨rfl, rfl⟩
      | some pending =>
          cases stepped
          refine ⟨?_, trivial, fun _ => .inl rfl, ?_⟩
          · cases command with
            | ready => cases here
            | waiting blocks signalled => exact nofun
            | failing blocks => exact ⟨rfl, rfl⟩
            | joined => cases here.1
          · intro result member bad
            exact ⟨rfl, CommandState.signal_ne_waiting (failed result member bad).2⟩
  | ended => cases stepped

/-- Step lemma of the control states. -/
theorem Linked.step (linked : st.Linked) {event : Event} (stepped : st.step event = some next) :
    next.Linked := by
  cases event with
  | command => exact linked.commandStep stepped
  | extract => exact linked.extractStep stepped
  | wakeCommand =>
      cases stepped
      obtain ⟨here, extract, closed, failed⟩ := linked
      refine ⟨here.signal, extract, ?_, ?_⟩
      · intro shut
        rcases closed shut with ended | joined
        · exact .inl ended
        · exact .inr (congrArg CommandState.signal joined)
      · intro result member bad
        obtain ⟨shut, different⟩ := failed result member bad
        exact ⟨shut, CommandState.signal_ne_waiting different⟩
  | wakeExtract =>
      cases stepped
      obtain ⟨here, extract, closed, failed⟩ := linked
      refine ⟨here, extract.signal, ?_, failed⟩
      intro shut
      rcases closed shut with ended | joined
      · exact .inl (congrArg ExtractState.signal ended)
      · exact .inr joined

/-- Neither thread waits for the other. -/
theorem Linked.not_both_waiting (linked : st.Linked) {blocks : BlockSet} :
    ¬ (st.command = .waiting blocks false ∧ st.extract = .waiting false) := by
  rintro ⟨here, there⟩
  have command := linked.command
  have extract := linked.extract
  rw [here] at command
  rw [there] at extract
  have some := (command rfl).1
  rw [(extract rfl).1] at some
  cases some

end NewDataState

/-- The ranges of the present command. -/
def CommandState.current : CommandState → BlockSet
  | .waiting blocks _ => blocks
  | .failing blocks => blocks
  | _ => []

theorem CommandState.current_signal (command : CommandState) :
    command.signal.current = command.current := by
  cases command with
  | ready => rfl
  | waiting blocks signalled => rfl
  | failing blocks => rfl
  | joined => rfl

/-- `content` with a slice written to the ranges of each command. -/
def putSlices (offset : Nat) (content : Nat → UInt8) :
    List (BlockSet × Bool) → List Bytes → Nat → UInt8
  | result :: results, slice :: slices =>
      putSlices offset (putBytes content (BlockSet.places offset result.1) slice) results slices
  | _, _ => content

theorem putSlices_append {offset : Nat} {results : List (BlockSet × Bool)} {slices : List Bytes}
    (same : results.length = slices.length) (content : Nat → UInt8) (result : BlockSet × Bool)
    (slice : Bytes) :
    putSlices offset content (results ++ [result]) (slices ++ [slice]) =
      putBytes (putSlices offset content results slices) (BlockSet.places offset result.1) slice := by
  induction results generalizing content slices with
  | nil =>
      cases slices with
      | nil => rfl
      | cons first slices => cases same
  | cons first results ih =>
      cases slices with
      | nil => cases same
      | cons slice' slices => exact ih (Nat.succ.inj same) _

/-- The command gets all its bytes if it succeeds. -/
def Served (result : BlockSet × Bool) (slice : Bytes) : Prop :=
  slice.length ≤ BlockSet.blocksSize result.1 ∧
    (result.2 = true → slice.length = BlockSet.blocksSize result.1)

namespace NewDataState

variable {st next : NewDataState} {newDat started : Bytes} {content : Nat → UInt8}
  {slices : List Bytes}

/-- The slices that the commands got, and what the present one got so far. -/
structure Progress (newDat : Bytes) (content : Nat → UInt8) (slices : List Bytes) (started : Bytes)
    (st : NewDataState) : Prop where
  served : List.Forall₂ Served st.results slices
  bytes : newDat = slices.flatten ++ (started ++ (st.rest ++ st.chunks.flatten))
  content : st.device.content = putBytes (putSlices st.offset content st.results slices)
    (BlockSet.places st.offset st.command.current) started
  size : started.length ≤ BlockSet.blocksSize st.command.current
  pending : ∀ writer ∈ st.writer, writer.blocks = st.command.current ∧ writer.offset = st.offset ∧
    writer.totalWritten = started.length ∧ (st.extract ≠ .ending → st.extract ≠ .ended →
      writer.cursor st.device =
        (BlockSet.places st.offset st.command.current).drop started.length)
  done : st.writer = none → started.length = BlockSet.blocksSize st.command.current
  returned : st.extract = .returned → st.rest = []

/-- The present command ends; it is served if nobody took its writer away early. -/
theorem Progress.finish (progress : Progress newDat content slices started st) {success : Bool}
    (complete : success = true → started.length = BlockSet.blocksSize st.command.current) :
    Progress newDat content (slices ++ [started]) [] { st with
      writer := none
      results := st.results ++ [(st.command.current, success)]
      command := .ready } where
  served := List.rel_append progress.served (.cons ⟨progress.size, complete⟩ .nil)
  bytes := by
    rw [progress.bytes]
    simp only [List.flatten_append, List.flatten_singleton, List.nil_append, List.append_assoc]
  content := by
    rw [putSlices_append progress.served.length_eq, putBytes_nil]
    exact progress.content
  size := Nat.zero_le _
  pending := nofun
  done := fun _ => BlockSet.blocksSize_nil.symm
  returned := progress.returned

/-- Nothing that the slices depend on changes. -/
theorem Progress.control (progress : Progress newDat content slices started st)
    {readyToWrite : Bool} {command : CommandState} {extract : ExtractState}
    (current : command.current = st.command.current)
    (active : extract ≠ .ending → extract ≠ .ended → st.extract ≠ .ending ∧ st.extract ≠ .ended)
    (returned : extract = .returned → st.rest = []) :
    Progress newDat content slices started { st with readyToWrite, command, extract } where
  served := progress.served
  bytes := progress.bytes
  content := by
    rw [current]
    exact progress.content
  size := by
    rw [current]
    exact progress.size
  pending := by
    intro writer member
    obtain ⟨blocks, offset, total, cursor⟩ := progress.pending writer member
    rw [current]
    refine ⟨blocks, offset, total, ?_⟩
    intro going open_
    obtain ⟨before, behind⟩ := active going open_
    exact cursor before behind
  done := by
    rw [current]
    exact progress.done
  returned := returned

/-- A new command begins with nothing written. -/
theorem Progress.begin (progress : Progress newDat content slices started st)
    (none : st.writer = none) (idle : st.command.current = []) {blocks : BlockSet}
    {commands : List BlockSet} {command : CommandState} (current : command.current = blocks) :
    Progress newDat content slices [] { st with
      commands
      writer := some { blocks, offset := st.offset }
      command
      extract := st.extract.signal } := by
  have nothing : started = [] := by
    have length := progress.done none
    rw [idle, BlockSet.blocksSize_nil] at length
    exact List.length_eq_zero_iff.mp length
  constructor
  · exact progress.served
  · rw [progress.bytes, nothing]
  · rw [putBytes_nil, progress.content, nothing, putBytes_nil]
  · exact Nat.zero_le _
  · intro writer member
    cases member
    refine ⟨current.symm, rfl, rfl, ?_⟩
    intro _ _
    rw [current]
    rfl
  · exact nofun
  · intro returned
    exact progress.returned (ExtractState.signal_returned returned)

theorem Progress.commandStep (progress : Progress newDat content slices started st)
    (linked : st.Linked) (stepped : st.commandStep = some next) :
    ∃ slices started, Progress newDat content slices started next := by
  obtain ⟨offset, device, commands, chunks, writer, readyToWrite, command, results, rest, extract⟩ := st
  have here := linked.command
  unfold NewDataState.commandStep at stepped
  cases command with
  | ready =>
      cases here
      cases commands with
      | nil =>
          cases stepped
          exact ⟨slices, started, progress.control rfl ExtractState.signal_active fun returned =>
            progress.returned (ExtractState.signal_returned returned)⟩
      | cons blocks commands =>
          cases stepped
          unfold NewDataState.checkWriter NewDataState.broadcast
          dsimp only
          split
          · exact ⟨slices, [], progress.begin rfl rfl rfl⟩
          · exact ⟨slices, [], progress.begin rfl rfl rfl⟩
  | waiting blocks signalled =>
      cases signalled with
      | false => cases stepped
      | true =>
          cases stepped
          unfold NewDataState.checkWriter
          cases writer with
          | none => exact ⟨_, _, progress.finish fun _ => progress.done rfl⟩
          | some pending =>
              dsimp only
              split
              · exact ⟨slices, started, progress.control rfl (fun before behind => ⟨before, behind⟩)
                  progress.returned⟩
              · exact ⟨slices, started, progress.control rfl (fun before behind => ⟨before, behind⟩)
                  progress.returned⟩
  | failing blocks =>
      cases stepped
      exact ⟨_, _, progress.finish nofun⟩
  | joined => cases stepped

/-- The pending writer has room for at least one of the bytes that are to be written. -/
def HasRoom (st : NewDataState) : Prop :=
  st.extract = .writing →
    ∀ writer ∈ st.writer, writer.totalWritten < BlockSet.blocksSize writer.blocks

theorem Progress.lookForWriter (progress : Progress newDat content slices started st)
    (active : st.extract ≠ .ending ∧ st.extract ≠ .ended) :
    Progress newDat content slices started st.lookForWriter := by
  unfold NewDataState.lookForWriter
  split
  · split
    · exact progress.control rfl (fun _ _ => active) nofun
    · exact progress.control rfl (fun _ _ => active) nofun
  · exact progress.control rfl (fun _ _ => active) nofun

/-- What is written is the beginning of what is left, and goes behind what the command got. -/
theorem Progress.wrote {pending writer : BlockWriter} {device : BlockDevice} {left : Bytes}
    {toWrite : Nat} {ok : Bool} {extract : ExtractState}
    (progress : Progress newDat content slices started st) (found : st.writer = some pending)
    (active : st.extract ≠ .ending ∧ st.extract ≠ .ended)
    (room : toWrite ≤ BlockSet.blocksSize pending.blocks - pending.totalWritten)
    (writes : BlockWriter.Writes pending st.device (st.rest.take toWrite) (ok, writer, device, left))
    (going : ok = true ∨ extract = .ending) (later : extract ≠ .returned) :
    ∃ started, Progress newDat content slices started { st with
      writer := some writer
      device
      rest := left ++ st.rest.drop toWrite
      extract } := by
  obtain ⟨blocks, offset, total, cursor⟩ := progress.pending pending found
  obtain ⟨sameBlocks, sameOffset, written, split, -, sum, put, success⟩ := writes
  have places := cursor active.1 active.2
  have short : written.length ≤ toWrite := by
    have length := congrArg List.length split
    rw [List.length_append, List.length_take] at length
    omega
  dsimp only at sameBlocks sameOffset split sum put success
  refine ⟨started ++ written, progress.served, ?_, ?_, ?_, ?_, nofun, fun returned => absurd returned later⟩
  · have whole : st.rest = written ++ (left ++ st.rest.drop toWrite) := by
      rw [← List.append_assoc, ← split, List.take_append_drop]
    rw [progress.bytes]
    nth_rewrite 1 [whole]
    simp only [List.append_assoc]
  · rw [put, places, progress.content, putBytes_append]
  · rw [List.length_append]
    have size := progress.size
    rw [blocks] at room
    dsimp only
    omega
  · intro writer' member
    cases member
    refine ⟨sameBlocks.trans blocks, sameOffset.trans offset, ?_, ?_⟩
    · rw [sum, total, List.length_append]
    · intro before _
      rcases going with fine | stopped
      · rw [(success fine).2, places, List.drop_drop, List.length_append]
      · exact absurd stopped before

theorem Progress.writeRest {pending : BlockWriter}
    (progress : Progress newDat content slices started st) (found : st.writer = some pending)
    (writing : st.extract = .writing) (room : st.HasRoom) :
    ∃ started, Progress newDat content slices started (st.writeRest pending) := by
  have active : st.extract ≠ .ending ∧ st.extract ≠ .ended := by
    rw [writing]
    exact ⟨nofun, nofun⟩
  have below := room writing pending found
  unfold NewDataState.writeRest
  dsimp only
  split
  · rename_i nothing
    have empty : st.rest = [] := by
      apply List.length_eq_zero_iff.mp
      omega
    obtain ⟨offset, device, commands, chunks, writer, readyToWrite, command, results, rest, extract⟩ := st
    cases empty
    exact ⟨started, progress.control rfl (fun _ _ => active) fun _ => rfl⟩
  · have writes := BlockWriter.write_writes pending st.device (st.rest.take
      (min st.rest.length (BlockSet.blocksSize pending.blocks - pending.totalWritten)))
    split
    · rename_i result
      rw [result] at writes
      exact progress.wrote found active (Nat.min_le_right _ _) writes (.inr rfl) nofun
    · rename_i writer device left result
      rw [result] at writes
      have drained : left = [] := by
        obtain ⟨-, -, _, -, -, -, -, success⟩ := writes
        exact (success rfl).1
      subst drained
      refine progress.wrote found active (Nat.min_le_right _ _) writes (.inl rfl) ?_
      split
      · exact nofun
      · exact nofun

/-- A writer that is done has got all bytes of its command. -/
theorem Progress.complete {pending : BlockWriter}
    (progress : Progress newDat content slices started st) (found : st.writer = some pending)
    (active : st.extract ≠ .ending ∧ st.extract ≠ .ended) (finished : pending.isWriteDone = true) :
    started.length = BlockSet.blocksSize st.command.current := by
  obtain ⟨-, -, -, cursor⟩ := progress.pending pending found
  have places := cursor active.1 active.2
  rw [BlockWriter.cursor_done finished] at places
  have covered := List.drop_eq_nil_iff.mp places.symm
  have size := progress.size
  have limit := BlockSet.blocksSize_lt st.command.current
  have same := BlockSet.length_places st.offset st.command.current
  rw [Nat.mod_eq_of_lt (by omega)] at same
  omega

theorem Progress.extractStep (progress : Progress newDat content slices started st)
    (linked : st.Linked) (room : st.HasRoom) (stepped : st.extractStep = some next) :
    ∃ started, Progress newDat content slices started next := by
  unfold NewDataState.extractStep at stepped
  cases here : st.extract with
  | returned =>
      obtain ⟨offset, device, commands, chunks, writer, readyToWrite, command, results, rest, extract⟩ := st
      cases here
      have empty := progress.returned rfl
      cases empty
      cases chunks with
      | nil =>
          cases stepped
          exact ⟨started, progress.control rfl (fun before _ => absurd rfl before) nofun⟩
      | cons chunk chunks =>
          cases stepped
          have going := @Progress.control _ _ _ _ _ progress readyToWrite command .loop rfl
            (fun _ _ => ⟨nofun, nofun⟩) nofun
          exact ⟨started, going.served, progress.bytes, going.content, going.size, going.pending,
            going.done, nofun⟩
  | loop =>
      rw [here] at stepped
      have active : st.extract ≠ .ending ∧ st.extract ≠ .ended := by
        rw [here]
        exact ⟨nofun, nofun⟩
      dsimp only at stepped
      split at stepped
      · rename_i empty
        cases stepped
        exact ⟨started, progress.control rfl (fun _ _ => active) fun _ => empty⟩
      · cases stepped
        exact ⟨started, progress.lookForWriter active⟩
  | waiting signalled =>
      rw [here] at stepped
      have active : st.extract ≠ .ending ∧ st.extract ≠ .ended := by
        rw [here]
        exact ⟨nofun, nofun⟩
      cases signalled with
      | false => cases stepped
      | true =>
          cases stepped
          exact ⟨started, progress.lookForWriter active⟩
  | writing =>
      rw [here] at stepped
      obtain ⟨pending, found, rfl⟩ := Option.map_eq_some_iff.mp stepped
      exact progress.writeRest found here room
  | finishing =>
      rw [here] at stepped
      have active : st.extract ≠ .ending ∧ st.extract ≠ .ended := by
        rw [here]
        exact ⟨nofun, nofun⟩
      cases stepped
      have finished := linked.extract
      rw [here] at finished
      obtain ⟨pending, found, done⟩ := finished
      have complete := progress.complete found active done
      have going := @Progress.control _ _ _ _ _ progress st.readyToWrite st.command.signal .loop
        (CommandState.current_signal _) (fun _ _ => active) nofun
      refine ⟨started, going.served, going.bytes, going.content, going.size, nofun, ?_, nofun⟩
      intro _
      simp only [NewDataState.broadcast, CommandState.current_signal]
      exact complete
  | ending =>
      rw [here] at stepped
      dsimp only at stepped
      split at stepped
      · cases stepped
        exact ⟨started, progress.control (CommandState.current_signal _)
          (fun _ behind => absurd rfl behind) nofun⟩
      · cases stepped
        exact ⟨started, progress.control rfl (fun _ behind => absurd rfl behind) nofun⟩
  | ended =>
      rw [here] at stepped
      cases stepped

/-- Step lemma of the slices. -/
theorem Progress.step {event : Event} (progress : Progress newDat content slices started st)
    (linked : st.Linked) (room : st.HasRoom) (stepped : st.step event = some next) :
    ∃ slices started, Progress newDat content slices started next := by
  cases event with
  | command => exact progress.commandStep linked stepped
  | extract => exact ⟨slices, progress.extractStep linked room stepped⟩
  | wakeCommand =>
      cases stepped
      exact ⟨slices, started, progress.control (CommandState.current_signal _)
        (fun before behind => ⟨before, behind⟩) progress.returned⟩
  | wakeExtract =>
      cases stepped
      exact ⟨slices, started, progress.control rfl ExtractState.signal_active fun returned =>
        progress.returned (ExtractState.signal_returned returned)⟩

theorem extractStep_results (stepped : st.extractStep = some next) : next.results = st.results := by
  have looked : st.lookForWriter.results = st.results := by
    unfold NewDataState.lookForWriter
    split
    · split
      · rfl
      · rfl
    · rfl
  unfold NewDataState.extractStep at stepped
  cases here : st.extract with
  | returned =>
      rw [here] at stepped
      dsimp only at stepped
      split at stepped
      · cases stepped
        rfl
      · cases stepped
        rfl
  | loop =>
      rw [here] at stepped
      dsimp only at stepped
      split at stepped
      · cases stepped
        rfl
      · cases stepped
        exact looked
  | waiting signalled =>
      rw [here] at stepped
      cases signalled with
      | false => cases stepped
      | true =>
          cases stepped
          exact looked
  | writing =>
      rw [here] at stepped
      obtain ⟨pending, -, rfl⟩ := Option.map_eq_some_iff.mp stepped
      unfold NewDataState.writeRest
      dsimp only
      split
      · rfl
      · split
        · rfl
        · rfl
  | finishing =>
      rw [here] at stepped
      cases stepped
      rfl
  | ending =>
      rw [here] at stepped
      dsimp only at stepped
      split at stepped
      · cases stepped
        rfl
      · cases stepped
        rfl
  | ended =>
      rw [here] at stepped
      cases stepped

/-- Behind a command that fails, none succeeds. -/
def SuccessesFirst (results : List (BlockSet × Bool)) : Prop :=
  results.Pairwise fun earlier later => later.2 = true → earlier.2 = true

theorem SuccessesFirst.append {results : List (BlockSet × Bool)} {result : BlockSet × Bool}
    (first : SuccessesFirst results)
    (last : result.2 = true → ∀ earlier ∈ results, earlier.2 = true) :
    SuccessesFirst (results ++ [result]) := by
  apply List.pairwise_append.mpr
  refine ⟨first, List.pairwise_singleton _ _, ?_⟩
  intro earlier member later here success
  cases List.mem_singleton.mp here
  exact last success earlier member

theorem SuccessesFirst.step {event : Event} (first : SuccessesFirst st.results)
    (linked : st.Linked) (stepped : st.step event = some next) : SuccessesFirst next.results := by
  cases event with
  | extract =>
      rw [extractStep_results stepped]
      exact first
  | wakeCommand =>
      cases stepped
      exact first
  | wakeExtract =>
      cases stepped
      exact first
  | command =>
      obtain ⟨offset, device, commands, chunks, writer, readyToWrite, command, results, rest, extract⟩ := st
      unfold NewDataState.step NewDataState.commandStep at stepped
      cases command with
      | ready =>
          cases commands with
          | nil =>
              cases stepped
              exact first
          | cons blocks commands =>
              cases stepped
              unfold NewDataState.checkWriter NewDataState.broadcast
              dsimp only
              split
              · exact first
              · exact first
      | waiting blocks signalled =>
          cases signalled with
          | false => cases stepped
          | true =>
              cases stepped
              unfold NewDataState.checkWriter
              cases writer with
              | none =>
                  apply SuccessesFirst.append first
                  intro _ earlier member
                  by_contra bad
                  have failed := linked.failed earlier member (by simpa using bad)
                  exact absurd rfl (failed.2 blocks true)
              | some pending =>
                  dsimp only
                  split
                  · exact first
                  · exact first
      | failing blocks =>
          cases stepped
          exact SuccessesFirst.append first nofun
      | joined => cases stepped

/-- Before the first command, with all of `new.dat` to come in chunks. -/
def start (offset : Nat) (device : BlockDevice) (commands : List BlockSet) (chunks : List Bytes) :
    NewDataState :=
  { offset, device, commands, chunks }

/-- The commands so far got consecutive slices of `new.dat`, each that succeeded all its
bytes; what they did not get is still to come, and the device holds what they got. The
commands that succeeded come first, and the threads do not wait for each other. -/
structure NewDataDelivered (newDat : Bytes) (content : Nat → UInt8) (st : NewDataState) : Prop where
  slices : ∃ slices started, List.Forall₂ Served st.results slices ∧
    newDat = slices.flatten ++ (started ++ (st.rest ++ st.chunks.flatten)) ∧
    started.length ≤ BlockSet.blocksSize st.command.current ∧
    st.device.content = putBytes (putSlices st.offset content st.results slices)
      (BlockSet.places st.offset st.command.current) started
  successes : SuccessesFirst st.results
  apart : ∀ blocks, ¬ (st.command = .waiting blocks false ∧ st.extract = .waiting false)

/-- A run in which the pending writer has room at every step. -/
inductive RunsWithRoom : NewDataState → List Event → NewDataState → Prop where
  | done {st : NewDataState} : RunsWithRoom st [] st
  | step {st mid next : NewDataState} {event : Event} {events : List Event} :
      st.HasRoom → st.step event = some mid → RunsWithRoom mid events next →
      RunsWithRoom st (event :: events) next

/-- Run lemma: any interleaving from a state in which all is linked. -/
theorem RunsWithRoom.invariant {events : List Event} (runs : RunsWithRoom st events next)
    (linked : st.Linked) (progress : ∃ slices started, Progress newDat content slices started st)
    (first : SuccessesFirst st.results) :
    next.Linked ∧ (∃ slices started, Progress newDat content slices started next) ∧
      SuccessesFirst next.results := by
  induction runs with
  | done => exact ⟨linked, progress, first⟩
  | step room stepped _ ih =>
      obtain ⟨slices, started, progress⟩ := progress
      exact ih (linked.step stepped) (progress.step linked room stepped) (first.step linked stepped)

/-- Every state of a run in which the writers have room whenever bytes are to be written. -/
theorem newData_delivered {offset : Nat} {device : BlockDevice} {commands : List BlockSet}
    {chunks : List Bytes} {events : List Event}
    (runs : RunsWithRoom (start offset device commands chunks) events next) :
    NewDataDelivered chunks.flatten device.content next := by
  have begins : Progress chunks.flatten device.content [] [] (start offset device commands chunks) := by
    refine ⟨.nil, rfl, ?_, Nat.zero_le _, nofun, fun _ => BlockSet.blocksSize_nil.symm, fun _ => rfl⟩
    rw [putBytes_nil]
    rfl
  have linked : (start offset device commands chunks).Linked := ⟨rfl, trivial, nofun, nofun⟩
  obtain ⟨linked, ⟨slices, started, progress⟩, first⟩ :=
    runs.invariant linked ⟨[], [], begins⟩ List.Pairwise.nil
  exact ⟨⟨slices, started, progress.served, progress.bytes, progress.size, progress.content⟩, first,
    fun _ => linked.not_both_waiting⟩

/-- One block to write, and the first two bytes of it. -/
theorem newData_delivered_two :
    ∃ next, RunsWithRoom (start 0 ⟨fun _ => 0, 0⟩ [[(0, 1)]] [[7, 8]])
        [.command, .extract, .extract, .extract] next ∧
      NewDataDelivered [7, 8] (fun _ => 0) next := by
  have room : ∀ writer ∈ (some ⟨[(0, 1)], 0, 0, 0, 0⟩ : Option BlockWriter),
      writer.totalWritten < BlockSet.blocksSize writer.blocks := by
    intro writer member
    cases member
    decide
  obtain ⟨next, runs⟩ : ∃ next, RunsWithRoom (start 0 ⟨fun _ => 0, 0⟩ [[(0, 1)]] [[7, 8]])
      [.command, .extract, .extract, .extract] next :=
    ⟨_, .step nofun rfl (.step nofun rfl (.step nofun rfl (.step (fun _ => room) rfl .done)))⟩
  exact ⟨next, runs, newData_delivered runs⟩

/-- A command without blocks has the call drop its bytes. -/
theorem emptyCommand_drops :
    ¬ ∀ (offset : Nat) (device : BlockDevice) (commands : List BlockSet) (chunks : List Bytes)
      (events : List Event) (next : NewDataState),
      (start offset device commands chunks).run events = some next →
        NewDataDelivered chunks.flatten device.content next := by
  intro always
  have delivered := always 0 ⟨fun _ => 0, 0⟩ [[], [(0, 1)]] [[7]]
    [.command, .extract, .extract, .extract] _ rfl
  obtain ⟨slices, started, served, bytes, size, -⟩ := delivered.slices
  cases served
  have nothing : started = [] := by
    apply List.length_eq_zero_iff.mp
    rw [← BlockSet.blocksSize_nil]
    exact Nat.le_antisymm size (by rw [BlockSet.blocksSize_nil]; exact Nat.zero_le _)
  rw [nothing] at bytes
  cases bytes

end NewDataState

end Updater.ApplyPatch
