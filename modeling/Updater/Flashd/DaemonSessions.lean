import Updater.Base.Interleaving
import Updater.Flashd.DaemonUpdater

/-! When the commands of flashd exclude each other and end once, over all packets that the host can
send to the tasks of an unlocked device. -/

set_option autoImplicit false

namespace Updater.Flashd

open Updater.Base

/-- A packet for a task, with what the calls that it causes meet. -/
structure Event where
  task : Nat
  startAddr : Nat
  packet : Packet
  outcome : Outcome

/-- The name of the command that a packet asks for. -/
def Packet.asks : Packet → Option Bytes
  | check payloadSize functionName _ _ =>
      if payloadSize < 8 then none else some (cString functionName)
  | data _ _ _ => none
  | erase _ => some (ascii "erase")
  | format _ => some (ascii "format")
  | other _ => none

/-- The message is a finish for the command. -/
def Message.finishes (command : Nat) : Message → Bool
  | finish _ other _ _ => other = command
  | _ => false

/-- Whether a call of `DoCommand` notified an end. -/
def Ends (notification : Option Notification) : Bool :=
  notification.any Notification.final

namespace Daemon

def step (event : Event) (daemon : Daemon) : Daemon :=
  daemon.commandDispatch false event.startAddr event.task event.packet event.outcome

/-- The task holds a commander that was accepted and has not told its end. -/
def Active (daemon : Daemon) (task : Nat) : Prop :=
  ∃ held, daemon.commander task = some held ∧ held.command ∉ daemon.ended

/-- The number of finishes sent for a command. -/
def finishes (daemon : Daemon) (command : Nat) : Nat :=
  daemon.sent.countP (Message.finishes command)

/-- The flag stands for the only commander that still runs, and a command has a finish as soon as
its commander has told an end, and one only. -/
structure Exclusive (daemon : Daemon) : Prop where
  running : daemon.isRunning = true ↔ ∃ task, daemon.Active task
  unique : ∀ first second, daemon.Active first → daemon.Active second → first = second
  finished : ∀ command, daemon.finishes command = if command ∈ daemon.ended then 1 else 0

/-- The packet asks for a command that is not accepted. -/
def Rejects (daemon : Daemon) (packet : Packet) : Prop :=
  ∃ name, packet.asks = some name ∧ (daemon.isRunning = true ∨ commanders name = none)

/-- What a packet must leave. -/
structure Orderly (event : Event) (daemon : Daemon) : Prop where
  exclusive : Exclusive (daemon.step event)
  rejected : daemon.Rejects event.packet → (daemon.step event).isRunning = daemon.isRunning ∧
    ∀ task, daemon.Active task → (daemon.step event).commander task = daemon.commander task
  accepted : ∀ name, event.packet.asks = some name → commanders name ≠ none →
    (¬∃ task, daemon.Active task) → (daemon.step event).accepted = daemon.accepted + 1

/-- What the commander that a task holds notifies when it gets a data packet. -/
def answer (daemon : Daemon) (event : Event) : Option Notification :=
  match event.packet, daemon.commander event.task with
  | .data payloadSize uncompressSize payload, some held =>
      (dataPayload payloadSize uncompressSize payload).bind fun payload =>
        (held.commander.doPayload event.startAddr daemon.preProcess payload event.outcome).2.2
  | _, _ => none

/-- No command is asked for at the task with the running commander, and none of an unknown name
while nothing runs; and no commander that has ended tells another end while one is running. -/
structure Unharmful (event : Event) (daemon : Daemon) : Prop where
  elsewhere : ∀ name, event.packet.asks = some name → daemon.isRunning = true →
    ¬daemon.Active event.task
  known : ∀ name, event.packet.asks = some name → daemon.isRunning = false → commanders name ≠ none
  late : ∀ held notification, daemon.commander event.task = some held →
    held.command ∈ daemon.ended → daemon.isRunning = true →
    daemon.answer event = some notification → notification.final = false

section Notify

variable (daemon : Daemon) (task command : Nat) (type : CmdType) (commander : Commander)
  (notification : Option Notification)

/-- A call of `DoCommand` changes nothing but the flag, the ends told and the messages. -/
theorem notify_eq :
    daemon.notify task command type notification = { daemon with
      isRunning := daemon.isRunning && !Ends notification
      ended := daemon.ended ++ if Ends notification then [command] else []
      sent := (daemon.notify task command type notification).sent } := by
  obtain ⟨isRunning, preProcess, commander, accepted, ended, sent⟩ := daemon
  cases notification with
  | none => simp [notify, Ends]
  | some notification =>
      cases isRunning with
      | false => cases notification <;> simp [notify, sendToHost, Ends, Notification.final]
      | true => cases notification <;> simp [notify, sendToHost, Ends, Notification.final]

/-- An end is sent to the host while the flag is set. -/
theorem finishes_notify (other : Nat) :
    (daemon.notify task command type notification).finishes other =
      daemon.finishes other +
        if daemon.isRunning = true ∧ Ends notification = true ∧ command = other then 1 else 0 := by
  cases notification with
  | none => simp [notify, Ends]
  | some notification =>
      cases running : daemon.isRunning with
      | false => cases notification <;> simp [notify, sendToHost, running, Notification.final, finishes]
      | true =>
          cases notification <;>
            simp [notify, sendToHost, running, Notification.final, finishes, Ends,
              List.countP_cons, Message.finishes]

@[simp] theorem isRunning_commanded :
    (daemon.commanded task command commander notification).isRunning =
      (daemon.isRunning && !Ends notification) := by
  rw [commanded, notify_eq]

@[simp] theorem ended_commanded :
    (daemon.commanded task command commander notification).ended =
      daemon.ended ++ if Ends notification then [command] else [] := by
  rw [commanded, notify_eq]

@[simp] theorem commander_commanded :
    (daemon.commanded task command commander notification).commander =
      Function.update daemon.commander task (some ⟨command, commander⟩) := by
  rw [commanded, notify_eq]

@[simp] theorem accepted_commanded :
    (daemon.commanded task command commander notification).accepted = daemon.accepted := by
  rw [commanded, notify_eq]

theorem finishes_commanded (other : Nat) :
    (daemon.commanded task command commander notification).finishes other =
      daemon.finishes other +
        if daemon.isRunning = true ∧ Ends notification = true ∧ command = other then 1 else 0 :=
  finishes_notify _ task command _ notification other

theorem commanded_update (held : Option Held) :
    { daemon with commander := Function.update daemon.commander task held }.commanded task command
      commander notification = daemon.commanded task command commander notification := by
  rw [commanded, commanded, Function.update_idem]

end Notify

section Steps

variable {daemon : Daemon} {event : Event}

def sending (daemon : Daemon) (messages : List Message) : Daemon :=
  { daemon with sent := daemon.sent ++ messages }

/-- Every way in which a packet changes the tasks. -/
inductive Moved (daemon : Daemon) (event : Event) : Daemon → Prop where
  | ignored : event.packet.asks = none → daemon.answer event = none → Moved daemon event daemon
  | busy {name : Bytes} : event.packet.asks = some name → daemon.isRunning = true →
      Moved daemon event
        { daemon with commander := Function.update daemon.commander event.task none }
  | unknown {name : Bytes} : event.packet.asks = some name → daemon.isRunning = false →
      commanders name = none →
      Moved daemon event { daemon with
        isRunning := true
        commander := Function.update daemon.commander event.task none }
  | accepted {name : Bytes} {commander : Commander} {preProcess : Nat}
      {notification : Option Notification} {begun : List Message} :
      event.packet.asks = some name → daemon.isRunning = false → commanders name ≠ none →
      (∀ command, begun.countP (Message.finishes command) = 0) →
      Moved daemon event ((Daemon.commanded { daemon with
        isRunning := true
        preProcess := preProcess
        accepted := daemon.accepted + 1 } event.task daemon.accepted commander
          notification).sending begun)
  | answered {held : Held} {commander : Commander} {preProcess : Nat} :
      event.packet.asks = none → daemon.commander event.task = some held →
      Moved daemon event (Daemon.commanded { daemon with preProcess := preProcess } event.task
        held.command commander (daemon.answer event))

theorem sending_nil : daemon.sending [] = daemon := by
  rw [sending, List.append_nil]

theorem createCommander_busy {task : Nat} {cmd : Bytes} (running : daemon.isRunning = true) :
    daemon.createCommander task cmd =
      ({ daemon with commander := Function.update daemon.commander task none }, none) :=
  if_pos running

theorem createCommander_unknown {task : Nat} {cmd : Bytes} (idle : daemon.isRunning = false)
    (unknown : commanders cmd = none) :
    daemon.createCommander task cmd = ({ daemon with
      isRunning := true
      commander := Function.update daemon.commander task none }, none) := by
  rw [createCommander, if_neg (Bool.eq_false_iff.mp idle), unknown]

theorem createCommander_known {task : Nat} {cmd : Bytes} {kind : CmdType}
    (idle : daemon.isRunning = false) (known : commanders cmd = some kind) :
    daemon.createCommander task cmd = ({ daemon with
      isRunning := true
      commander := Function.update daemon.commander task (some ⟨daemon.accepted, kind.create⟩)
      accepted := daemon.accepted + 1 }, some kind) := by
  rw [createCommander, if_neg (Bool.eq_false_iff.mp idle), known]

theorem payloadCommand_moved {name payload : Bytes} (asked : event.packet.asks = some name) :
    daemon.Moved event
      (daemon.payloadCommand event.startAddr event.task name payload event.outcome) := by
  rw [payloadCommand]
  cases running : daemon.isRunning with
  | true =>
      rw [createCommander_busy running]
      exact .busy asked running
  | false =>
      cases known : commanders name with
      | none =>
          rw [createCommander_unknown running known]
          exact .unknown asked running known
      | some kind =>
          have found : commanders name ≠ none := known ▸ Option.some_ne_none kind
          have moved := @Moved.accepted daemon event name
            (kind.create.doPayload event.startAddr daemon.preProcess payload event.outcome).1
            (kind.create.doPayload event.startAddr daemon.preProcess payload event.outcome).2.1
            (kind.create.doPayload event.startAddr daemon.preProcess payload event.outcome).2.2 []
            asked running found fun _ => rfl
          rw [sending_nil, ← commanded_update _ _ _ _ _ (some ⟨daemon.accepted, kind.create⟩)]
            at moved
          rw [createCommander_known running known]
          exact moved

theorem checkCommand_moved {payloadSize : Int} {functionName options : Bytes} {fileSize : Nat}
    (checked : event.packet = .check payloadSize functionName options fileSize) :
    daemon.Moved event (daemon.checkCommand event.task payloadSize functionName options fileSize
      event.outcome) := by
  rw [checkCommand]
  by_cases short : payloadSize < 8
  · rw [if_pos short]
    refine .ignored ?_ ?_
    · rw [checked]
      exact if_pos short
    · rw [answer, checked]
  · have asked : event.packet.asks = some (cString functionName) := by
      rw [checked]
      exact if_neg short
    rw [if_neg short]
    cases running : daemon.isRunning with
    | true =>
        rw [createCommander_busy running]
        exact .busy asked running
    | false =>
        cases known : commanders (cString functionName) with
        | none =>
            rw [createCommander_unknown running known]
            exact .unknown asked running known
        | some kind =>
            have found : commanders (cString functionName) ≠ none :=
              known ▸ Option.some_ne_none kind
            have moved := @Moved.accepted daemon event (cString functionName)
              (kind.doOptions options fileSize event.outcome).1 daemon.preProcess
              (kind.doOptions options fileSize event.outcome).2 [.begin_ event.task]
              asked running found fun _ => rfl
            rw [← commanded_update _ _ _ _ _ (some ⟨daemon.accepted, kind.create⟩)] at moved
            rw [createCommander_known running known]
            exact moved

theorem dataCommand_moved {payloadSize : Int} {uncompressSize : UInt32} {payload : Bytes}
    (data : event.packet = .data payloadSize uncompressSize payload) :
    daemon.Moved event (daemon.dataCommand event.startAddr event.task payloadSize uncompressSize
      payload event.outcome) := by
  have unasked : event.packet.asks = none := by
    rw [data]
    rfl
  rw [dataCommand]
  cases held : daemon.commander event.task with
  | none => exact .ignored unasked (by rw [answer, data, held])
  | some holder =>
      have answered : daemon.answer event =
          (dataPayload payloadSize uncompressSize payload).bind fun payload =>
            (holder.commander.doPayload event.startAddr daemon.preProcess payload
              event.outcome).2.2 := by
        rw [answer, data, held]
      cases handed : dataPayload payloadSize uncompressSize payload with
      | none => exact .ignored unasked (by rw [answered, handed, Option.bind_none])
      | some bytes =>
          have moved := @Moved.answered daemon event holder
            (holder.commander.doPayload event.startAddr daemon.preProcess bytes event.outcome).1
            (holder.commander.doPayload event.startAddr daemon.preProcess bytes event.outcome).2.1
            unasked held
          rw [answered, handed] at moved
          exact moved

theorem step_moved (daemon : Daemon) (event : Event) : daemon.Moved event (daemon.step event) := by
  rw [step, commandDispatch.eq_def, if_neg Bool.false_ne_true]
  cases packet : event.packet with
  | check payloadSize functionName options fileSize => exact checkCommand_moved packet
  | data payloadSize uncompressSize payload => exact dataCommand_moved packet
  | erase payload => exact payloadCommand_moved (by rw [packet]; rfl)
  | format payload => exact payloadCommand_moved (by rw [packet]; rfl)
  | other command => exact .ignored (by rw [packet]; rfl) (by rw [answer, packet])

end Steps

section Exclusion

variable {daemon after : Daemon} {event : Event}

/-- Every number in the state is one of an accepted command. -/
structure Numbered (daemon : Daemon) : Prop where
  held : ∀ task held, daemon.commander task = some held → held.command < daemon.accepted
  ended : ∀ command ∈ daemon.ended, command < daemon.accepted

theorem Numbered.update {task : Nat} (numbered : Numbered daemon)
    {commander : Option Held} {accepted : Nat} (more : daemon.accepted ≤ accepted)
    (new : ∀ held, commander = some held → held.command < accepted) (other : Nat) (held : Held)
    (found : Function.update daemon.commander task commander other = some held) :
    held.command < accepted := by
  by_cases same : other = task
  · rw [same, Function.update_self] at found
    exact new held found
  · rw [Function.update_of_ne same] at found
    exact Nat.lt_of_lt_of_le (numbered.held other held found) more

theorem Moved.numbered (numbered : Numbered daemon) (moved : daemon.Moved event after) :
    Numbered after := by
  cases moved with
  | ignored _ _ => exact numbered
  | busy _ _ => exact ⟨numbered.update (Nat.le_refl _) (by simp), numbered.ended⟩
  | unknown _ _ _ => exact ⟨numbered.update (Nat.le_refl _) (by simp), numbered.ended⟩
  | @accepted name commander preProcess notification begun _ _ _ _ =>
      constructor
      · intro task held found
        rw [sending, commander_commanded] at found
        rw [sending, accepted_commanded]
        refine numbered.update (Nat.le_succ _) ?_ task held found
        intro held same
        cases same
        exact Nat.lt_succ_self _
      · intro command told
        rw [sending, ended_commanded] at told
        rw [sending, accepted_commanded]
        rcases List.mem_append.mp told with earlier | now
        · exact Nat.lt_succ_of_lt (numbered.ended command earlier)
        · have new : command = daemon.accepted := by
            cases ends : Ends notification with
            | false => simp [ends] at now
            | true => simpa [ends] using now
          exact new ▸ Nat.lt_succ_self _
  | @answered held commander preProcess _ found =>
      have known := numbered.held event.task held found
      constructor
      · intro task held' found'
        rw [commander_commanded] at found'
        rw [accepted_commanded]
        refine numbered.update (Nat.le_refl _) ?_ task held' found'
        intro held' same
        cases same
        exact known
      · intro command told
        rw [ended_commanded] at told
        rw [accepted_commanded]
        rcases List.mem_append.mp told with earlier | now
        · exact numbered.ended command earlier
        · have same : command = held.command := by
            cases ends : Ends (daemon.answer event) with
            | false => simp [ends] at now
            | true => simpa [ends] using now
          exact same ▸ known

/-- The running commander can only be that of a task. -/
theorem exclusive_of_single {task : Nat}
    (active : ∀ other, after.Active other ↔ other = task ∧ after.isRunning = true)
    (finished : ∀ command, after.finishes command = if command ∈ after.ended then 1 else 0) :
    Exclusive after := by
  refine ⟨⟨fun running => ⟨task, (active task).mpr ⟨rfl, running⟩⟩, ?_⟩, ?_, finished⟩
  · rintro ⟨other, found⟩
    exact ((active other).mp found).2
  · intro first second first_active second_active
    exact ((active first).mp first_active).1.trans ((active second).mp second_active).1.symm

/-- The same commander runs as before. -/
theorem Exclusive.same (exclusive : Exclusive daemon) (running : after.isRunning = daemon.isRunning)
    (active : ∀ task, after.Active task ↔ daemon.Active task)
    (told : ∀ command, command ∈ after.ended ↔ command ∈ daemon.ended)
    (finishes : ∀ command, after.finishes command = daemon.finishes command) : Exclusive after := by
  refine ⟨?_, ?_, ?_⟩
  · rw [running, exclusive.running]
    exact exists_congr fun task => (active task).symm
  · intro first second first_active second_active
    exact exclusive.unique first second ((active first).mp first_active)
      ((active second).mp second_active)
  · intro command
    rw [finishes, exclusive.finished]
    exact if_congr (told command).symm rfl rfl

theorem active_update_none {task other : Nat} :
    Active { daemon with commander := Function.update daemon.commander task none } other ↔
      other ≠ task ∧ daemon.Active other := by
  by_cases same : other = task
  · subst same
    simp [Active]
  · simp [Active, same]

/-- Who runs behind a call of `DoCommand` of the commander with the number. -/
theorem active_commanded {task command : Nat} {commander : Commander}
    {notification : Option Notification} {other : Nat} :
    (daemon.commanded task command commander notification).Active other ↔
      (other = task ∧ command ∉ daemon.ended ∧ Ends notification = false) ∨
        (other ≠ task ∧ ∃ held, daemon.commander other = some held ∧ held.command ∉ daemon.ended ∧
          (Ends notification = true → held.command ≠ command)) := by
  rw [Active, commander_commanded, ended_commanded]
  by_cases same : other = task
  · cases ends : Ends notification with
    | false => simp [same]
    | true => simp [same]
  · cases ends : Ends notification with
    | false => simp [same]
    | true => simp [same]

/-- A packet that meets the condition leaves the tasks in order. -/
theorem Moved.orderly (exclusive : Exclusive daemon) (numbered : Numbered daemon)
    (unharmful : Unharmful event daemon) (moved : daemon.Moved event after) :
    Exclusive after ∧
      (daemon.Rejects event.packet → after.isRunning = daemon.isRunning ∧
        ∀ task, daemon.Active task → after.commander task = daemon.commander task) ∧
      ∀ name, event.packet.asks = some name → commanders name ≠ none →
        (¬∃ task, daemon.Active task) → after.accepted = daemon.accepted + 1 := by
  cases moved with
  | ignored unasked _ =>
      refine ⟨exclusive, fun _ => ⟨rfl, fun _ _ => rfl⟩, ?_⟩
      intro name asked
      rw [unasked] at asked
      cases asked
  | @busy name asked running =>
      have elsewhere := unharmful.elsewhere name asked running
      have active : ∀ other, Active { daemon with
          commander := Function.update daemon.commander event.task none } other ↔
          daemon.Active other := by
        intro other
        rw [active_update_none]
        constructor
        · exact fun found => found.2
        · intro found
          refine ⟨?_, found⟩
          rintro rfl
          exact elsewhere found
      refine ⟨exclusive.same rfl active (fun _ => Iff.rfl) fun _ => rfl, fun _ => ⟨rfl, ?_⟩, ?_⟩
      · intro task found
        exact Function.update_of_ne ((active_update_none.mp ((active task).mpr found)).1) _ _
      · intro _ _ _ nothing
        exact absurd (exclusive.running.mp running) nothing
  | @unknown name asked idle unknown => exact absurd unknown (unharmful.known name asked idle)
  | @accepted name commander preProcess notification begun asked idle known silent =>
      have nothing : ∀ task, ¬daemon.Active task := by
        intro task found
        have running := exclusive.running.mpr ⟨task, found⟩
        rw [idle] at running
        cases running
      have fresh : daemon.accepted ∉ daemon.ended :=
        fun told => Nat.lt_irrefl _ (numbered.ended _ told)
      refine ⟨@exclusive_of_single _ event.task ?_ ?_, ?_, fun _ _ _ _ => ?_⟩
      · intro other
        rw [sending, isRunning_commanded]
        refine active_commanded.trans ?_
        have others : ¬∃ held, daemon.commander other = some held ∧ held.command ∉ daemon.ended :=
          nothing other
        constructor
        · rintro (⟨same, _, going⟩ | ⟨_, held, found, untold, _⟩)
          · exact ⟨same, by simp [going]⟩
          · exact absurd ⟨held, found, untold⟩ others
        · rintro ⟨same, going⟩
          exact .inl ⟨same, fresh, by simpa using going⟩
      · intro command
        have counted : Daemon.finishes ((Daemon.commanded { daemon with
            isRunning := true
            preProcess := preProcess
            accepted := daemon.accepted + 1 } event.task daemon.accepted commander
              notification).sending begun) command =
            daemon.finishes command +
              if Ends notification = true ∧ daemon.accepted = command then 1 else 0 := by
          rw [finishes, sending, List.countP_append, silent, Nat.add_zero]
          refine (finishes_commanded _ _ _ _ _ _).trans ?_
          simp [finishes]
        rw [counted, exclusive.finished, sending, ended_commanded]
        cases ends : Ends notification with
        | false => simp
        | true =>
            by_cases same : daemon.accepted = command
            · subst same
              simp [fresh]
            · simp [same, Ne.symm same]
      · rintro ⟨other, asked', running | unknown⟩
        · rw [idle] at running
          cases running
        · rw [asked] at asked'
          cases asked'
          exact absurd unknown known
      · rw [sending, accepted_commanded]
  | @answered held commander preProcess unasked found =>
      refine ⟨?_, ?_, ?_⟩
      · by_cases told : held.command ∈ daemon.ended
        · have quiet : daemon.isRunning = true → Ends (daemon.answer event) = false := by
            intro running
            cases answer : daemon.answer event with
            | none => rfl
            | some notification =>
                exact unharmful.late held notification found told running answer
          refine exclusive.same ?_ ?_ ?_ ?_
          · rw [isRunning_commanded]
            cases running : daemon.isRunning with
            | false => simp
            | true => simp [quiet running]
          · intro other
            refine active_commanded.trans ?_
            by_cases same : other = event.task
            · subst same
              simp [Active, found, told]
            · constructor
              · rintro (⟨same', _⟩ | ⟨_, held', found', untold, _⟩)
                · exact absurd same' same
                · exact ⟨held', found', untold⟩
              · rintro ⟨held', found', untold⟩
                refine .inr ⟨same, held', found', untold, fun _ clash => untold ?_⟩
                exact clash ▸ told
          · intro command
            rw [ended_commanded]
            cases Ends (daemon.answer event) with
            | false => simp
            | true =>
                simp only [if_true, List.mem_append, List.mem_singleton, or_iff_left_iff_imp]
                rintro rfl
                exact told
          · intro command
            rw [finishes_commanded]
            cases running : daemon.isRunning with
            | false => simp [finishes]
            | true => simp [finishes, quiet running]
        · have active : daemon.Active event.task := ⟨held, found, told⟩
          have running := exclusive.running.mpr ⟨event.task, active⟩
          refine @exclusive_of_single _ event.task ?_ ?_
          · intro other
            rw [isRunning_commanded]
            refine active_commanded.trans ?_
            constructor
            · rintro (⟨same, _, going⟩ | ⟨differ, held', found', untold, _⟩)
              · exact ⟨same, by simp [going, running]⟩
              · exact absurd (exclusive.unique other event.task ⟨held', found', untold⟩ active) differ
            · rintro ⟨same, going⟩
              exact .inl ⟨same, told, by simpa [running] using going⟩
          · intro command
            rw [finishes_commanded, ended_commanded]
            have before := exclusive.finished command
            simp only [finishes] at before ⊢
            rw [before, running]
            cases ends : Ends (daemon.answer event) with
            | false => simp
            | true =>
                by_cases same : held.command = command
                · subst same
                  simp [told]
                · simp [same, Ne.symm same]
      · rintro ⟨name, asked, _⟩
        rw [unasked] at asked
        cases asked
      · intro name asked
        rw [unasked] at asked
        cases asked

theorem answer_of_asks {name : Bytes} (asked : event.packet.asks = some name) :
    daemon.answer event = none := by
  rw [answer]
  cases packet : event.packet with
  | data payloadSize uncompressSize payload =>
      rw [packet] at asked
      cases asked
  | check payloadSize functionName options fileSize => rfl
  | erase payload => rfl
  | format payload => rfl
  | other command => rfl

/-- A packet that does not meet the condition does harm. -/
theorem Moved.harms (exclusive : Exclusive daemon) (moved : daemon.Moved event (daemon.step event))
    (orderly : Orderly event daemon) : Unharmful event daemon := by
  have left := orderly.rejected
  have single := orderly.exclusive
  generalize daemon.step event = after at moved left single
  cases moved with
  | ignored unasked silent =>
      refine ⟨?_, ?_, ?_⟩
      · intro name asked
        rw [unasked] at asked
        cases asked
      · intro name asked
        rw [unasked] at asked
        cases asked
      · intro held notification _ _ _ answered
        rw [silent] at answered
        cases answered
  | @busy name asked running =>
      refine ⟨?_, ?_, ?_⟩
      · rintro _ _ _ ⟨held, found, untold⟩
        have kept := (left ⟨name, asked, .inl running⟩).2 event.task ⟨held, found, untold⟩
        simp [found] at kept
      · intro _ _ idle
        rw [running] at idle
        cases idle
      · intro held notification _ _ _ answered
        rw [answer_of_asks asked] at answered
        cases answered
  | @unknown name asked idle unknown =>
      have kept := (left ⟨name, asked, .inr unknown⟩).1
      rw [idle] at kept
      cases kept
  | @accepted name commander preProcess notification begun asked idle known silent =>
      refine ⟨?_, ?_, ?_⟩
      · intro _ _ running
        rw [idle] at running
        cases running
      · intro other asked' _
        rw [asked] at asked'
        cases asked'
        exact known
      · intro _ _ _ _ running
        rw [idle] at running
        cases running
  | @answered held commander preProcess unasked found =>
      refine ⟨?_, ?_, ?_⟩
      · intro name asked
        rw [unasked] at asked
        cases asked
      · intro name asked
        rw [unasked] at asked
        cases asked
      · intro held' notification found' told running answered
        rw [found] at found'
        cases found'
        have finished := single.finished held.command
        rw [finishes_commanded, ended_commanded] at finished
        have before := exclusive.finished held.command
        simp only [finishes, told, if_true] at before finished
        rw [before] at finished
        cases final : notification.final with
        | false => rfl
        | true =>
            have ends : Ends (daemon.answer event) = true := by
              rw [answered]
              exact final
            simp [running, ends] at finished

end Exclusion

theorem exclusive_initial : Exclusive initial := by
  refine ⟨?_, ?_, fun _ => rfl⟩
  · constructor
    · intro running
      cases running
    · rintro ⟨_, _, found, _⟩
      cases found
  · rintro _ _ ⟨_, found, _⟩
    cases found

theorem numbered_initial : Numbered initial :=
  ⟨fun _ _ found => (nomatch found), fun _ told => (nomatch told)⟩

/-- Over every sequence of packets to the tasks of an unlocked device and every outcome of the
operations, the commands exclude each other and end once exactly when every packet of it meets the
condition. -/
theorem sessions_orderly_iff (events : List Event) :
    Along step Orderly initial events ↔ Along step Unharmful initial events := by
  have agree : ∀ event daemon, Exclusive daemon ∧ Numbered daemon →
      (Orderly event daemon ↔ Unharmful event daemon) := by
    rintro event daemon ⟨exclusive, numbered⟩
    constructor
    · exact (step_moved daemon event).harms exclusive
    · intro unharmful
      obtain ⟨single, rejected, accepted⟩ :=
        (step_moved daemon event).orderly exclusive numbered unharmful
      exact ⟨single, rejected, accepted⟩
  exact along_iff agree
    (fun event daemon kept orderly => ⟨orderly.exclusive, (step_moved daemon event).numbered kept.2⟩)
    events ⟨exclusive_initial, numbered_initial⟩

/-- A check with an unknown name. -/
def unknownCheck : Event where
  task := 0
  startAddr := 0
  packet := .check 9 (ascii "x") [] 0
  outcome := {
    mountForPath := true
    openFile := true
    initPartition := true
    getDataWriter := true
    writeStops := none
    writeFully := true
    doErase := true
    doFormat := true }

/-- A check with an unknown name leaves the flag set, with nothing running. -/
theorem unknownCheck_runs : ¬Along step Orderly initial [unknownCheck] := by
  rintro ⟨orderly, _⟩
  have rejected := (orderly.rejected ⟨ascii "x", by decide, .inr (by decide)⟩).1
  revert rejected
  decide

end Daemon

end Updater.Flashd
