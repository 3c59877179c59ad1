import Updater.Base.Memory
import Updater.Base.Interleaving
import Updater.Flashd.Commander

/-! What a session of the flash command leaves in the partition, over all payloads and all failing
writes. -/

set_option autoImplicit false

namespace Updater.Flashd

open Updater.Base

/-- A call of `DoCommand` with a payload. -/
structure Call where
  payload : Bytes
  outcome : Outcome

/-- A session: the commander, the partition, the payloads received so far, and whether a failure
has been notified. -/
structure Session where
  commander : FlashCommander
  preProcess : Nat
  device : Memory
  received : Bytes
  failed : Bool

namespace Session

/-- The session behind `DoCommand` with its options. -/
def start (options : Bytes) (fileSize : Nat) (outcome : Outcome) (preProcess : Nat)
    (device : Memory) : Session where
  commander := (FlashCommander.doOptions options fileSize outcome).1
  preProcess := preProcess
  device := device
  received := []
  failed := (FlashCommander.doOptions options fileSize outcome).2 = some .fail

variable (startAddr fileSize : Nat) (device : Memory) (session : Session) (call : Call)

def reply : FlashCommander × Nat × (Nat × Bytes) × Option Notification :=
  session.commander.doPayload startAddr session.preProcess call.payload call.outcome

/-- What is written in a call, and where. -/
def writes : Nat × Bytes :=
  (session.reply startAddr call).2.2.1

def notified : Option Notification :=
  (session.reply startAddr call).2.2.2

/-- The partition when so many bytes of a call are written. -/
def moment (count : Nat) : Memory :=
  session.device.write (session.writes startAddr call).1
    ((session.writes startAddr call).2.take count)

def step : Session where
  commander := (session.reply startAddr call).1
  preProcess := (session.reply startAddr call).2.1
  device := session.device.write (session.writes startAddr call).1 (session.writes startAddr call).2
  received := session.received ++ call.payload
  failed := session.failed || (session.notified startAddr call = some .fail)

/-- The partition holds so many bytes of the payloads from its start, and is as before behind them. -/
def Holds (payloads : Bytes) (count : Nat) (partition : Memory) : Prop :=
  count ≤ payloads.length ∧ partition = device.write startAddr (payloads.take count)

/-- What a call must leave: at every moment a first part of the payloads, no longer than the file;
all of the file when it notifies success; and behind a failure nothing is written and no success
notified. -/
structure Faithful : Prop where
  stored : ∀ moment, ∃ count ≤ fileSize, Holds startAddr device (session.received ++ call.payload)
    count (session.moment startAddr call moment)
  success : session.notified startAddr call = some .success →
    Holds startAddr device (session.received ++ call.payload) fileSize
      (session.step startAddr call).device
  stopped : session.failed = true →
    (session.writes startAddr call).2 = [] ∧ session.notified startAddr call ≠ some .success

/-- The partition has no writer yet, and gets none. -/
def Unwritable : Prop :=
  ∀ partition, session.commander.initPartition call.outcome = some partition →
    partition.writer = none ∧ call.outcome.getDataWriter = false

/-- The payload is bad, the partition cannot be set up, or the file is not complete and the write
fails before its first byte. -/
def Idle : Prop :=
  call.payload = [] ∨ session.commander.initPartition call.outcome = none ∨
    (session.commander.currentSize < session.commander.fileSize ∧
      (session.Unwritable call ∨ call.outcome.writeStops = some 0))

/-- Behind a failure, no payload gets to the partition. -/
def Settled : Prop :=
  session.failed = true → session.Idle call

end Session

section Writers

variable {startAddr offset : Nat} {writer : FlashdWriterRaw} {data : Bytes} {outcome : Outcome}

/-- The next write of a writer goes to the offset. -/
def FlashdWriterRaw.At (startAddr offset : Nat) (writer : FlashdWriterRaw) : Prop :=
  match writer.writer with
  | some raw => raw.offset = offset
  | none => offset = startAddr

theorem FlashdWriterRaw.write_offset (placed : writer.At startAddr offset) :
    (writer.write startAddr data outcome).2.1.1 = offset := by
  rw [At] at placed
  rw [FlashdWriterRaw.write]
  cases raw : writer.writer with
  | some raw =>
      rw [raw] at placed
      exact placed
  | none =>
      rw [raw] at placed
      dsimp only
      split
      · exact placed.symm
      · exact placed.symm

theorem RawWriter.write_bytes {raw : RawWriter} :
    ∃ count, (raw.write data outcome).2.1 = data.take count := by
  rw [RawWriter.write]
  split
  · exact ⟨0, rfl⟩
  · split
    · exact ⟨data.length, data.take_length.symm⟩
    · exact ⟨_, rfl⟩

theorem FlashdWriterRaw.write_bytes :
    ∃ count, (writer.write startAddr data outcome).2.1.2 = data.take count := by
  rw [FlashdWriterRaw.write]
  split
  · exact RawWriter.write_bytes
  · split
    · exact ⟨0, rfl⟩
    · exact RawWriter.write_bytes

theorem RawWriter.write_all {raw : RawWriter} (success : (raw.write data outcome).2.2 = true) :
    (raw.write data outcome).2.1 = data ∧
      (raw.write data outcome).1.offset = raw.offset + data.length := by
  rw [RawWriter.write] at success ⊢
  split at success
  · cases success
  case _ some_ =>
    rw [if_neg some_]
    split at success
    · exact ⟨rfl, rfl⟩
    · cases success

/-- A write that succeeds writes all, and the next one goes behind it. -/
theorem FlashdWriterRaw.write_all (placed : writer.At startAddr offset)
    (success : (writer.write startAddr data outcome).2.2 = true) :
    (writer.write startAddr data outcome).2.1.2 = data ∧
      (writer.write startAddr data outcome).1.At startAddr (offset + data.length) := by
  rw [At] at placed
  rw [FlashdWriterRaw.write] at success ⊢
  cases raw : writer.writer with
  | some raw =>
      rw [raw] at placed
      simp only [raw] at success ⊢
      obtain ⟨all, next⟩ := RawWriter.write_all success
      exact ⟨all, next.trans (by rw [placed])⟩
  | none =>
      rw [raw] at placed
      simp only [raw] at success ⊢
      split at success
      · cases success
      case _ made =>
        rw [if_neg made]
        obtain ⟨all, next⟩ := RawWriter.write_all success
        exact ⟨all, next.trans (by rw [placed])⟩

/-- Nothing of some data is written only where no writer can be made or the write fails at once. -/
theorem FlashdWriterRaw.write_nothing (some_ : data ≠ []) :
    (writer.write startAddr data outcome).2.1.2 = [] ↔
      (writer.writer = none ∧ outcome.getDataWriter = false) ∨ outcome.writeStops = some 0 := by
  have raw : ∀ raw : RawWriter, (raw.write data outcome).2.1 = [] ↔ outcome.writeStops = some 0 := by
    intro raw
    rw [RawWriter.write, if_neg some_]
    cases stops : outcome.writeStops with
    | none => simp [some_]
    | some stop => simp [some_]
  rw [FlashdWriterRaw.write]
  cases made : writer.writer with
  | some _ => simp [raw]
  | none =>
      cases given : outcome.getDataWriter with
      | false => simp
      | true => simp [raw]

end Writers

namespace Session

section Replies

variable {startAddr fileSize : Nat} {device : Memory} {session : Session} {call : Call}
  {partition : FlashdWriterRaw}

/-- The part of a payload that is written when the write succeeds. -/
def chunk (session : Session) (call : Call) : Bytes :=
  call.payload.take
    (min call.payload.length (session.commander.fileSize - session.commander.currentSize))

theorem chunk_eq (session : Session) (call : Call) : session.chunk call =
    call.payload.take (session.commander.fileSize - session.commander.currentSize) := by
  rw [chunk, Nat.min_comm, ← List.take_take, List.take_length]

theorem chunk_ne_nil (some_ : call.payload ≠ [])
    (open_ : session.commander.currentSize < session.commander.fileSize) :
    session.chunk call ≠ [] := by
  refine List.ne_nil_of_length_pos ?_
  have long := List.length_pos_of_ne_nil some_
  rw [chunk_eq, List.length_take]
  omega

theorem reply_bad (bad : call.payload = []) : session.reply startAddr call =
    (session.commander, session.preProcess, (startAddr, []), some .fail) :=
  if_pos bad

theorem reply_unset (some_ : call.payload ≠ [])
    (unset : session.commander.initPartition call.outcome = none) :
    session.reply startAddr call =
      (session.commander, session.preProcess, (startAddr, []), some .fail) := by
  rw [reply, FlashCommander.doPayload, if_neg some_, FlashCommander.doFlash, unset]

theorem reply_full (some_ : call.payload ≠ [])
    (set_ : session.commander.initPartition call.outcome = some partition)
    (full : session.commander.fileSize ≤ session.commander.currentSize) :
    session.reply startAddr call =
      ({ session.commander with partition := some partition }, session.preProcess, (startAddr, []),
        some .success) := by
  have nothing : min call.payload.length
      (session.commander.fileSize - session.commander.currentSize) = 0 := by
    omega
  rw [reply, FlashCommander.doPayload, if_neg some_, FlashCommander.doFlash, set_]
  dsimp only
  rw [if_pos nothing]
  dsimp only
  rw [if_pos (show session.commander.fileSize ≤ session.commander.currentSize + 0 from full),
    Nat.add_zero]

theorem doFlash_chunk (some_ : call.payload ≠ [])
    (set_ : session.commander.initPartition call.outcome = some partition)
    (open_ : session.commander.currentSize < session.commander.fileSize) :
    session.commander.doFlash startAddr call.payload call.outcome =
      ({ session.commander with
          partition := some (partition.write startAddr (session.chunk call) call.outcome).1 },
        (partition.write startAddr (session.chunk call) call.outcome).2.1,
        if (partition.write startAddr (session.chunk call) call.outcome).2.2 then
          some (session.chunk call).length else none) := by
  have long := List.length_pos_of_ne_nil some_
  have something : min call.payload.length
      (session.commander.fileSize - session.commander.currentSize) ≠ 0 := by
    omega
  have length : (session.chunk call).length = min call.payload.length
      (session.commander.fileSize - session.commander.currentSize) := by
    rw [chunk, List.length_take]
    omega
  rw [FlashCommander.doFlash, set_]
  dsimp only
  rw [if_neg something, length]
  rfl

theorem reply_refused (some_ : call.payload ≠ [])
    (set_ : session.commander.initPartition call.outcome = some partition)
    (open_ : session.commander.currentSize < session.commander.fileSize)
    (refused : (partition.write startAddr (session.chunk call) call.outcome).2.2 = false) :
    session.reply startAddr call =
      ({ session.commander with
          partition := some (partition.write startAddr (session.chunk call) call.outcome).1 },
        session.preProcess,
        (partition.write startAddr (session.chunk call) call.outcome).2.1, some .fail) := by
  rw [reply, FlashCommander.doPayload, if_neg some_, doFlash_chunk some_ set_ open_, refused]
  rfl

/-- Behind a write that succeeds the commander counts the chunk, and notifies success when the file
is complete. -/
theorem reply_written (some_ : call.payload ≠ [])
    (set_ : session.commander.initPartition call.outcome = some partition)
    (open_ : session.commander.currentSize < session.commander.fileSize)
    (written : (partition.write startAddr (session.chunk call) call.outcome).2.2 = true) :
    ∃ preProcess notification,
      session.reply startAddr call =
        ({ session.commander with
            partition := some (partition.write startAddr (session.chunk call) call.outcome).1
            currentSize := session.commander.currentSize + (session.chunk call).length },
          preProcess, (partition.write startAddr (session.chunk call) call.outcome).2.1,
          notification) ∧
      notification ≠ some .fail ∧
      (notification = some .success →
        session.commander.fileSize ≤ session.commander.currentSize + (session.chunk call).length) := by
  rw [reply, FlashCommander.doPayload, if_neg some_, doFlash_chunk some_ set_ open_, written]
  dsimp only [if_true]
  by_cases complete : session.commander.fileSize ≤
      session.commander.currentSize + (session.chunk call).length
  · exact ⟨session.preProcess, some .success, if_pos complete, by decide, fun _ => complete⟩
  · refine ⟨_, _, if_neg complete, ?_, ?_⟩
    · rw [updateProgress]
      split
      · exact nofun
      · dsimp only
        split
        · exact nofun
        · exact nofun
    · rw [updateProgress]
      split
      · exact nofun
      · dsimp only
        split
        · exact nofun
        · exact nofun

end Replies

section Sessions

variable {startAddr fileSize : Nat} {device : Memory} {session : Session} {call : Call}
  {partition : FlashdWriterRaw}

/-- A session without a failure: the commander has counted all bytes received, up to the size of
the file; they are in the partition, and the next write goes behind them. -/
structure Going (startAddr fileSize : Nat) (device : Memory) (session : Session) : Prop where
  size : session.commander.fileSize = fileSize
  counted : session.commander.currentSize = min session.received.length fileSize
  stored : Holds startAddr device session.received session.commander.currentSize session.device
  placed : ∀ outcome partition, session.commander.initPartition outcome = some partition →
    partition.At startAddr (startAddr + session.commander.currentSize)

/-- What holds between the calls of a session. -/
structure Kept (startAddr fileSize : Nat) (device : Memory) (session : Session) : Prop where
  going : session.failed = false → session.Going startAddr fileSize device
  failed : session.failed = true →
    ∃ count ≤ fileSize, Holds startAddr device session.received count session.device

/-- More payloads do not change what the first of them are. -/
theorem Holds.more {payloads more : Bytes} {count : Nat} {stored : Memory}
    (holds : Holds startAddr device payloads count stored) :
    Holds startAddr device (payloads ++ more) count stored := by
  obtain ⟨within, same⟩ := holds
  refine ⟨?_, ?_⟩
  · rw [List.length_append]
    exact Nat.le_trans within (Nat.le_add_right _ _)
  · rw [List.take_append_of_le_length within]
    exact same

/-- The bytes of a chunk come right behind all the payloads before. -/
theorem Going.extends (going : session.Going startAddr fileSize device)
    (open_ : session.commander.currentSize < session.commander.fileSize) (count : Nat) :
    Holds startAddr device (session.received ++ call.payload)
        (session.commander.currentSize + ((session.chunk call).take count).length)
        (session.device.write (startAddr + session.commander.currentSize)
          ((session.chunk call).take count)) ∧
      session.commander.currentSize + ((session.chunk call).take count).length ≤ fileSize := by
  have size := going.size
  have counted := going.counted
  have all : session.commander.currentSize = session.received.length := by omega
  obtain ⟨_, stored⟩ := going.stored
  rw [all, List.take_length] at stored
  have part : (session.chunk call).take count =
      call.payload.take ((session.chunk call).take count).length := by
    rw [chunk_eq, List.take_take, List.length_take, ← List.take_eq_take_min]
  have short : ((session.chunk call).take count).length ≤ call.payload.length := by
    rw [chunk_eq, List.take_take, List.length_take]
    exact Nat.min_le_right _ _
  have fits : ((session.chunk call).take count).length ≤
      session.commander.fileSize - session.commander.currentSize := by
    rw [chunk_eq, List.take_take, List.length_take]
    omega
  refine ⟨⟨?_, ?_⟩, by omega⟩
  · rw [List.length_append, all]
    omega
  · rw [stored, all, Memory.write_append, List.take_length_add_append, ← part]

/-- A call is idle exactly when it writes nothing and notifies no success. -/
theorem idle_iff : session.Idle call ↔
    (session.writes startAddr call).2 = [] ∧ session.notified startAddr call ≠ some .success := by
  rw [writes, notified, Idle]
  by_cases bad : call.payload = []
  · rw [reply_bad bad]
    exact ⟨fun _ => ⟨rfl, nofun⟩, fun _ => .inl bad⟩
  · cases set_ : session.commander.initPartition call.outcome with
    | none =>
        rw [reply_unset bad set_]
        exact ⟨fun _ => ⟨rfl, nofun⟩, fun _ => .inr (.inl rfl)⟩
    | some partition =>
        by_cases open_ : session.commander.currentSize < session.commander.fileSize
        · have unwritable : session.Unwritable call ↔
              partition.writer = none ∧ call.outcome.getDataWriter = false := by
            rw [Unwritable, set_]
            simp
          have nothing := @FlashdWriterRaw.write_nothing startAddr partition _ call.outcome
            (chunk_ne_nil bad open_)
          rw [← unwritable] at nothing
          have idle : (call.payload = [] ∨ some partition = none ∨
              session.commander.currentSize < session.commander.fileSize ∧
                (session.Unwritable call ∨ call.outcome.writeStops = some 0)) ↔
              (partition.write startAddr (session.chunk call) call.outcome).2.1.2 = [] := by
            rw [nothing]
            simp [bad, open_]
          rw [idle]
          cases success : (partition.write startAddr (session.chunk call) call.outcome).2.2 with
          | false =>
              rw [reply_refused bad set_ open_ success]
              exact ⟨fun none_ => ⟨none_, nofun⟩, And.left⟩
          | true =>
              obtain ⟨_, _, replied, _, _⟩ := reply_written bad set_ open_ success
              rw [replied]
              have all : (partition.write startAddr (session.chunk call) call.outcome).2.1.2 ≠ [] := by
                have placed : partition.At startAddr
                    (match partition.writer with | some raw => raw.offset | none => startAddr) := by
                  rw [FlashdWriterRaw.At]
                  cases partition.writer with
                  | none => rfl
                  | some raw => rfl
                rw [(FlashdWriterRaw.write_all placed success).1]
                exact chunk_ne_nil bad open_
              exact ⟨fun none_ => absurd none_ all, fun none_ => absurd none_.1 all⟩
        · rw [reply_full bad set_ (Nat.le_of_not_lt open_)]
          simp [bad, open_]

/-- Before a failure, every call keeps to the payloads. -/
theorem Going.next (going : session.Going startAddr fileSize device) :
    (∀ moment, ∃ count ≤ fileSize, Holds startAddr device (session.received ++ call.payload) count
        (session.moment startAddr call moment)) ∧
      (session.notified startAddr call = some .success →
        Holds startAddr device (session.received ++ call.payload) fileSize
          (session.step startAddr call).device) ∧
      (session.notified startAddr call ≠ some .fail →
        (session.step startAddr call).Going startAddr fileSize device) := by
  have within : session.commander.currentSize ≤ fileSize := by
    have counted := going.counted
    omega
  have still : (session.writes startAddr call).2 = [] → ∀ moment, ∃ count ≤ fileSize,
      Holds startAddr device (session.received ++ call.payload) count
        (session.moment startAddr call moment) := by
    intro nothing moment
    refine ⟨session.commander.currentSize, within, ?_⟩
    rw [Session.moment, nothing, List.take_nil, Memory.write_nil]
    exact going.stored.more
  by_cases bad : call.payload = []
  · have replied := @reply_bad startAddr session call bad
    refine ⟨still (by rw [writes, replied]), ?_, ?_⟩
    · intro success
      rw [notified, replied] at success
      cases success
    · intro failed
      rw [notified, replied] at failed
      exact absurd rfl failed
  · cases set_ : session.commander.initPartition call.outcome with
    | none =>
        have replied := @reply_unset startAddr session call bad set_
        refine ⟨still (by rw [writes, replied]), ?_, ?_⟩
        · intro success
          rw [notified, replied] at success
          cases success
        · intro failed
          rw [notified, replied] at failed
          exact absurd rfl failed
    | some partition =>
        have placed := going.placed _ _ set_
        have counted := going.counted
        have size := going.size
        by_cases open_ : session.commander.currentSize < session.commander.fileSize
        · have offset := @FlashdWriterRaw.write_offset _ _ _ (session.chunk call) call.outcome placed
          obtain ⟨part, bytes⟩ := @FlashdWriterRaw.write_bytes startAddr partition
            (session.chunk call) call.outcome
          have stored : session.writes startAddr call =
                (partition.write startAddr (session.chunk call) call.outcome).2.1 →
              ∀ moment, ∃ count ≤ fileSize,
                Holds startAddr device (session.received ++ call.payload) count
                  (session.moment startAddr call moment) := by
            intro written moment
            obtain ⟨holds, fits⟩ := @Going.extends _ _ _ _ call going open_ (min moment part)
            refine ⟨_, fits, ?_⟩
            rw [Session.moment, written, offset, bytes, List.take_take]
            exact holds
          cases success : (partition.write startAddr (session.chunk call) call.outcome).2.2 with
          | false =>
              have replied := @reply_refused startAddr session call partition bad set_ open_ success
              refine ⟨stored (by rw [writes, replied]), ?_, ?_⟩
              · intro success
                rw [notified, replied] at success
                cases success
              · intro failed
                rw [notified, replied] at failed
                exact absurd rfl failed
          | true =>
              obtain ⟨preProcess, notification, replied, _, complete⟩ :=
                @reply_written startAddr session call partition bad set_ open_ success
              obtain ⟨all, behind⟩ := FlashdWriterRaw.write_all placed success
              obtain ⟨holds, fits⟩ := @Going.extends _ _ _ _ call going open_
                (session.chunk call).length
              rw [List.take_length] at holds fits
              have left : (session.step startAddr call).device =
                  session.device.write (startAddr + session.commander.currentSize)
                    (session.chunk call) := by
                rw [step, writes, replied]
                dsimp only
                rw [offset, all]
              refine ⟨stored (by rw [writes, replied]), ?_, ?_⟩
              · intro success
                rw [notified, replied] at success
                have whole : session.commander.currentSize + (session.chunk call).length =
                    fileSize := by
                  have reached := complete success
                  omega
                rw [left, ← whole]
                exact holds
              · intro _
                have commander : (session.step startAddr call).commander = { session.commander with
                    partition := some
                      (partition.write startAddr (session.chunk call) call.outcome).1
                    currentSize := session.commander.currentSize + (session.chunk call).length } := by
                  rw [step, replied]
                refine ⟨?_, ?_, ?_, ?_⟩
                · rw [commander]
                  exact size
                · rw [commander]
                  have length : (session.chunk call).length = min call.payload.length
                      (session.commander.fileSize - session.commander.currentSize) := by
                    rw [chunk, List.length_take]
                    omega
                  change session.commander.currentSize + (session.chunk call).length =
                    min (session.received ++ call.payload).length fileSize
                  rw [List.length_append]
                  omega
                · rw [commander, left]
                  exact holds
                · intro outcome next made
                  rw [commander] at made ⊢
                  cases made
                  rw [Nat.add_assoc] at behind
                  exact behind
        · have full := Nat.le_of_not_lt open_
          have replied := @reply_full startAddr session call partition bad set_ full
          have whole : session.commander.currentSize = fileSize := by omega
          have left : (session.step startAddr call).device = session.device := by
            rw [step, writes, replied]
            exact Memory.write_nil _ _
          refine ⟨still (by rw [writes, replied]), ?_, ?_⟩
          · intro _
            rw [left, ← whole]
            exact going.stored.more
          · intro _
            have commander : (session.step startAddr call).commander =
                { session.commander with partition := some partition } := by
              rw [step, replied]
            refine ⟨?_, ?_, ?_, ?_⟩
            · rw [commander]
              exact size
            · rw [commander]
              change session.commander.currentSize =
                min (session.received ++ call.payload).length fileSize
              rw [List.length_append]
              omega
            · rw [commander, left]
              exact going.stored.more
            · intro outcome next made
              rw [commander] at made ⊢
              cases made
              exact placed

theorem faithful_iff_settled (kept : session.Kept startAddr fileSize device) :
    session.Faithful startAddr fileSize device call ↔ session.Settled call := by
  constructor
  · intro faithful failed
    exact idle_iff.mpr (faithful.stopped failed)
  · intro settled
    cases failed : session.failed with
    | false =>
        obtain ⟨stored, success, _⟩ := @Going.next _ _ _ _ call (kept.going failed)
        refine ⟨stored, success, fun failed' => ?_⟩
        rw [failed] at failed'
        cases failed'
    | true =>
        obtain ⟨nothing, unsuccessful⟩ := (@idle_iff startAddr session call).mp (settled failed)
        refine ⟨fun moment => ?_, fun success => absurd success unsuccessful,
          fun _ => ⟨nothing, unsuccessful⟩⟩
        obtain ⟨count, within, holds⟩ := kept.failed failed
        refine ⟨count, within, ?_⟩
        rw [Session.moment, nothing, List.take_nil, Memory.write_nil]
        exact holds.more

/-- The moment at which all bytes of a call are written. -/
theorem step_device : ∃ moment, (session.step startAddr call).device =
    session.moment startAddr call moment := by
  refine ⟨(session.writes startAddr call).2.length, ?_⟩
  rw [Session.moment, List.take_length]
  rfl

theorem Kept.next (kept : session.Kept startAddr fileSize device)
    (faithful : session.Faithful startAddr fileSize device call) :
    (session.step startAddr call).Kept startAddr fileSize device := by
  constructor
  · intro going
    have before : session.failed = false ∧ ¬session.notified startAddr call = some .fail := by
      simpa [step] using going
    exact (kept.going before.1).next.2.2 before.2
  · intro _
    obtain ⟨moment, same⟩ := @step_device startAddr session call
    rw [same]
    exact faithful.stored moment

theorem kept_start (startAddr fileSize : Nat) (options : Bytes) (outcome : Outcome)
    (preProcess : Nat) (device : Memory) :
    (start options fileSize outcome preProcess device).Kept startAddr fileSize device := by
  have nothing : Holds startAddr device [] 0 device :=
    ⟨Nat.le_refl 0, (Memory.write_nil _ _).symm⟩
  constructor
  · intro going
    rw [start, FlashCommander.doOptions] at going ⊢
    split
    · refine ⟨rfl, (Nat.zero_min fileSize).symm, nothing, ?_⟩
      intro outcome partition set_
      rw [FlashCommander.initPartition] at set_
      dsimp only at set_
      split at set_
      · cases set_
        rfl
      · cases set_
    case _ bad =>
      exfalso
      split at going
      case _ partName second rest split_ => exact bad partName second rest split_
      · simp at going
  · intro _
    exact ⟨0, Nat.zero_le _, nothing⟩

/-- Over every sequence of payloads and every outcome of the calls, the session keeps to the image
exactly when behind a failure no payload gets to the partition any more. -/
theorem flashSession_faithful_iff (startAddr fileSize : Nat) (options : Bytes) (outcome : Outcome)
    (preProcess : Nat) (device : Memory) (calls : List Call) :
    Along (fun call session => session.step startAddr call)
        (fun call session => session.Faithful startAddr fileSize device call)
        (start options fileSize outcome preProcess device) calls ↔
      Along (fun call session => session.step startAddr call)
        (fun call session => session.Settled call)
        (start options fileSize outcome preProcess device) calls := by
  refine @along_iff Call Session _ _ (fun session => session.Kept startAddr fileSize device) _
    ?_ ?_ _ calls (kept_start startAddr fileSize options outcome preProcess device)
  · exact fun _ _ kept => faithful_iff_settled kept
  · exact fun _ _ kept faithful => kept.next faithful

/-- Nothing that a session calls fails. -/
def fine : Outcome where
  mountForPath := true
  openFile := true
  initPartition := true
  getDataWriter := true
  writeStops := none
  writeFully := true
  doErase := true
  doFormat := true

/-- The mount fails, and two bytes come for a file of two bytes. -/
def unmountedSession : Session :=
  start (ascii "system -f a.img") 2 { fine with mountForPath := false } 0 fun _ => 0

/-- A session that has notified its failed mount writes the image and notifies success. -/
theorem unmountedSession_goes_on : ¬Along (fun call session => session.step 0 call)
    (fun call session => session.Faithful 0 2 (fun _ => 0) call) unmountedSession
    [⟨[1, 2], fine⟩] := by
  rintro ⟨faithful, _⟩
  have failed : unmountedSession.failed = true := by decide
  have stopped := (faithful.stopped failed).1
  revert stopped
  decide

end Sessions

end Session

end Updater.Flashd
