import Updater.StreamUpdate.BinChunkUpdate

/-! Where the parser of a stream reads its buffer, over every sequence of chunks. -/

set_option autoImplicit false

namespace Updater.StreamUpdate

open Updater.Base Updater.Utils

/-- The reads stay in the received bytes, no difference underflows, and the bytes have room. -/
def Event.Inside : Event → Prop
  | .access made => made.Inside
  | .fill maxBufSize curlen => curlen ≤ maxBufSize
  | _ => True

instance : DecidablePred Event.Inside
  | .access made => inferInstanceAs (Decidable made.Inside)
  | .fill maxBufSize curlen => inferInstanceAs (Decidable (curlen ≤ maxBufSize))
  | .skipped _ _ | .turn _ _ _ _ | .record _ _ _ | .head _ _ => .isTrue trivial

/-- What is kept behind a skipped part fits into the buffer. Of a record, the type is there, and a
hash record has no name that the end of the buffer cuts, and no number that is too short. -/
def Event.Sound : Event → Prop
  | .skipped maxBufSize rest => rest ≤ maxBufSize
  | .record buffer curlen offset =>
      offset + 2 ≤ curlen ∧
        (leValue (buffer.read offset 2) = binUpdateHashTip → HashFits buffer curlen 2 8 offset)
  | _ => True

namespace BinChunkUpdate

variable {World : Type} {services : Services World} {st next last : BinChunkUpdate World}

/-- The received bytes fit into the buffer. -/
def Filled (st : BinChunkUpdate World) : Prop :=
  st.curlen ≤ st.maxBufSize ∧ st.maxBufSize < uint32Count

/-- The parser has not run over the received bytes. -/
def Ordered (st : BinChunkUpdate World) : Prop :=
  st.Filled ∧ st.offset ≤ st.curlen

theorem Ordered.small (ordered : st.Ordered) : st.curlen < uint32Count :=
  Nat.lt_of_le_of_lt ordered.1.1 ordered.1.2

/-- From one condition to another, what is done stays inside if and only if it is sound. -/
def Agrees (before after : BinChunkUpdate World → Prop) (st next : BinChunkUpdate World) : Prop :=
  ∃ events, next.events = st.events ++ events ∧
    (before st → ((∀ event ∈ events, event.Inside) ↔ ∀ event ∈ events, event.Sound) ∧
      ((∀ event ∈ events, event.Sound) → after next))

namespace Agrees

variable {before between after : BinChunkUpdate World → Prop}

theorem silent (same : next.events = st.events) (kept : before st → after next) :
    Agrees before after st next := by
  refine ⟨[], ?_, fun started => ⟨?_, fun _ => kept started⟩⟩
  · rw [same, List.append_nil]
  · exact iff_of_true (fun _ listed => nomatch listed) (fun _ listed => nomatch listed)

theorem refl : Agrees before before st st :=
  silent rfl id

theorem trans (first : Agrees before between st next) (second : Agrees between after next last) :
    Agrees before after st last := by
  obtain ⟨events, made, agree⟩ := first
  obtain ⟨more, made', agree'⟩ := second
  refine ⟨events ++ more, ?_, fun started => ?_⟩
  · rw [made', made, List.append_assoc]
  · obtain ⟨same, reached⟩ := agree started
    constructor
    · rw [List.forall_mem_append, List.forall_mem_append]
      constructor
      · rintro ⟨inside, inside'⟩
        have sound := same.mp inside
        exact ⟨sound, (agree' (reached sound)).1.mp inside'⟩
      · rintro ⟨sound, sound'⟩
        exact ⟨same.mpr sound, (agree' (reached sound)).1.mpr sound'⟩
    · intro sound
      rw [List.forall_mem_append] at sound
      exact (agree' (reached sound.1)).2 sound.2

theorem weaken {other : BinChunkUpdate World → Prop} (agrees : Agrees before after st next)
    (weaker : after next → other next) : Agrees before other st next := by
  obtain ⟨events, made, agree⟩ := agrees
  exact ⟨events, made, fun started => ⟨(agree started).1, fun sound => weaker ((agree started).2 sound)⟩⟩

end Agrees

/-- A reader that stays inside. -/
theorem traced_agrees {α : Type} {reader : Reader α}
    (inside : st.Ordered → reader.All Access.Inside) :
    Agrees Ordered Ordered st (st.traced reader) := by
  refine ⟨reader.events.map .access, rfl, fun ordered => ⟨iff_of_true ?_ ?_, fun _ => ordered⟩⟩
  · intro event listed
    obtain ⟨access, found, rfl⟩ := List.mem_map.mp listed
    exact inside ordered access found
  · intro event listed
    obtain ⟨access, _, rfl⟩ := List.mem_map.mp listed
    trivial

theorem chunkInstallPreWrite_agrees :
    Agrees Ordered Ordered st (st.chunkInstallPreWrite services).2 := by
  have read : Agrees Ordered Ordered st (st.traced (readPartitionData st.buffer st.curlen st.offset)) :=
    traced_agrees fun ordered => readPartitionData_inside ordered.small ordered.2
  rw [chunkInstallPreWrite]
  dsimp only
  split
  · exact read.trans (.silent rfl id)
  · split
    · exact read.trans (.silent rfl id)
    · exact read.trans (.silent rfl id)

theorem chunkInstallDoWrite_agrees :
    Agrees Ordered Ordered st (st.chunkInstallDoWrite services).2 := by
  have read : Agrees Ordered Ordered st
      (st.traced (readInstall st.buffer st.curlen st.curPartition st.offset)) :=
    traced_agrees fun ordered => readInstall_inside ordered.small ordered.2
  rw [chunkInstallDoWrite]
  dsimp only
  split
  · exact read.trans (.silent rfl id)
  · exact read.trans (.silent rfl id)
  case _ install found =>
    split
    · refine read.trans (.silent rfl fun ordered => ⟨ordered.1, ?_⟩)
      exact (readInstall_some ordered.small ordered.2 found).2
    · exact read.trans (.silent rfl id)

theorem chunkInstallProcess_agrees :
    Agrees Ordered Ordered st (st.chunkInstallProcess services).2 := by
  rw [chunkInstallProcess]
  cases st.updateStep with
  | pre => exact chunkInstallPreWrite_agrees
  | do_ => exact chunkInstallDoWrite_agrees
  | post => exact .silent rfl id

theorem updateBinData_agrees {turns : Nat} :
    Agrees Ordered Ordered st (updateBinData services turns st).2 := by
  induction turns generalizing st with
  | zero => exact .refl
  | succ turns ih =>
      rw [updateBinData]
      dsimp only
      split
      · exact chunkInstallProcess_agrees
      · exact chunkInstallProcess_agrees.trans ih

theorem updateBinHead_agrees :
    Agrees Ordered Ordered st (st.updateBinHead services).2 := by
  rw [updateBinHead]
  dsimp only
  split
  · exact .silent rfl id
  · split
    · exact .silent rfl id
    case _ updateFileHeadLen _ possible =>
      refine ⟨[.head st.offset updateFileHeadLen], rfl, fun ordered => ⟨?_, fun _ => ?_⟩⟩
      · exact iff_of_true (List.forall_mem_singleton.mpr trivial) (List.forall_mem_singleton.mpr trivial)
      · exact ⟨ordered.1, Nat.le_of_not_lt (not_or.mp possible).2⟩

/-- The type of a record that is no hash record is all that its beginning reads. -/
theorem readType_agrees (other : leValue (st.buffer.read st.offset 2) ≠ binUpdateHashTip) :
    Agrees Ordered Ordered st ((st.emit [.record st.buffer st.curlen st.offset]).traced
      (readLE st.buffer st.curlen 2 st.offset)) := by
  refine ⟨[.record st.buffer st.curlen st.offset, .access (.read st.curlen st.offset 2)], ?_,
    fun ordered => ⟨?_, fun _ => ordered⟩⟩
  · exact List.append_assoc _ _ _
  · constructor
    · intro inside event listed
      rcases List.mem_cons.mp listed with rfl | listed
      · exact ⟨inside _ (List.mem_cons_of_mem _ List.mem_cons_self), fun same => (other same).elim⟩
      · cases List.mem_singleton.mp listed
        trivial
    · intro sound event listed
      rcases List.mem_cons.mp listed with rfl | listed
      · trivial
      · cases List.mem_singleton.mp listed
        exact (sound _ List.mem_cons_self).1

/-- The parser has read a hash record that fits. -/
def HashRead (st : BinChunkUpdate World) : Prop :=
  st.Ordered ∧ HashFits st.buffer st.curlen 2 8 st.offset

/-- The readers of a hash record stay inside if no name is cut and no number too short. -/
theorem readHashes_agrees (type : leValue (st.buffer.read st.offset 2) = binUpdateHashTip) :
    Agrees Ordered HashRead st (((st.emit [.record st.buffer st.curlen st.offset]).traced
      (readLE st.buffer st.curlen 2 st.offset)).traced
        (readHashSection st.buffer st.curlen st.offset)) := by
  refine ⟨.record st.buffer st.curlen st.offset :: .access (.read st.curlen st.offset 2) ::
    (readHashSection st.buffer st.curlen st.offset).events.map .access, ?_, fun ordered => ?_⟩
  · simp only [traced, emit, List.append_assoc]
    rfl
  · have fits := @readHashSection_inside st.buffer st.curlen st.offset ordered.small ordered.2
    refine ⟨⟨fun inside => ?_, fun sound => ?_⟩, fun sound => ?_⟩
    · obtain ⟨_, inside⟩ := List.forall_mem_cons.mp inside
      obtain ⟨read, inside⟩ := List.forall_mem_cons.mp inside
      refine List.forall_mem_cons.mpr ⟨⟨read, fun _ => fits.mp fun access listed => ?_⟩, ?_⟩
      · exact inside _ (List.mem_map_of_mem listed)
      · refine List.forall_mem_cons.mpr ⟨trivial, fun event listed => ?_⟩
        obtain ⟨access, _, rfl⟩ := List.mem_map.mp listed
        trivial
    · obtain ⟨⟨read, hashes⟩, _⟩ := List.forall_mem_cons.mp sound
      refine List.forall_mem_cons.mpr ⟨trivial, List.forall_mem_cons.mpr ⟨read, ?_⟩⟩
      intro event listed
      obtain ⟨access, found, rfl⟩ := List.mem_map.mp listed
      exact fits.mpr (hashes type) access found
    · obtain ⟨⟨_, hashes⟩, _⟩ := List.forall_mem_cons.mp sound
      exact ⟨ordered, hashes type⟩

theorem updateBinHash_agrees (type : leValue (st.buffer.read st.offset 2) = binUpdateHashTip) :
    Agrees Ordered Ordered st (((st.emit [.record st.buffer st.curlen st.offset]).traced
      (readLE st.buffer st.curlen 2 st.offset)).updateBinHash services).2 := by
  have read := readHashes_agrees type
  rw [updateBinHash]
  dsimp only
  split
  · exact read.trans (.silent rfl fun hashes => hashes.1)
  case _ hashes found =>
    have behind : HashRead (((st.emit [.record st.buffer st.curlen st.offset]).traced
        (readLE st.buffer st.curlen 2 st.offset)).traced
          (readHashSection st.buffer st.curlen st.offset)) → hashes.next ≤ st.curlen := by
      rintro ⟨ordered, fits⟩
      exact (readHashSection_some ordered.small ordered.2 fits found).2
    split
    · split
      · exact read.trans (.silent rfl fun hashes => ⟨hashes.1.1, behind hashes⟩)
      · exact read.trans (.silent rfl fun hashes => ⟨hashes.1.1, behind hashes⟩)
    · exact read.trans (.silent rfl fun hashes => ⟨hashes.1.1, behind hashes⟩)

theorem nextRecord_agrees {turns : Nat} :
    Agrees Ordered Ordered st (st.nextRecord services turns).2 := by
  rw [nextRecord, processRecord]
  by_cases type : leValue (st.buffer.read st.offset 2) = binUpdateHashTip
  · rw [if_neg (by rw [type]; decide), if_neg (by rw [type]; decide), if_pos type]
    exact updateBinHash_agrees type
  · split
    · exact (readType_agrees type).trans updateBinHead_agrees
    · split
      · exact (readType_agrees type).trans updateBinData_agrees
      · exact readType_agrees type

theorem processBufferData_agrees {turns left : Nat} {ret : UpdateResultCode} :
    Agrees Ordered Ordered st (processBufferData services turns left ret st).2 := by
  induction left generalizing st ret with
  | zero => exact .refl
  | succ left ih =>
      rw [processBufferData]
      split
      · have record := @nextRecord_agrees World services st turns
        split
        case _ made =>
          rw [made] at record
          exact record
        case _ made =>
          rw [made] at record
          exact record
        case _ made =>
          rw [made] at record
          exact record.trans ih
      · exact .refl

/-- `curlen_` is set to a value that fits. -/
theorem fill_agrees {before after : BinChunkUpdate World → Prop} {curlen : Nat}
    (made : next.events = st.events ++ [.fill st.maxBufSize curlen])
    (fits : before st → curlen ≤ st.maxBufSize) (kept : before st → after next) :
    Agrees before after st next := by
  refine ⟨[.fill st.maxBufSize curlen], made, fun started => ⟨iff_of_true ?_ ?_, fun _ => kept started⟩⟩
  · exact List.forall_mem_singleton.mpr (fits started)
  · exact List.forall_mem_singleton.mpr trivial

theorem moveRemainingData_agrees : Agrees Ordered Filled st st.moveRemainingData.2 := by
  have fits : st.Ordered → remaining st.curlen st.offset ≤ st.maxBufSize := by
    intro ordered
    rw [remaining_of_le ordered.2]
    exact Nat.le_trans (Nat.sub_le _ _) ordered.1.1
  rw [moveRemainingData]
  dsimp only
  split
  · split
    · exact .silent rfl And.left
    · exact fill_agrees rfl fits fun ordered => ⟨fits ordered, ordered.1.2⟩
  · split
    · exact .silent rfl And.left
    · exact fill_agrees rfl (fun _ => Nat.zero_le _) fun ordered => ⟨Nat.zero_le _, ordered.1.2⟩

theorem addRemainData_failed {data : Memory} {remainLen : Nat}
    (failed : st.addRemainData data remainLen = (false, next)) : next = st := by
  rw [addRemainData] at failed
  split at failed
  · cases failed
    rfl
  · cases failed

theorem addRemainData_agrees {data : Memory} {remainLen : Nat}
    (made : st.addRemainData data remainLen = (true, next)) : Agrees Filled Ordered st next := by
  rw [addRemainData] at made
  split at made
  · cases made
  · cases made
    have fits : st.Filled → advance st.curlen (st.copySize remainLen) ≤ st.maxBufSize := by
      intro filled
      have room : st.copySize remainLen ≤ st.maxBufSize - st.curlen := by
        rw [copySize, remaining_of_le filled.1]
        exact Nat.min_le_right _ _
      have within : st.curlen + st.copySize remainLen ≤ st.maxBufSize := by
        have := filled.1
        omega
      rw [advance_of_le filled.2 within]
      exact within
    exact fill_agrees rfl fits fun filled => ⟨⟨fits filled, filled.2⟩, Nat.zero_le _⟩

/-- Nothing of what is noted of a turn is a read. -/
theorem turn_agrees {maxBufSize curlen : Nat} {buffer : Memory} {needNewData : Bool} :
    Agrees Filled Filled st (st.emit [.turn maxBufSize buffer curlen needNewData]) := by
  refine ⟨[.turn maxBufSize buffer curlen needNewData], rfl, fun filled => ⟨iff_of_true ?_ ?_, fun _ => filled⟩⟩
  · exact List.forall_mem_singleton.mpr trivial
  · exact List.forall_mem_singleton.mpr trivial

theorem processChunk_agrees {turns left remainLen : Nat} {chunk : Chunk} {ret : UpdateResultCode} :
    Agrees Filled Filled st (processChunk services turns chunk left remainLen ret st).2 := by
  induction left generalizing st remainLen ret with
  | zero => exact .refl
  | succ left ih =>
      rw [processChunk]
      split
      · dsimp only
        split
        case _ failed =>
          rw [addRemainData_failed failed]
          exact turn_agrees
        case _ filled made =>
          have started := turn_agrees.trans (addRemainData_agrees made)
          have processed := @processBufferData_agrees World services
            { filled with needNewData := false } turns turns .success
          have ready : Agrees Ordered Ordered filled { filled with needNewData := false } :=
            .silent rfl id
          have behind := (started.trans ready).trans processed
          split
          case _ same =>
            rw [same] at behind
            exact behind.weaken And.left
          case _ same =>
            rw [same] at behind
            exact behind.weaken And.left
          case _ ret later _ same =>
            rw [same] at behind
            have moved := behind.trans (@moveRemainingData_agrees World later)
            split
            case _ same =>
              rw [same] at moved
              exact moved
            case _ same =>
              rw [same] at moved
              exact moved.trans ih
      · exact .refl

theorem processHeader_agrees {data : Memory} : Agrees Filled Filled st (st.processHeader data) := by
  rw [processHeader]
  split
  · split
    · exact .silent rfl id
    · exact .silent rfl id
  · exact .refl

theorem skipTargetData_agrees {chunk : Chunk} :
    Agrees Filled Filled st (st.skipTargetData chunk).2 := by
  rw [skipTargetData]
  split
  · exact .refl
  · split
    · dsimp only
      split
      · exact .silent rfl id
      · refine ⟨[.skipped st.maxBufSize (chunk.len - st.skipLength),
          .fill st.maxBufSize (chunk.len - st.skipLength)], rfl, fun filled => ⟨?_, fun sound => ?_⟩⟩
        · constructor
          · intro inside
            obtain ⟨_, inside⟩ := List.forall_mem_cons.mp inside
            exact List.forall_mem_cons.mpr ⟨(List.forall_mem_singleton.mp inside :),
              List.forall_mem_singleton.mpr trivial⟩
          · intro sound
            obtain ⟨rest, _⟩ := List.forall_mem_cons.mp sound
            exact List.forall_mem_cons.mpr ⟨trivial, List.forall_mem_singleton.mpr rest⟩
        · exact ⟨(List.forall_mem_cons.mp sound).1, filled.2⟩
    · exact .silent rfl id

theorem startBinChunkUpdate_agrees {turns : Nat} {chunk : Chunk} :
    Agrees Filled Filled st (st.startBinChunkUpdate services turns chunk).2 := by
  rw [startBinChunkUpdate]
  split
  · exact .refl
  · have skipped := (@processHeader_agrees World st chunk.data).trans
      (@skipTargetData_agrees World (st.processHeader chunk.data) chunk)
    split
    case _ same =>
      rw [same] at skipped
      exact skipped
    case _ later same =>
      rw [same] at skipped
      have processed := skipped.trans (@processChunk_agrees World services later turns turns chunk.len
        chunk .success)
      split
      case _ same =>
        rw [same] at processed
        exact processed
      case _ same =>
        rw [same] at processed
        exact processed
      case _ same =>
        rw [same] at processed
        exact processed

theorem feed_agrees {turns : Nat} {chunks : List Chunk} :
    Agrees Filled Filled st (feed services turns chunks st) := by
  induction chunks generalizing st with
  | nil => exact .refl
  | cons chunk chunks ih =>
      have call := @startBinChunkUpdate_agrees World services st turns chunk
      rw [feed]
      split
      case _ same =>
        rw [same] at call
        exact call
      case _ same =>
        rw [same] at call
        exact call.trans ih

/-- Over every sequence of chunks, the parser stays inside the received bytes if and only if the
records that it comes to, and the skipped part, let it. -/
theorem feed_inside_iff (services : Services World) (turns : Nat) (chunks : List Chunk)
    (maxBufSize : UInt32) (buffer : Memory) (world : World) :
    (∀ event ∈ (feed services turns chunks (create maxBufSize buffer world)).events, event.Inside) ↔
      ∀ event ∈ (feed services turns chunks (create maxBufSize buffer world)).events,
        event.Sound := by
  obtain ⟨events, made, agree⟩ := @feed_agrees World services (create maxBufSize buffer world) turns
    chunks
  rw [made]
  exact (agree ⟨Nat.zero_le _, maxBufSize.toNat_lt⟩).1

/-- Services that never fail. -/
def smooth : Services Unit where
  loadHead := fun _ _ => (none, ())
  openPartition := fun _ _ => (true, ())
  execute := fun _ _ _ _ => (true, ())
  close := id
  verifySignature := fun _ _ _ => (true, ())
  verifyPartitionHashes := fun _ _ => (true, ())

/-- The beginning of a hash record whose first name has 16 bytes, behind the chunk. -/
def cutName : Chunk where
  data := fun address =>
    [0x16, 0, 2, 0, 1, 0, 1, 0, 16, 0].getD address 0
  len := 10
  short := by decide

theorem cutName_outside :
    ¬ ∀ event ∈ (feed smooth 3 [cutName] (create 64 (fun _ => 0) ())).events, event.Inside := by
  decide +kernel

end BinChunkUpdate

end Updater.StreamUpdate
