import Updater.Base.BoundedQueue
import Updater.Package.ShmDataStream

/-! The shared ring refines a bounded queue of blocks, and the two streams their joined
bytes, as long as no wait times out in a call that has moved a part of its bytes. -/

set_option autoImplicit false

namespace Updater.Package

open Updater.Base Updater.Utils

theorem memcpyS_exact (dest : Bytes) {src : Bytes} (nonempty : src ≠ [])
    (small : src.length ≤ securecMemMaxLen) :
    memcpyS dest src.length src = some (src ++ dest.drop src.length) := by
  have positive := List.length_pos_iff.mpr nonempty
  rw [memcpyS, if_neg (by omega)]

theorem singleBlockSize_small : singleBlockSize ≤ securecMemMaxLen := by
  decide

/-- What the reserved buffer still holds for the consumer. -/
def ShmRingBuffer.unread (ring : ShmRingBuffer) : Bytes :=
  slice ring.reserved ring.currOffset ring.currLen

/-- The bytes of a slot. -/
def ShmRingBuffer.slot (ring : ShmRingBuffer) (index : Nat) : Bytes :=
  (ring.buffer.getD index []).take (ring.efficientLen.getD index 0)

/-- The ring stores the blocks that are queued. -/
structure ShmRingBuffer.Stores (ring : ShmRingBuffer) (queue : BoundedQueue Bytes blockNum) :
    Prop where
  head : ring.head = queue.taken % blockNum
  tail : ring.tail = queue.accepted.length % blockNum
  buffers : ring.buffer.length = blockNum
  lens : ring.efficientLen.length = blockNum
  sized : ∀ block ∈ queue.accepted, block ≠ [] ∧ block.length ≤ singleBlockSize
  stored : ∀ index block, queue.taken ≤ index → queue.accepted[index]? = some block →
    ring.efficientLen.getD (index % blockNum) 0 = block.length ∧
      ring.slot (index % blockNum) = block
  reserved : ring.currOffset + ring.currLen ≤ ring.reserved.length
  unreadSmall : ring.currLen ≤ singleBlockSize

variable {ring ring' : ShmRingBuffer} {queue : BoundedQueue Bytes blockNum}

theorem ShmRingBuffer.create_stores :
    ShmRingBuffer.create.Stores BoundedQueue.empty := by
  constructor
  · rfl
  · rfl
  · exact List.length_replicate
  · exact List.length_replicate
  · intro block listed
    cases listed
  · intro index block _ found
    cases found
  · exact Nat.le_refl 0
  · exact Nat.zero_le _

/-- Only the slots, the head and the tail, and what is unread matter. -/
theorem ShmRingBuffer.Stores.of_eq (stores : ring.Stores queue) (head : ring'.head = ring.head)
    (tail : ring'.tail = ring.tail) (buffer : ring'.buffer = ring.buffer)
    (lens : ring'.efficientLen = ring.efficientLen)
    (reserved : ring'.currOffset + ring'.currLen ≤ ring'.reserved.length)
    (unreadSmall : ring'.currLen ≤ singleBlockSize) : ring'.Stores queue := by
  constructor
  · rw [head, stores.head]
  · rw [tail, stores.tail]
  · rw [buffer, stores.buffers]
  · rw [lens, stores.lens]
  · exact stores.sized
  · intro index block queued found
    rw [slot, buffer, lens]
    exact stores.stored index block queued found
  · exact reserved
  · exact unreadSmall

theorem blockNum_pos : 0 < blockNum := by
  decide

/-- Filling while there is room pushes a block. -/
theorem ShmRingBuffer.Stores.fill (stores : ring.Stores queue) (bytes : Bytes)
    (nonempty : bytes ≠ []) (small : bytes.length ≤ singleBlockSize)
    (room : queue.size < blockNum) :
    ∃ ring', ring.fill bytes = some ring' ∧ ring'.Stores (queue.push bytes room) ∧
      ring'.semEmpty = ring.semEmpty ∧ ring'.semFull = ring.semFull ∧
      ring'.unread = ring.unread ∧ ring'.currLen = ring.currLen := by
  have copied := memcpyS_exact (ring.buffer.getD ring.tail []) nonempty
    (Nat.le_trans small singleBlockSize_small)
  have place : queue.accepted.length % blockNum < blockNum := Nat.mod_lt _ blockNum_pos
  have ordered := queue.taken_le
  refine ⟨{ ring with
      buffer := ring.buffer.set ring.tail
        (bytes ++ (ring.buffer.getD ring.tail []).drop bytes.length)
      efficientLen := ring.efficientLen.set ring.tail bytes.length
      tail := (ring.tail + 1) % blockNum }, ?_, ?_, rfl, rfl, rfl, rfl⟩
  · rw [ShmRingBuffer.fill, copied]
    rfl
  constructor
  · exact stores.head
  · simp only [stores.tail, BoundedQueue.push, List.length_append, List.length_singleton,
      Nat.mod_add_mod]
  · simp only [List.length_set, stores.buffers]
  · simp only [List.length_set, stores.lens]
  · intro block listed
    rcases List.mem_append.mp listed with old | new
    · exact stores.sized block old
    · rw [List.mem_singleton.mp new]
      exact ⟨nonempty, small⟩
  · intro index block queued found
    simp only [BoundedQueue.push] at queued found
    rw [slot]
    simp only [stores.tail, List.getD_eq_getElem?_getD]
    rcases Nat.lt_or_ge index queue.accepted.length with before | new
    · rw [List.getElem?_append_left before] at found
      have other : queue.accepted.length % blockNum ≠ index % blockNum := by
        intro same
        have equal := eq_of_mod_eq (Nat.le_of_lt before) (by
          simp only [BoundedQueue.size] at room
          omega) same.symm
        omega
      rw [List.getElem?_set_ne other, List.getElem?_set_ne other]
      have kept := stores.stored index block queued found
      simp only [slot, List.getD_eq_getElem?_getD] at kept
      exact kept
    · obtain ⟨bound, rfl⟩ : index < queue.accepted.length + 1 ∧ block = bytes := by
        rw [List.getElem?_append_right new] at found
        obtain ⟨inside, same⟩ := List.getElem?_eq_some_iff.mp found
        rw [List.length_singleton] at inside
        refine ⟨by omega, ?_⟩
        rw [← same, List.getElem_singleton]
      have last : index = queue.accepted.length := by omega
      subst last
      rw [List.getElem?_set_self (by rw [stores.lens]; exact place),
        List.getElem?_set_self (by rw [stores.buffers]; exact place)]
      simp
  · exact stores.reserved
  · exact stores.unreadSmall

/-- Draining pops the oldest block; what is not asked for stays unread. -/
theorem ShmRingBuffer.Stores.drain (stores : ring.Stores queue) {needReadLen : Nat}
    (asked : 0 < needReadLen) (nothing : ring.currLen = 0) (available : 0 < queue.size) :
    ∃ block ring', queue.accepted[queue.taken]? = some block ∧
      ring.drain needReadLen = some (block.take needReadLen, ring') ∧
      ring'.Stores (queue.pop available) ∧ ring'.semEmpty = ring.semEmpty ∧
      ring'.semFull = ring.semFull ∧ ring'.unread = block.drop needReadLen ∧
      ring'.currLen = block.length - needReadLen := by
  have inside : queue.taken < queue.accepted.length := by
    simp only [BoundedQueue.size] at available
    omega
  obtain ⟨block, found⟩ : ∃ block, queue.accepted[queue.taken]? = some block :=
    ⟨_, List.getElem?_eq_getElem inside⟩
  obtain ⟨nonempty, small⟩ := stores.sized block (List.mem_of_getElem? found)
  obtain ⟨len, slot⟩ := stores.stored queue.taken block (Nat.le_refl _) found
  have positive := List.length_pos_iff.mpr nonempty
  have limit := singleBlockSize_small
  simp only [ShmRingBuffer.slot, len] at slot
  have popped (ring' : ShmRingBuffer) (head : ring'.head = (ring.head + 1) % blockNum)
      (tail : ring'.tail = ring.tail) (buffer : ring'.buffer = ring.buffer)
      (lens : ring'.efficientLen = ring.efficientLen.set ring.head 0)
      (reserved : ring'.currOffset + ring'.currLen ≤ ring'.reserved.length)
      (unreadSmall : ring'.currLen ≤ singleBlockSize) : ring'.Stores (queue.pop available) := by
    constructor
    · rw [head, stores.head, Nat.mod_add_mod]
      rfl
    · rw [tail, stores.tail]
      rfl
    · rw [buffer, stores.buffers]
    · rw [lens, List.length_set, stores.lens]
    · exact stores.sized
    · intro index other queued otherFound
      have later : queue.taken + 1 ≤ index := queued
      obtain ⟨bound, -⟩ := List.getElem?_eq_some_iff.mp otherFound
      have bound : index < queue.accepted.length := bound
      have bounded := queue.bounded
      have different : queue.taken % blockNum ≠ index % blockNum := by
        intro same
        have equal := eq_of_mod_eq (Nat.le_of_succ_le later) (by omega) same
        omega
      have kept := stores.stored index other (Nat.le_of_succ_le later) otherFound
      simp only [ShmRingBuffer.slot, List.getD_eq_getElem?_getD] at kept ⊢
      rw [buffer, lens, stores.head, List.getElem?_set_ne different]
      exact kept
    · exact reserved
    · exact unreadSmall
  have whole : ((ring.buffer.getD (queue.taken % blockNum) []).take needReadLen) =
      block.take needReadLen ∨ block.length ≤ needReadLen := by
    rcases Nat.le_total block.length needReadLen with short | long
    · exact .inr short
    · left
      rw [← slot, List.take_take, Nat.min_eq_left long]
  rcases Nat.lt_or_ge needReadLen block.length with part | short
  · have front : (ring.buffer.getD (queue.taken % blockNum) []).take needReadLen =
        block.take needReadLen := by
      rcases whole with same | short
      · exact same
      · exact absurd part (Nat.not_lt.mpr short)
    have behind : slice (ring.buffer.getD (queue.taken % blockNum) []) needReadLen
        (block.length - needReadLen) = block.drop needReadLen := by
      rw [slice, ← List.drop_take, slot]
    have frontLength : (block.take needReadLen).length = needReadLen := by
      rw [List.length_take]
      omega
    have behindLength : (block.drop needReadLen).length = block.length - needReadLen :=
      List.length_drop
    have frontSome : block.take needReadLen ≠ [] := by
      intro none
      rw [none] at frontLength
      exact absurd frontLength (Nat.ne_of_lt asked)
    have behindSome : block.drop needReadLen ≠ [] := by
      intro none
      rw [none, List.length_nil] at behindLength
      omega
    have frontCopied := memcpyS_exact [] frontSome (by omega)
    have behindCopied := memcpyS_exact ring.reserved behindSome (by omega)
    rw [frontLength] at frontCopied
    rw [behindLength] at behindCopied
    refine ⟨block, { ring with
        efficientLen := ring.efficientLen.set ring.head 0
        head := (ring.head + 1) % blockNum
        reserved := block.drop needReadLen ++ ring.reserved.drop (block.length - needReadLen)
        currLen := block.length - needReadLen
        currOffset := 0 }, found, ?_, popped _ rfl rfl rfl rfl ?_ ?_, rfl, rfl, ?_, rfl⟩
    · rw [ShmRingBuffer.drain]
      simp only [stores.head, len, front, behind, frontCopied, behindCopied, Option.bind_eq_bind,
        Option.bind_some]
      rw [if_neg (by omega), if_neg (by omega), List.drop_nil, List.append_nil]
      rfl
    · simp only [List.length_append, behindLength]
      omega
    · simp only
      omega
    · simp only [ShmRingBuffer.unread, slice, List.drop_zero]
      exact List.take_left' behindLength
  · have copied := memcpyS_exact [] nonempty (by omega)
    refine ⟨block, { ring with
        efficientLen := ring.efficientLen.set ring.head 0
        head := (ring.head + 1) % blockNum }, found, ?_,
      popped _ rfl rfl rfl rfl stores.reserved stores.unreadSmall, rfl, rfl, ?_, ?_⟩
    · rw [ShmRingBuffer.drain]
      simp only [stores.head, len, slot, copied]
      rw [if_neg (by omega), if_pos short, List.take_of_length_le short, List.drop_nil,
        List.append_nil]
      rfl
    · rw [List.drop_of_length_le short]
      simp only [ShmRingBuffer.unread, nothing, slice_zero_length]
    · rw [nothing]
      omega

namespace ShmState

/-- What the current call of the consumer has taken. -/
def reading (st : ShmState) : Bytes :=
  st.read.elim [] ReadCall.data

/-- The numbers of a call of `Write` agree. -/
structure WriteCounts (st : ShmState) (call : WriteCall) : Prop where
  total : call.writedLen + call.needWriteLen = call.size
  size : call.size ≤ call.data.length
  start : call.start = st.writeOffset

structure ReadCounts (st : ShmState) (call : ReadCall) : Prop where
  total : call.data.length + call.needReadLen = call.needRead
  start : call.start = st.readOffset
  unread : 0 < call.needReadLen → st.ring.currLen = 0

/-- The state at any point of the two loops: the semaphores count the blocks, and the
bytes moved so far are those of the queue. -/
structure Follows (base : Nat) (st : ShmState) (queue : BoundedQueue Bytes blockNum) : Prop where
  stores : st.ring.Stores queue
  full : st.filledBlocks = queue.size
  empty : st.ring.semEmpty + (st.write.elim 0 fun call => if call.stage = .move then 1 else 0) +
    (st.read.elim 0 fun call => if call.stage = .post then 1 else 0) + queue.size = blockNum
  written : st.written = queue.accepted.flatten
  returned : st.returned ++ st.reading ++ st.ring.unread = queue.delivered.flatten
  writeOffset : st.writeOffset = base + (moved st.writeReturns).length
  readOffset : st.readOffset = base + st.returned.length
  writeCounts : ∀ call, st.write = some call → st.WriteCounts call
  readCounts : ∀ call, st.read = some call → st.ReadCounts call
  placed : ∀ ret ∈ st.readReturns, ∀ bytes, ret.result = some bytes →
    base ≤ ret.start ∧ bytes.length = ret.size ∧ ret.start - base + ret.size ≤ st.returned.length ∧
      bytes = slice st.returned (ret.start - base) ret.size

/-- A call that waits or moves a block has something left to move. -/
structure Tracks (base : Nat) (st : ShmState) (queue : BoundedQueue Bytes blockNum) : Prop
    extends st.Follows base queue where
  writeReady : ∀ call, st.write = some call → call.stage ≠ .post → 0 < call.needWriteLen
  readReady : ∀ call, st.read = some call → call.stage ≠ .post → 0 < call.needReadLen

variable {base : Nat} {st st' : ShmState}

theorem start_tracks (base : Nat) : (start base).Tracks base BoundedQueue.empty := by
  constructor
  · constructor
    · exact ShmRingBuffer.create_stores
    · rfl
    · rfl
    · rfl
    · rfl
    · rfl
    · rfl
    · intro call none
      cases none
    · intro call none
      cases none
    · intro ret listed
      cases listed
  · intro call none
    cases none
  · intro call none
    cases none

@[simp] theorem moved_append_none (returns : List StreamReturn) (start size : Nat) :
    moved (returns ++ [⟨start, size, none⟩]) = moved returns := by
  simp [moved]

@[simp] theorem moved_append_some (returns : List StreamReturn) (start size : Nat) (bytes : Bytes) :
    moved (returns ++ [⟨start, size, some bytes⟩]) = moved returns ++ bytes := by
  simp [moved]

/-- A `Write` that fails before its first block leaves everything as it was. -/
theorem Follows.returnWrite_none (follows : st.Follows base queue) (begin size : Nat)
    (untouched : ∀ call, st.write = some call → call.writedLen = 0 ∧ call.stage = .wait) :
    (st.returnWrite ⟨begin, size, none⟩).Follows base queue := by
  have nothing : (st.write.elim [] fun call => call.data.take call.writedLen) = [] ∧
      (st.write.elim 0 fun call => if call.stage = .move then 1 else 0) = 0 ∧
      (st.write.elim 0 fun call => if call.stage = .post then 1 else 0) = 0 := by
    cases calling : st.write with
    | none => exact ⟨rfl, rfl, rfl⟩
    | some call =>
        obtain ⟨zero, stage⟩ := untouched call calling
        simp [zero, stage]
  obtain ⟨noBytes, noMove, noPost⟩ := nothing
  have full := follows.full
  have empty := follows.empty
  have written := follows.written
  simp only [filledBlocks, noPost] at full
  simp only [noMove] at empty
  simp only [ShmState.written, noBytes] at written
  constructor
  · exact follows.stores
  · exact full
  · exact empty
  · simp only [ShmState.written, returnWrite, moved_append_none]
    exact written
  · exact follows.returned
  · simp only [returnWrite, moved_append_none]
    exact follows.writeOffset
  · exact follows.readOffset
  · intro call none
    cases none
  · intro call reading
    obtain ⟨total, start, unread⟩ := follows.readCounts call reading
    exact ⟨total, start, unread⟩
  · exact follows.placed

/-- A `Read` that fails before it took anything leaves everything as it was. -/
theorem Follows.returnRead_none (follows : st.Follows base queue) (begin size : Nat)
    (untouched : ∀ call, st.read = some call → call.data = [] ∧ call.stage = .wait) :
    (st.returnRead ⟨begin, size, none⟩).Follows base queue := by
  have nothing : st.reading = [] ∧
      (st.read.elim 0 fun call => if call.stage = .move then 1 else 0) = 0 ∧
      (st.read.elim 0 fun call => if call.stage = .post then 1 else 0) = 0 := by
    unfold reading
    cases calling : st.read with
    | none => exact ⟨rfl, rfl, rfl⟩
    | some call =>
        obtain ⟨none, stage⟩ := untouched call calling
        simp [none, stage]
  obtain ⟨noBytes, noMove, noPost⟩ := nothing
  have full := follows.full
  have empty := follows.empty
  have returned := follows.returned
  simp only [filledBlocks, noMove] at full
  simp only [noPost] at empty
  rw [noBytes] at returned
  have same : (st.returnRead ⟨begin, size, none⟩).returned = st.returned := by
    simp only [ShmState.returned, returnRead, moved_append_none]
  constructor
  · exact follows.stores
  · exact full
  · exact empty
  · exact follows.written
  · rw [same]
    exact returned
  · exact follows.writeOffset
  · rw [same]
    exact follows.readOffset
  · intro call writing
    obtain ⟨total, size, start⟩ := follows.writeCounts call writing
    exact ⟨total, size, start⟩
  · intro call none
    cases none
  · intro ret listed bytes result
    rw [same]
    rcases List.mem_append.mp listed with old | new
    · exact follows.placed ret old bytes result
    · rw [List.mem_singleton.mp new] at result
      cases result

/-- The head of the loop of `Write`, from a state that stands before the next wait. -/
theorem Follows.loopWrite {call : WriteCall}
    (follows : { st with write := some { call with stage := .wait } }.Follows base queue) :
    (st.loopWrite call).Follows base queue := by
  unfold ShmState.loopWrite
  split
  · exact follows
  · rename_i done
    obtain ⟨total, size, start⟩ := follows.writeCounts _ rfl
    have complete : call.writedLen = call.size := by
      simp only at total
      omega
    have written := follows.written
    simp only [ShmState.written, Option.elim_some, complete] at written
    have length : (call.data.take call.size).length = call.size := by
      rw [List.length_take]
      exact Nat.min_eq_left size
    constructor
    · exact follows.stores
    · exact follows.full
    · exact follows.empty
    · simp only [ShmState.written, returnWrite, moved_append_some, Option.elim_none,
        List.append_nil]
      exact written
    · exact follows.returned
    · simp only [returnWrite, moved_append_some, List.length_append, length]
      rw [← Nat.add_assoc]
      exact congrArg (· + call.size) follows.writeOffset
    · exact follows.readOffset
    · intro other none
      cases none
    · intro other reading
      obtain ⟨total, start, unread⟩ := follows.readCounts other reading
      exact ⟨total, start, unread⟩
    · exact follows.placed

/-- A successful `Read` adds the bytes that belong at its offset. -/
theorem Follows.returnRead_some (st : ShmState) {call : ReadCall}
    (follows : { st with read := some { call with stage := .wait } }.Follows base queue)
    (done : call.needReadLen = 0) :
    ({ st with readOffset := st.readOffset + call.data.length }.returnRead
      ⟨call.start, call.needRead, some call.data⟩).Follows base queue := by
  obtain ⟨total, start, unread⟩ := follows.readCounts _ rfl
  have length : call.data.length = call.needRead := by
    simp only at total
    omega
  have returned := follows.returned
  have offset := follows.readOffset
  have place : call.start - base = st.returned.length ∧ base ≤ call.start := by
    have begins : call.start = st.readOffset := start
    have at' : st.readOffset = base + st.returned.length := offset
    omega
  have same : ({ st with readOffset := st.readOffset + call.data.length }.returnRead
      ⟨call.start, call.needRead, some call.data⟩).returned = st.returned ++ call.data := by
    simp only [ShmState.returned, returnRead, moved_append_some]
  constructor
  · exact follows.stores
  · exact follows.full
  · exact follows.empty
  · exact follows.written
  · rw [same]
    change st.returned ++ call.data ++ [] ++ st.ring.unread = _
    rw [List.append_nil]
    exact returned
  · exact follows.writeOffset
  · rw [same, List.length_append, ← Nat.add_assoc]
    exact congrArg (· + call.data.length) offset
  · intro other writing
    obtain ⟨total, size, start⟩ := follows.writeCounts other writing
    exact ⟨total, size, start⟩
  · intro other none
    cases none
  · intro ret listed bytes result
    rw [same]
    rcases List.mem_append.mp listed with old | new
    · obtain ⟨after, size, inside, slices⟩ := follows.placed ret old bytes result
      have inside : ret.start - base + ret.size ≤ st.returned.length := inside
      refine ⟨after, size, ?_, ?_⟩
      · rw [List.length_append]
        omega
      · rw [slice_append_left _ inside]
        exact slices
    · rw [List.mem_singleton.mp new] at result ⊢
      cases result
      refine ⟨place.2, length, ?_, ?_⟩
      · rw [place.1, List.length_append, length]
      · have whole := slice_append_right st.returned call.data 0 call.needRead
        rw [Nat.add_zero] at whole
        rw [place.1, whole, ← length, slice_full]

/-- The head of the loop of `ReadFully`. -/
theorem Follows.loopRead {call : ReadCall}
    (follows : { st with read := some { call with stage := .wait } }.Follows base queue) :
    (st.loopRead call).Follows base queue := by
  unfold ShmState.loopRead
  split
  · exact follows
  · rename_i done
    exact follows.returnRead_some _ (Nat.le_zero.mp (Nat.not_lt.mp done))

theorem Follows.loopWrite_tracks {call : WriteCall}
    (follows : { st with write := some { call with stage := .wait } }.Follows base queue)
    (readReady : ∀ call, st.read = some call → call.stage ≠ .post → 0 < call.needReadLen) :
    (st.loopWrite call).Tracks base queue := by
  refine ⟨follows.loopWrite, ?_, ?_⟩
  · intro other writing _
    unfold ShmState.loopWrite at writing
    split at writing
    · rename_i more
      cases writing
      exact more
    · cases writing
  · intro other reading
    unfold ShmState.loopWrite at reading
    split at reading
    · exact readReady other reading
    · exact readReady other reading

theorem Follows.loopRead_tracks (st : ShmState) {call : ReadCall}
    (follows : { st with read := some { call with stage := .wait } }.Follows base queue)
    (writeReady : ∀ call, st.write = some call → call.stage ≠ .post → 0 < call.needWriteLen) :
    (st.loopRead call).Tracks base queue := by
  refine ⟨follows.loopRead, ?_, ?_⟩
  · intro other writing
    unfold ShmState.loopRead at writing
    split at writing
    · exact writeReady other writing
    · exact writeReady other writing
  · intro other reading _
    unfold ShmState.loopRead at reading
    split at reading
    · rename_i more
      cases reading
      exact more
    · cases reading

theorem Tracks.returnWrite_none (tracks : st.Tracks base queue) (begin size : Nat)
    (untouched : ∀ call, st.write = some call → call.writedLen = 0 ∧ call.stage = .wait) :
    (st.returnWrite ⟨begin, size, none⟩).Tracks base queue := by
  refine ⟨tracks.toFollows.returnWrite_none begin size untouched, ?_, tracks.readReady⟩
  intro call none
  cases none

theorem Tracks.returnRead_none (tracks : st.Tracks base queue) (begin size : Nat)
    (untouched : ∀ call, st.read = some call → call.data = [] ∧ call.stage = .wait) :
    (st.returnRead ⟨begin, size, none⟩).Tracks base queue := by
  refine ⟨tracks.toFollows.returnRead_none begin size untouched, tracks.writeReady, ?_⟩
  intro call none
  cases none

theorem Tracks.callWrite (tracks : st.Tracks base queue) (idle : st.write = none) (data : Bytes)
    (size begin : Nat) : (st.callWrite data size begin).Tracks base queue := by
  unfold ShmState.callWrite
  split
  · apply tracks.returnWrite_none
    intro call writing
    rw [idle] at writing
    cases writing
  · rename_i valid
    obtain ⟨same, enough⟩ := not_or.mp valid
    have full := tracks.full
    have empty := tracks.empty
    have written := tracks.written
    simp only [filledBlocks, idle, Option.elim_none] at full
    simp only [idle, Option.elim_none] at empty
    simp only [ShmState.written, idle, Option.elim_none] at written
    apply Follows.loopWrite_tracks _ tracks.readReady
    constructor
    · exact tracks.stores
    · exact full
    · exact empty
    · simp only [ShmState.written, Option.elim_some, List.take_zero]
      exact written
    · exact tracks.returned
    · exact tracks.writeOffset
    · exact tracks.readOffset
    · intro call writing
      cases writing
      exact ⟨Nat.zero_add size, Nat.not_lt.mp enough, not_not.mp same⟩
    · intro call reading
      obtain ⟨total, start, unread⟩ := tracks.readCounts call reading
      exact ⟨total, start, unread⟩
    · exact tracks.placed

/-- A `Read` takes what is unread before it waits for a block. -/
theorem Follows.beginRead (follows : st.Follows base queue) (idle : st.read = none)
    (ring : ShmRingBuffer) (stores : ring.Stores queue) (semFull : ring.semFull = st.ring.semFull)
    (semEmpty : ring.semEmpty = st.ring.semEmpty) (call : ReadCall)
    (bytes : call.data ++ ring.unread = st.ring.unread) (start : call.start = st.readOffset)
    (total : call.data.length + call.needReadLen = call.needRead)
    (unread : 0 < call.needReadLen → ring.currLen = 0) :
    { st with ring, read := some { call with stage := .wait } }.Follows base queue := by
  have full := follows.full
  have empty := follows.empty
  have returned := follows.returned
  simp only [filledBlocks, idle, Option.elim_none] at full
  simp only [idle, Option.elim_none] at empty
  simp only [reading, idle, Option.elim_none, List.append_nil] at returned
  constructor
  · exact stores
  · simp only [filledBlocks, semFull]
    exact full
  · simp only [semEmpty]
    exact empty
  · exact follows.written
  · change st.returned ++ call.data ++ ring.unread = _
    rw [List.append_assoc, bytes]
    exact returned
  · exact follows.writeOffset
  · exact follows.readOffset
  · intro other writing
    obtain ⟨total, size, start⟩ := follows.writeCounts other writing
    exact ⟨total, size, start⟩
  · intro other reading
    cases reading
    exact ⟨total, start, unread⟩
  · exact follows.placed

theorem Tracks.callRead (tracks : st.Tracks base queue) (idle : st.read = none)
    (capacity begin needRead : Nat) :
    (st.callRead capacity begin needRead).Tracks base queue := by
  have untouched : ∀ call, st.read = some call → call.data = [] ∧ call.stage = .wait := by
    intro call reading
    rw [idle] at reading
    cases reading
  have stores := tracks.stores
  have room := stores.reserved
  unfold ShmState.callRead
  split
  · exact tracks.returnRead_none _ _ untouched
  · rename_i valid
    obtain ⟨same, -⟩ := not_or.mp valid
    have same := not_not.mp same
    dsimp only
    split
    · split
      · rename_i enough
        cases copied : memcpyS [] needRead (slice st.ring.reserved st.ring.currOffset needRead) with
        | none => exact tracks.returnRead_none _ _ untouched
        | some bytes =>
            obtain ⟨-, sliced⟩ := memcpyS_eq_some copied
            rw [List.drop_nil, List.append_nil] at sliced
            have length : bytes.length = needRead := by
              rw [sliced]
              exact length_slice (by omega)
            have kept := tracks.toFollows.beginRead idle
              { st.ring with
                currOffset := st.ring.currOffset + needRead
                currLen := st.ring.currLen - needRead }
              (stores.of_eq rfl rfl rfl rfl (by simp only; omega)
                (Nat.le_trans (Nat.sub_le _ _) stores.unreadSmall))
              rfl rfl ⟨begin, needRead, 0, bytes, .wait⟩
              (by
                simp only [ShmRingBuffer.unread]
                rw [sliced, slice_append_slice, Nat.add_sub_cancel' enough])
              same (by simp only [length, Nat.add_zero]) (fun more => absurd more (Nat.lt_irrefl 0))
            have done := kept.returnRead_some
              { st with ring := { st.ring with
                currOffset := st.ring.currOffset + needRead
                currLen := st.ring.currLen - needRead } } rfl
            simp only [length] at done
            refine ⟨done, tracks.writeReady, ?_⟩
            intro call none
            cases none
      · rename_i less
        cases copied : memcpyS [] st.ring.currLen
            (slice st.ring.reserved st.ring.currOffset st.ring.currLen) with
        | none => exact tracks.returnRead_none _ _ untouched
        | some bytes =>
            obtain ⟨-, sliced⟩ := memcpyS_eq_some copied
            rw [List.drop_nil, List.append_nil] at sliced
            have length : bytes.length = st.ring.currLen := by
              rw [sliced]
              exact length_slice room
            have kept := tracks.toFollows.beginRead idle
              { st.ring with currLen := 0, currOffset := 0 }
              (stores.of_eq rfl rfl rfl rfl (Nat.zero_le _) (Nat.zero_le _)) rfl rfl
              ⟨begin, needRead, needRead - st.ring.currLen, bytes, .wait⟩
              (by
                simp only [ShmRingBuffer.unread, slice_zero_length, List.append_nil]
                exact sliced)
              same (by simp only [length]; omega) (fun _ => rfl)
            exact kept.loopRead_tracks
              { st with ring := { st.ring with currLen := 0, currOffset := 0 } }
              tracks.writeReady
    · rename_i nothing
      have kept := tracks.toFollows.beginRead idle st.ring stores rfl rfl
        ⟨begin, needRead, needRead, [], .wait⟩ rfl same
        (Nat.zero_add needRead) (fun _ => Nat.le_zero.mp (Nat.not_lt.mp nothing))
      exact kept.loopRead_tracks st tracks.writeReady

/-- Step lemma for `Write`. -/
theorem Tracks.writeStep (tracks : st.Tracks base queue) {call : WriteCall}
    (writing : st.write = some call) (stepped : st.writeStep call = some st') :
    ∃ queue', st'.Tracks base queue' := by
  have full := tracks.full
  have empty := tracks.empty
  have written := tracks.written
  obtain ⟨total, size, start⟩ := tracks.writeCounts call writing
  have ready := tracks.writeReady call writing
  simp only [filledBlocks, writing, Option.elim_some] at full
  simp only [writing, Option.elim_some] at empty
  simp only [ShmState.written, writing, Option.elim_some] at written
  have readCounts (ring : ShmRingBuffer) (same : ring.currLen = st.ring.currLen)
      (other : ReadCall) (reading : st.read = some other) :
      ({ st with ring }).ReadCounts other := by
    obtain ⟨total, start, unread⟩ := tracks.readCounts other reading
    exact ⟨total, start, fun more => same.trans (unread more)⟩
  unfold ShmState.writeStep at stepped
  cases stage : call.stage with
  | wait =>
      simp only [stage] at stepped full empty
      split at stepped
      · cases stepped
      · rename_i free
        cases stepped
        refine ⟨queue, ⟨?_, ?_, ?_, ?_, tracks.returned, tracks.writeOffset, tracks.readOffset, ?_,
          ?_, tracks.placed⟩, ?_, tracks.readReady⟩
        · exact tracks.stores.of_eq rfl rfl rfl rfl tracks.stores.reserved tracks.stores.unreadSmall
        · exact full
        · simp only [Option.elim_some, if_true]
          simp only [reduceCtorEq, if_false] at empty
          omega
        · exact written
        · intro other same
          cases same
          exact ⟨total, size, start⟩
        · intro other reading
          obtain ⟨total, start, unread⟩ := tracks.readCounts other reading
          exact ⟨total, start, unread⟩
        · intro other same _
          cases same
          apply ready
          rw [stage]
          decide
  | move =>
      have more : 0 < call.needWriteLen := ready (by rw [stage]; decide)
      simp only [stage, reduceCtorEq, if_true, if_false] at stepped full empty
      have block : 0 < singleBlockSize := by decide
      generalize sizes : (if call.needWriteLen < singleBlockSize then call.needWriteLen
        else singleBlockSize) = len at stepped
      have positive : 0 < len ∧ len ≤ call.needWriteLen ∧ len ≤ singleBlockSize := by
        split at sizes
        · omega
        · omega
      have length : (slice call.data call.writedLen len).length = len := length_slice (by omega)
      obtain ⟨ring, filled, stores, semEmpty, semFull, unread, currLen⟩ := tracks.stores.fill
        (slice call.data call.writedLen len)
        (by
          intro none
          rw [none, List.length_nil] at length
          omega)
        (by rw [length]; exact positive.2.2) (by omega)
      simp only [filled] at stepped
      cases stepped
      have pushed : (queue.push (slice call.data call.writedLen len) (by omega)).size =
          queue.size + 1 := by
        have ordered := queue.taken_le
        simp only [BoundedQueue.size, BoundedQueue.push, List.length_append, List.length_singleton]
        omega
      refine ⟨_, ⟨stores, ?_, ?_, ?_, ?_, tracks.writeOffset, tracks.readOffset, ?_, ?_,
        tracks.placed⟩, ?_, tracks.readReady⟩
      · rw [pushed]
        simp only [filledBlocks, Option.elim_some, semFull, if_true]
        omega
      · rw [pushed]
        simp only [Option.elim_some, semEmpty, reduceCtorEq, if_false]
        omega
      · simp only [ShmState.written, Option.elim_some, BoundedQueue.push, List.flatten_append,
          List.flatten_singleton]
        rw [← written, List.take_add, List.append_assoc]
        rfl
      · rw [BoundedQueue.delivered_push, ← tracks.returned]
        simp only [reading, ShmState.returned, unread]
      · intro other same
        cases same
        exact ⟨by simp only; omega, size, start⟩
      · intro other reading
        obtain ⟨total, start, unread⟩ := readCounts ring currLen other reading
        exact ⟨total, start, unread⟩
      · intro other same notPost
        cases same
        exact absurd rfl notPost
  | post =>
      simp only [stage, reduceCtorEq, if_true, if_false] at stepped full empty
      cases stepped
      refine ⟨queue, Follows.loopWrite_tracks ⟨?_, ?_, ?_, ?_, tracks.returned, tracks.writeOffset,
        tracks.readOffset, ?_, ?_, tracks.placed⟩ tracks.readReady⟩
      · exact tracks.stores.of_eq rfl rfl rfl rfl tracks.stores.reserved tracks.stores.unreadSmall
      · simp only [filledBlocks, Option.elim_some, reduceCtorEq, if_false]
        omega
      · exact empty
      · exact written
      · intro other same
        cases same
        exact ⟨total, size, start⟩
      · intro other reading
        obtain ⟨total, start, unread⟩ := tracks.readCounts other reading
        exact ⟨total, start, unread⟩

/-- Step lemma for `Read`. -/
theorem Tracks.readStep (tracks : st.Tracks base queue) {call : ReadCall}
    (calling : st.read = some call) (stepped : st.readStep call = some st') :
    ∃ queue', st'.Tracks base queue' := by
  have full := tracks.full
  have empty := tracks.empty
  have returned := tracks.returned
  obtain ⟨total, start, unread⟩ := tracks.readCounts call calling
  have ready := tracks.readReady call calling
  simp only [filledBlocks, calling, Option.elim_some] at full
  simp only [calling, Option.elim_some] at empty
  simp only [reading, calling, Option.elim_some] at returned
  have writeCounts (ring : ShmRingBuffer) (other : WriteCall) (writing : st.write = some other) :
      ({ st with ring }).WriteCounts other := by
    obtain ⟨total, size, start⟩ := tracks.writeCounts other writing
    exact ⟨total, size, start⟩
  unfold ShmState.readStep at stepped
  cases stage : call.stage with
  | wait =>
      simp only [stage] at stepped full empty
      split at stepped
      · cases stepped
      · rename_i posted
        cases stepped
        refine ⟨queue, ⟨?_, ?_, ?_, tracks.written, ?_, tracks.writeOffset, tracks.readOffset, ?_,
          ?_, tracks.placed⟩, tracks.writeReady, ?_⟩
        · exact tracks.stores.of_eq rfl rfl rfl rfl tracks.stores.reserved tracks.stores.unreadSmall
        · simp only [filledBlocks, Option.elim_some, if_true]
          simp only [reduceCtorEq, if_false] at full
          omega
        · exact empty
        · exact returned
        · intro other writing
          obtain ⟨total, size, start⟩ := tracks.writeCounts other writing
          exact ⟨total, size, start⟩
        · intro other same
          cases same
          exact ⟨total, start, unread⟩
        · intro other same _
          cases same
          apply ready
          rw [stage]
          decide
  | move =>
      have more : 0 < call.needReadLen := ready (by rw [stage]; decide)
      have nothing := unread more
      simp only [stage, reduceCtorEq, if_true, if_false] at stepped full empty
      have available : 0 < queue.size := by omega
      obtain ⟨block, ring, found, drained, stores, semEmpty, semFull, left, currLen⟩ :=
        tracks.stores.drain more nothing available
      simp only [drained] at stepped
      cases stepped
      have popped : (queue.pop available).size + 1 = queue.size := by
        simp only [BoundedQueue.size, BoundedQueue.pop] at available ⊢
        omega
      have noneUnread : st.ring.unread = [] := by
        simp only [ShmRingBuffer.unread, nothing, slice_zero_length]
      have taken : (block.take call.needReadLen).length = min call.needReadLen block.length :=
        List.length_take
      refine ⟨_, ⟨stores, ?_, ?_, tracks.written, ?_, tracks.writeOffset, tracks.readOffset, ?_, ?_,
        tracks.placed⟩, tracks.writeReady, ?_⟩
      · simp only [filledBlocks, Option.elim_some, semFull, reduceCtorEq, if_false]
        omega
      · simp only [Option.elim_some, semEmpty, if_true]
        omega
      · rw [BoundedQueue.delivered_pop available found, List.flatten_append,
          List.flatten_singleton, ← returned, noneUnread, List.append_nil]
        change st.returned ++ (call.data ++ block.take call.needReadLen) ++ ring.unread = _
        rw [left, List.append_assoc, List.append_assoc, List.take_append_drop, ← List.append_assoc]
      · intro other writing
        obtain ⟨total, size, start⟩ := tracks.writeCounts other writing
        exact ⟨total, size, start⟩
      · intro other same
        cases same
        refine ⟨?_, start, ?_⟩
        · simp only [List.length_append, taken]
          omega
        · simp only [taken, currLen]
          omega
      · intro other same notPost
        cases same
        exact absurd rfl notPost
  | post =>
      simp only [stage, reduceCtorEq, if_true, if_false] at stepped full empty
      cases stepped
      refine ⟨queue, Follows.loopRead_tracks _ ⟨?_, ?_, ?_, tracks.written, ?_, tracks.writeOffset,
        tracks.readOffset, ?_, ?_, tracks.placed⟩ tracks.writeReady⟩
      · exact tracks.stores.of_eq rfl rfl rfl rfl tracks.stores.reserved tracks.stores.unreadSmall
      · exact full
      · simp only [Option.elim_some, reduceCtorEq, if_false]
        omega
      · exact returned
      · intro other writing
        obtain ⟨total, size, start⟩ := tracks.writeCounts other writing
        exact ⟨total, size, start⟩
      · intro other same
        cases same
        exact ⟨total, start, unread⟩

/-- No wait times out in a call that has moved a part of its bytes. -/
def Keeps (st : ShmState) : ShmAction → Prop
  | .writeTimeout => ∀ call, st.write = some call → call.writedLen = 0
  | .readTimeout => ∀ call, st.read = some call → call.data = []
  | .write _ _ _ | .writeStep | .read _ _ _ | .readStep => True

/-- All steps of a run are like that. -/
def KeepsAll : ShmState → List ShmAction → Prop
  | _, [] => True
  | st, action :: actions => st.Keeps action ∧ ∀ st', st.step action = some st' →
      st'.KeepsAll actions

/-- Step lemma. -/
theorem Tracks.step (tracks : st.Tracks base queue) {action : ShmAction} (keeps : st.Keeps action)
    (stepped : st.step action = some st') : ∃ queue', st'.Tracks base queue' := by
  cases action with
  | write data size start =>
      simp only [ShmState.step] at stepped
      cases writing : st.write with
      | none =>
          rw [writing] at stepped
          cases stepped
          exact ⟨queue, tracks.callWrite writing data size start⟩
      | some call =>
          rw [writing] at stepped
          cases stepped
  | writeStep =>
      obtain ⟨call, writing, stepped⟩ := Option.bind_eq_some_iff.mp stepped
      exact tracks.writeStep writing stepped
  | writeTimeout =>
      obtain ⟨call, writing, stepped⟩ := Option.bind_eq_some_iff.mp stepped
      split at stepped
      · rename_i stage
        cases stepped
        refine ⟨queue, tracks.returnWrite_none _ _ ?_⟩
        intro other same
        rw [writing] at same
        cases same
        exact ⟨keeps call writing, stage⟩
      · cases stepped
  | read capacity start needRead =>
      simp only [ShmState.step] at stepped
      cases reading : st.read with
      | none =>
          rw [reading] at stepped
          cases stepped
          exact ⟨queue, tracks.callRead reading capacity start needRead⟩
      | some call =>
          rw [reading] at stepped
          cases stepped
  | readStep =>
      obtain ⟨call, reading, stepped⟩ := Option.bind_eq_some_iff.mp stepped
      exact tracks.readStep reading stepped
  | readTimeout =>
      obtain ⟨call, reading, stepped⟩ := Option.bind_eq_some_iff.mp stepped
      split at stepped
      · rename_i stage
        cases stepped
        refine ⟨queue, tracks.returnRead_none _ _ ?_⟩
        intro other same
        rw [reading] at same
        cases same
        exact ⟨keeps call reading, stage⟩
      · cases stepped

/-- Run lemma. -/
theorem Tracks.run (tracks : st.Tracks base queue) {actions : List ShmAction}
    (keeps : st.KeepsAll actions) (ran : st.run actions = some st') :
    ∃ queue', st'.Tracks base queue' := by
  induction actions generalizing st queue with
  | nil =>
      cases ran
      exact ⟨queue, tracks⟩
  | cons action actions ih =>
      rw [ShmState.run, List.foldlM_cons] at ran
      obtain ⟨middle, stepped, rest⟩ := Option.bind_eq_some_iff.mp ran
      obtain ⟨queue', tracks'⟩ := tracks.step keeps.1 stepped
      exact ih tracks' (keeps.2 middle stepped) rest

/-- Nothing is lost or moved: what was written is what was returned and what is on its
way, and every read that succeeded returned the bytes that were written at its offset. -/
structure Delivers (base : Nat) (st : ShmState) : Prop where
  complete : st.written = st.returned ++ st.pending
  placed : ∀ ret ∈ st.readReturns, ∀ bytes, ret.result = some bytes →
    base ≤ ret.start ∧ bytes.length = ret.size ∧
      bytes = slice st.written (ret.start - base) ret.size

/-- The slots from the head on are the queued blocks. -/
theorem flatMap_slots {ring : ShmRingBuffer} (stores : ring.Stores queue) {count : Nat}
    (inside : queue.taken + count ≤ queue.accepted.length) :
    ((List.range count).flatMap fun i => ring.slot ((ring.head + i) % blockNum)) =
      ((queue.accepted.drop queue.taken).take count).flatten := by
  induction count with
  | zero => simp
  | succ count ih =>
      have before : queue.taken + count < queue.accepted.length := by omega
      have found := List.getElem?_eq_getElem before
      obtain ⟨-, slot⟩ := stores.stored (queue.taken + count) _ (Nat.le_add_right _ _) found
      rw [List.range_succ, List.flatMap_append, ih (by omega), List.flatMap_singleton, stores.head,
        Nat.mod_add_mod, slot, List.take_add_one, List.getElem?_drop, found, List.flatten_append,
        Option.toList_some, List.flatten_singleton]

theorem Tracks.delivers (tracks : st.Tracks base queue) : st.Delivers base := by
  have blocks : ((List.range st.filledBlocks).flatMap fun i =>
      st.ring.slot ((st.ring.head + i) % blockNum)) =
        (queue.accepted.drop queue.taken).flatten := by
    have ordered := queue.taken_le
    rw [tracks.full, flatMap_slots tracks.stores (by
      simp only [BoundedQueue.size]
      omega)]
    rw [BoundedQueue.size, ← List.length_drop, List.take_length]
  have complete : st.written = st.returned ++ st.pending := by
    have pending : st.pending = st.reading ++ st.ring.unread ++
        (queue.accepted.drop queue.taken).flatten := by
      rw [← blocks]
      rfl
    calc st.written = queue.accepted.flatten := tracks.written
      _ = queue.delivered.flatten ++ (queue.accepted.drop queue.taken).flatten := by
        rw [← List.flatten_append, BoundedQueue.delivered, List.take_append_drop]
      _ = st.returned ++ st.pending := by
        rw [← tracks.returned, pending]
        simp only [List.append_assoc]
  refine ⟨complete, ?_⟩
  intro ret listed bytes result
  obtain ⟨after, size, inside, slices⟩ := tracks.placed ret listed bytes result
  refine ⟨after, size, ?_⟩
  rw [complete, slice_append_left _ inside]
  exact slices

end ShmState

/-- In every run in which no wait times out in a call that has moved a part of its
bytes, the stream delivers what was written. -/
theorem shmDataStream_delivers (base : Nat) (actions : List ShmAction) (st : ShmState)
    (ran : (ShmState.start base).run actions = some st)
    (keeps : (ShmState.start base).KeepsAll actions) : st.Delivers base := by
  obtain ⟨queue, tracks⟩ := (ShmState.start_tracks base).run keeps ran
  exact tracks.delivers

/-- A block of three bytes, of which two are read and then the third. -/
theorem shmDataStream_delivers_three :
    ∃ st, (ShmState.start 7).run [.write [1, 2, 3] 3 7, .writeStep, .writeStep, .read 2 7 2,
        .writeStep, .readStep, .readStep, .readStep, .read 4 9 1] = some st ∧
      st.returned = [1, 2, 3] ∧ st.Delivers 7 := by
  have ran : ((ShmState.start 7).run [.write [1, 2, 3] 3 7, .writeStep, .writeStep, .read 2 7 2,
      .writeStep, .readStep, .readStep, .readStep, .read 4 9 1]).isSome = true := by
    decide
  obtain ⟨st, ran⟩ := Option.isSome_iff_exists.mp ran
  have returned : ((ShmState.start 7).run [.write [1, 2, 3] 3 7, .writeStep, .writeStep,
      .read 2 7 2, .writeStep, .readStep, .readStep, .readStep, .read 4 9 1]).map
        ShmState.returned = some [1, 2, 3] := by
    decide
  rw [ran] at returned
  refine ⟨st, ran, Option.some.inj returned, shmDataStream_delivers 7 _ st ran ?_⟩
  simp [ShmState.KeepsAll, ShmState.Keeps]

/-- A read takes the first byte and times out; the next one at the same offset gets the
bytes behind it. -/
theorem timed_out_read_loses :
    ∃ st, (ShmState.start 0).run [.write [1] 1 0, .writeStep, .writeStep, .writeStep, .read 2 0 2,
        .readStep, .readStep, .readStep, .readTimeout, .write [2, 3] 2 1, .writeStep, .writeStep,
        .writeStep, .read 2 0 2, .readStep, .readStep, .readStep] = some st ∧
      ⟨0, 2, some [2, 3]⟩ ∈ st.readReturns ∧ st.written = [1, 2, 3] ∧ ¬ st.Delivers 0 := by
  have run : ((ShmState.start 0).run [.write [1] 1 0, .writeStep, .writeStep, .writeStep,
      .read 2 0 2, .readStep, .readStep, .readStep, .readTimeout, .write [2, 3] 2 1, .writeStep,
      .writeStep, .writeStep, .read 2 0 2, .readStep, .readStep, .readStep]).any (fun st =>
        ⟨0, 2, some [2, 3]⟩ ∈ st.readReturns && st.written = [1, 2, 3]) = true := by
    decide
  obtain ⟨st, ran, facts⟩ := (Option.any_eq_true _ _).mp run
  rw [Bool.and_eq_true, decide_eq_true_eq, decide_eq_true_eq] at facts
  obtain ⟨listed, written⟩ := facts
  refine ⟨st, ran, listed, written, fun delivers => ?_⟩
  obtain ⟨-, -, same⟩ := delivers.placed _ listed _ rfl
  rw [written] at same
  exact absurd same (by decide)

end Updater.Package
