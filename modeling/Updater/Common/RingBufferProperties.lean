import Updater.Common.RingBuffer

/-! The ring buffer refines a bounded queue: its indices are the queue's counters
modulo twice the number of slots, and its slots hold what is still queued. -/

set_option autoImplicit false

namespace Updater.Common

open Updater.Base Updater.Utils

section

variable {k : Nat}

/-- The ring stores `queue`. -/
structure RingBuffer.Stores (ring : RingBuffer) (queue : BoundedQueue Item (2 ^ k)) : Prop where
  num : ring.num = 2 ^ k
  writeIndex : ring.writeIndex = queue.accepted.length % (2 * 2 ^ k)
  readIndex : ring.readIndex = queue.taken % (2 * 2 ^ k)
  bufs : ring.bufArray.length = 2 ^ k
  lens : ring.lenArray.length = 2 ^ k
  whole : ∀ item ∈ queue.accepted, item.bytes.length = item.len
  stored : ∀ index, queue.taken ≤ index → index < queue.accepted.length →
    queue.accepted[index]? = some (ring.slot (index % 2 ^ k))

theorem RingBuffer.init_stores {singleSize num : Nat} {ring : RingBuffer}
    (created : RingBuffer.init singleSize num = some ring) :
    ∃ k, num = 2 ^ k ∧ ring.Stores (BoundedQueue.empty : BoundedQueue Item (2 ^ k)) := by
  simp only [RingBuffer.init] at created
  split at created
  · cases created
  · rename_i valid
    simp only [not_or, not_not] at valid
    obtain ⟨k, power⟩ := (Nat.and_sub_one_eq_zero_iff_isPowerOfTwo valid.2.1).mp valid.2.2
    cases created
    refine ⟨k, power, power, ?_, ?_, ?_, ?_, ?_, ?_⟩
    · simp [BoundedQueue.empty]
    · simp [BoundedQueue.empty]
    · rw [List.length_replicate, power]
    · rw [List.length_replicate, power]
    · simp [BoundedQueue.empty]
    · simp [BoundedQueue.empty]

variable {ring : RingBuffer} {queue : BoundedQueue Item (2 ^ k)}

theorem RingBuffer.Stores.isFull_iff (stores : ring.Stores queue) :
    ring.isFull = true ↔ queue.size = 2 ^ k := by
  have positive : 0 < 2 ^ k := Nat.two_pow_pos k
  have ordered := queue.taken_le
  have bounded := queue.bounded
  have inside : queue.taken % (2 * 2 ^ k) < 2 * 2 ^ k := Nat.mod_lt _ (by omega)
  rw [isFull, decide_eq_true_iff, stores.writeIndex, stores.readIndex, stores.num,
    xor_two_pow_eq_add_mod inside, Nat.mod_add_mod]
  constructor
  · intro same
    have counters := eq_of_mod_eq (by omega) (by omega) same
    simp only [BoundedQueue.size]
    omega
  · intro full
    have counters : queue.accepted.length = queue.taken + 2 ^ k := by
      simp only [BoundedQueue.size] at full
      omega
    rw [counters]

theorem RingBuffer.Stores.isEmpty_iff (stores : ring.Stores queue) :
    ring.isEmpty = true ↔ queue.size = 0 := by
  have positive : 0 < 2 ^ k := Nat.two_pow_pos k
  have ordered := queue.taken_le
  have bounded := queue.bounded
  rw [isEmpty, decide_eq_true_iff, stores.writeIndex, stores.readIndex]
  constructor
  · intro same
    have counters := eq_of_mod_eq ordered (by omega) same.symm
    simp only [BoundedQueue.size]
    omega
  · intro nothing
    have counters : queue.accepted.length = queue.taken := by
      simp only [BoundedQueue.size] at nothing
      omega
    rw [counters]

/-- Masking an index of the doubled ring gives the slot of its counter. -/
theorem slot_index (counter k : Nat) :
    (counter % (2 * 2 ^ k)) &&& (2 ^ k - 1) = counter % 2 ^ k := by
  rw [Nat.and_two_pow_sub_one_eq_mod, Nat.mod_mod_of_dvd _ (Nat.dvd_mul_left _ _)]

theorem next_index (counter k : Nat) :
    (counter % (2 * 2 ^ k) + 1) &&& (2 * 2 ^ k - 1) = (counter + 1) % (2 * 2 ^ k) := by
  have double : 2 * 2 ^ k = 2 ^ (k + 1) := by rw [pow_succ, Nat.mul_comm]
  rw [double, Nat.and_two_pow_sub_one_eq_mod, Nat.mod_add_mod]

theorem RingBuffer.slot_set {ring' : RingBuffer} {index other : Nat} {buf : Bytes} {len : Nat}
    (bufs : ring'.bufArray = ring.bufArray.set index buf)
    (lens : ring'.lenArray = ring.lenArray.set index len) (different : other ≠ index) :
    ring'.slot other = ring.slot other := by
  simp only [slot, bufs, lens, List.getD_eq_getElem?_getD,
    List.getElem?_set_ne different.symm]

theorem RingBuffer.slot_set_self {ring' : RingBuffer} {index : Nat} {buf : Bytes} {len : Nat}
    (bufs : ring'.bufArray = ring.bufArray.set index buf)
    (lens : ring'.lenArray = ring.lenArray.set index len)
    (bufRoom : index < ring.bufArray.length) (lenRoom : index < ring.lenArray.length) :
    ring'.slot index = ⟨buf.take len, len⟩ := by
  simp only [slot, bufs, lens, List.getD_eq_getElem?_getD, List.getElem?_set_self bufRoom,
    List.getElem?_set_self lenRoom, Option.getD_some]

/-- Copying in while there is room pushes the bytes and touches no queued slot. -/
theorem RingBuffer.Stores.copyIn (stores : ring.Stores queue) {buf : Bytes} {ring' : RingBuffer}
    (copied : ring.copyIn buf = some ring') (room : queue.size < 2 ^ k) :
    ring'.Stores (queue.push ⟨buf, buf.length⟩ room) ∧
      ∀ index, queue.taken ≤ index → index < queue.accepted.length →
        ring'.slot (index % 2 ^ k) = ring.slot (index % 2 ^ k) := by
  have positive : 0 < 2 ^ k := Nat.two_pow_pos k
  have ordered := queue.taken_le
  have place : queue.accepted.length % 2 ^ k < 2 ^ k := Nat.mod_lt _ positive
  simp only [RingBuffer.copyIn, stores.num, stores.writeIndex, slot_index, next_index] at copied
  cases memcpy : memcpyS (ring.bufArray.getD (queue.accepted.length % 2 ^ k) [])
      ring.singleSize buf with
  | none =>
      rw [memcpy] at copied
      cases copied
  | some bytes =>
      rw [memcpy] at copied
      simp only [Option.some.injEq] at copied
      obtain ⟨_, bytesEq⟩ := memcpyS_eq_some memcpy
      have bufs : ring'.bufArray = ring.bufArray.set (queue.accepted.length % 2 ^ k) bytes := by
        rw [← copied]
      have lens : ring'.lenArray =
          ring.lenArray.set (queue.accepted.length % 2 ^ k) buf.length := by rw [← copied]
      have kept : ∀ index, queue.taken ≤ index → index < queue.accepted.length →
          ring'.slot (index % 2 ^ k) = ring.slot (index % 2 ^ k) := by
        intro index queued before
        apply slot_set bufs lens
        intro same
        simp only [BoundedQueue.size] at room
        exact absurd (eq_of_mod_eq before.le (by omega) same) (Nat.ne_of_lt before)
      refine ⟨⟨?_, ?_, ?_, ?_, ?_, ?_, ?_⟩, kept⟩
      · rw [← copied]
      · rw [← copied]
        simp [BoundedQueue.push]
      · rw [← copied]
        exact stores.readIndex
      · rw [bufs, List.length_set, stores.bufs]
      · rw [lens, List.length_set, stores.lens]
      · intro item member
        rcases List.mem_append.mp member with member | member
        · exact stores.whole item member
        · rw [List.mem_singleton.mp member]
      · intro index queued before
        rw [BoundedQueue.push, List.length_append, List.length_singleton] at before
        simp only [BoundedQueue.push] at queued ⊢
        rcases Nat.lt_or_ge index queue.accepted.length with old | new
        · rw [List.getElem?_append_left old, stores.stored index queued old,
            kept index queued old]
        · have last : index = queue.accepted.length := by omega
          rw [last, List.getElem?_concat_length,
            slot_set_self bufs lens (by rw [stores.bufs]; exact place)
              (by rw [stores.lens]; exact place), bytesEq, List.take_left']
          rfl

/-- Copying out while something is queued takes the oldest item. -/
theorem RingBuffer.Stores.copyOut (stores : ring.Stores queue) {maxLen : Nat} {item : Item}
    {ring' : RingBuffer} (copied : ring.copyOut maxLen = some (item, ring'))
    (available : 0 < queue.size) :
    queue.accepted[queue.taken]? = some item ∧ ring'.Stores (queue.pop available) ∧
      ∀ index, ring'.slot index = ring.slot index := by
  have oldest := stores.stored queue.taken (Nat.le_refl _)
    (by simp only [BoundedQueue.size] at available; omega)
  simp only [RingBuffer.copyOut, stores.num, stores.readIndex, slot_index, next_index] at copied
  cases memcpy : memcpyS [] maxLen (ring.slot (queue.taken % 2 ^ k)).bytes with
  | none =>
      rw [memcpy] at copied
      cases copied
  | some bytes =>
      rw [memcpy] at copied
      simp only [Option.some.injEq, Prod.mk.injEq] at copied
      obtain ⟨itemEq, ringEq⟩ := copied
      obtain ⟨_, bytesEq⟩ := memcpyS_eq_some memcpy
      rw [List.drop_nil, List.append_nil] at bytesEq
      refine ⟨?_, ⟨?_, ?_, ?_, ?_, ?_, stores.whole, ?_⟩, ?_⟩
      · rw [oldest, ← itemEq, bytesEq]
      · rw [← ringEq]
      · rw [← ringEq]
        exact stores.writeIndex
      · rw [← ringEq]
        rfl
      · rw [← ringEq]
        exact stores.bufs
      · rw [← ringEq]
        exact stores.lens
      · intro index queued before
        rw [← ringEq]
        exact stores.stored index (by simp only [BoundedQueue.pop] at queued; omega) before
      · intro index
        rw [← ringEq]
        rfl

/-- The slots of what is still queued hold the same items in both rings. -/
def RingBuffer.KeepsQueued (ring ring' : RingBuffer) (queue : BoundedQueue Item (2 ^ k)) : Prop :=
  ∀ index, queue.taken ≤ index → index < queue.accepted.length →
    ring'.slot (index % 2 ^ k) = ring.slot (index % 2 ^ k)

/-- The threads have put `queue` through the ring, and a call about to copy has
seen room or an item, which only its own thread can take away. -/
structure PipeState.Tracks (st : PipeState) (queue : BoundedQueue Item (2 ^ k)) : Prop where
  stores : st.ring.Stores queue
  accepted : st.accepted = queue.accepted
  delivered : st.delivered = queue.delivered
  pushReady : ∀ buf, st.push = .copy buf → queue.size < 2 ^ k
  popReady : ∀ maxLen, st.pop = .copy maxLen → 0 < queue.size

theorem PipeState.start_tracks (stores : ring.Stores (BoundedQueue.empty : BoundedQueue Item (2 ^ k))) :
    (PipeState.start ring).Tracks (BoundedQueue.empty : BoundedQueue Item (2 ^ k)) :=
  ⟨stores, rfl, rfl, by simp [start], by simp [start]⟩

variable {st st' : PipeState}

theorem PipeState.Tracks.notFull (tracks : st.Tracks queue) (free : ¬ st.ring.isFull = true) :
    queue.size < 2 ^ k :=
  Nat.lt_of_le_of_ne queue.size_le fun full => free (tracks.stores.isFull_iff.mpr full)

theorem PipeState.Tracks.notEmpty (tracks : st.Tracks queue) (filled : ¬ st.ring.isEmpty = true) :
    0 < queue.size :=
  Nat.pos_of_ne_zero fun nothing => filled (tracks.stores.isEmpty_iff.mpr nothing)

/-- A step of the producer that leaves the ring alone and has moved no new item. -/
theorem PipeState.Tracks.of_push (tracks : st.Tracks queue) (sameRing : st'.ring = st.ring)
    (samePop : st'.pop = st.pop) (samePopReturns : st'.popReturns = st.popReturns)
    (sameAccepted : st'.accepted = st.accepted)
    (ready : ∀ buf, st'.push = .copy buf → queue.size < 2 ^ k) : st'.Tracks queue where
  stores := sameRing ▸ tracks.stores
  accepted := sameAccepted.trans tracks.accepted
  delivered := by
    rw [← tracks.delivered, PipeState.delivered, PipeState.delivered, samePop, samePopReturns]
  pushReady := ready
  popReady := fun maxLen stage => tracks.popReady maxLen (samePop ▸ stage)

theorem PipeState.Tracks.of_pop (tracks : st.Tracks queue) (sameRing : st'.ring = st.ring)
    (samePush : st'.push = st.push) (samePushReturns : st'.pushReturns = st.pushReturns)
    (sameDelivered : st'.delivered = st.delivered)
    (ready : ∀ maxLen, st'.pop = .copy maxLen → 0 < queue.size) : st'.Tracks queue where
  stores := sameRing ▸ tracks.stores
  accepted := by
    rw [← tracks.accepted, PipeState.accepted, PipeState.accepted, samePush, samePushReturns]
  delivered := sameDelivered.trans tracks.delivered
  pushReady := fun buf stage => tracks.pushReady buf (samePush ▸ stage)
  popReady := ready

theorem RingBuffer.KeepsQueued.of_eq {ring' : RingBuffer} (same : ring' = ring) :
    ring.KeepsQueued ring' queue :=
  fun _ _ _ => by rw [same]

theorem PipeState.Tracks.pushStep (tracks : st.Tracks queue)
    (stepped : st.pushStep = some st') :
    ∃ queue' : BoundedQueue Item (2 ^ k), st'.Tracks queue' ∧
      st.ring.KeepsQueued st'.ring queue := by
  unfold PipeState.pushStep at stepped
  cases stage : st.push with
  | idle =>
      rw [stage] at stepped
      cases stepped
  | test buf =>
      rw [stage] at stepped
      cases stepped
      refine ⟨queue, tracks.of_push rfl rfl rfl ?_ ?_, .of_eq rfl⟩
      · simp only [PipeState.accepted, stage]
        split <;> rfl
      · intro _ copying
        apply tracks.notFull
        intro full
        simp [full] at copying
  | lock buf | wait buf =>
      rw [stage] at stepped
      simp only at stepped
      split at stepped
      · cases stepped
        exact ⟨queue, tracks.of_push rfl rfl rfl (by simp [PipeState.accepted, stage, CallStage.moved])
          (by simp), .of_eq rfl⟩
      · cases stepped
  | recheck buf =>
      rw [stage] at stepped
      simp only at stepped
      split at stepped
      · cases stepped
        exact ⟨queue, tracks.of_push rfl rfl rfl (by simp [PipeState.accepted, stage, CallStage.moved])
          (by simp), .of_eq rfl⟩
      · rename_i free
        cases stepped
        exact ⟨queue, tracks.of_push rfl rfl rfl (by simp [PipeState.accepted, stage, CallStage.moved])
          (fun _ _ => tracks.notFull free), .of_eq rfl⟩
  | checkStop buf =>
      rw [stage] at stepped
      simp only at stepped
      split at stepped
      · cases stepped
        refine ⟨queue, tracks.of_push rfl rfl rfl ?_ (by simp [pushReturn]), .of_eq rfl⟩
        simp [PipeState.accepted, pushReturn, stage, CallStage.moved, List.reduceOption_append]
      · cases stepped
        exact ⟨queue, tracks.of_push rfl rfl rfl (by simp [PipeState.accepted, stage, CallStage.moved])
          (by simp), .of_eq rfl⟩
  | copy buf =>
      have room := tracks.pushReady buf stage
      rw [stage] at stepped
      simp only at stepped
      cases copied : st.ring.copyIn buf with
      | none =>
          rw [copied] at stepped
          cases stepped
          refine ⟨queue, tracks.of_push rfl rfl rfl ?_ (by simp [pushReturn]), .of_eq rfl⟩
          simp [PipeState.accepted, pushReturn, stage, CallStage.moved, List.reduceOption_append]
      | some ring' =>
          rw [copied] at stepped
          cases stepped
          obtain ⟨stores, kept⟩ := tracks.stores.copyIn copied room
          refine ⟨queue.push ⟨buf, buf.length⟩ room, ⟨stores, ?_, ?_, by simp, ?_⟩, kept⟩
          · have before := tracks.accepted
            simp only [PipeState.accepted, stage, CallStage.moved, List.append_nil] at before
            simp only [PipeState.accepted, CallStage.moved, before, BoundedQueue.push]
          · rw [BoundedQueue.delivered_push]
            exact tracks.delivered
          · intro maxLen popping
            have available := tracks.popReady maxLen popping
            simp only [BoundedQueue.size, BoundedQueue.push, List.length_append] at available ⊢
            omega
  | notify item =>
      rw [stage] at stepped
      simp only at stepped
      split at stepped
      · cases stepped
        refine ⟨queue, tracks.of_push rfl rfl rfl ?_ (by simp [pushReturn]), .of_eq rfl⟩
        simp [PipeState.accepted, pushReturn, stage, CallStage.moved, List.reduceOption_append]
      · cases stepped

theorem PipeState.Tracks.popStep (tracks : st.Tracks queue) (stepped : st.popStep = some st') :
    ∃ queue' : BoundedQueue Item (2 ^ k), st'.Tracks queue' ∧
      st.ring.KeepsQueued st'.ring queue := by
  unfold PipeState.popStep at stepped
  cases stage : st.pop with
  | idle =>
      rw [stage] at stepped
      cases stepped
  | test maxLen =>
      rw [stage] at stepped
      cases stepped
      refine ⟨queue, tracks.of_pop rfl rfl rfl ?_ ?_, .of_eq rfl⟩
      · simp only [PipeState.delivered, stage]
        split <;> rfl
      · intro _ copying
        apply tracks.notEmpty
        intro nothing
        simp [nothing] at copying
  | lock maxLen | wait maxLen =>
      rw [stage] at stepped
      simp only at stepped
      split at stepped
      · cases stepped
        exact ⟨queue, tracks.of_pop rfl rfl rfl
          (by simp [PipeState.delivered, stage, CallStage.moved]) (by simp), .of_eq rfl⟩
      · cases stepped
  | recheck maxLen =>
      rw [stage] at stepped
      simp only at stepped
      split at stepped
      · cases stepped
        exact ⟨queue, tracks.of_pop rfl rfl rfl
          (by simp [PipeState.delivered, stage, CallStage.moved]) (by simp), .of_eq rfl⟩
      · rename_i filled
        cases stepped
        exact ⟨queue, tracks.of_pop rfl rfl rfl
          (by simp [PipeState.delivered, stage, CallStage.moved])
          (fun _ _ => tracks.notEmpty filled), .of_eq rfl⟩
  | checkStop maxLen =>
      rw [stage] at stepped
      simp only at stepped
      split at stepped
      · cases stepped
        refine ⟨queue, tracks.of_pop rfl rfl rfl ?_ (by simp [popReturn]), .of_eq rfl⟩
        simp [PipeState.delivered, popReturn, stage, CallStage.moved, List.reduceOption_append]
      · cases stepped
        exact ⟨queue, tracks.of_pop rfl rfl rfl
          (by simp [PipeState.delivered, stage, CallStage.moved]) (by simp), .of_eq rfl⟩
  | copy maxLen =>
      have available := tracks.popReady maxLen stage
      rw [stage] at stepped
      simp only at stepped
      cases copied : st.ring.copyOut maxLen with
      | none =>
          rw [copied] at stepped
          cases stepped
          refine ⟨queue, tracks.of_pop rfl rfl rfl ?_ (by simp [popReturn]), .of_eq rfl⟩
          simp [PipeState.delivered, popReturn, stage, CallStage.moved, List.reduceOption_append]
      | some taken =>
          obtain ⟨item, ring'⟩ := taken
          rw [copied] at stepped
          cases stepped
          obtain ⟨oldest, stores, kept⟩ := tracks.stores.copyOut copied available
          refine ⟨queue.pop available, ⟨stores, tracks.accepted, ?_, ?_, by simp⟩,
            fun index _ _ => kept _⟩
          · have before := tracks.delivered
            simp only [PipeState.delivered, stage, CallStage.moved, List.append_nil] at before
            rw [BoundedQueue.delivered_pop available oldest, ← before]
            rfl
          · intro buf pushing
            have room := tracks.pushReady buf pushing
            simp only [BoundedQueue.size, BoundedQueue.pop] at room ⊢
            omega
  | notify item =>
      rw [stage] at stepped
      simp only at stepped
      split at stepped
      · cases stepped
        refine ⟨queue, tracks.of_pop rfl rfl rfl ?_ (by simp [popReturn]), .of_eq rfl⟩
        simp [PipeState.delivered, popReturn, stage, CallStage.moved, List.reduceOption_append]
      · cases stepped

/-- Step lemma: every step refines a step of the queue or leaves it alone. -/
theorem PipeState.Tracks.step (tracks : st.Tracks queue) {action : PipeAction}
    (stepped : st.step action = some st') :
    ∃ queue' : BoundedQueue Item (2 ^ k), st'.Tracks queue' ∧
      st.ring.KeepsQueued st'.ring queue := by
  cases action with
  | callPush buf =>
      simp only [PipeState.step] at stepped
      split at stepped
      · cases stepped
      · rename_i idle
        have stage : st.push = .idle := not_not.mp idle
        split at stepped
        · cases stepped
          refine ⟨queue, tracks.of_push rfl rfl rfl ?_ (by simp [pushReturn]), .of_eq rfl⟩
          simp [PipeState.accepted, pushReturn, stage, CallStage.moved, List.reduceOption_append]
        · cases stepped
          exact ⟨queue, tracks.of_push rfl rfl rfl
            (by simp [PipeState.accepted, stage, CallStage.moved]) (by simp), .of_eq rfl⟩
  | pushStep => exact tracks.pushStep stepped
  | callPop maxLen =>
      simp only [PipeState.step] at stepped
      split at stepped
      · cases stepped
      · rename_i idle
        have stage : st.pop = .idle := not_not.mp idle
        cases stepped
        exact ⟨queue, tracks.of_pop rfl rfl rfl
          (by simp [PipeState.delivered, stage, CallStage.moved]) (by simp), .of_eq rfl⟩
  | popStep => exact tracks.popStep stepped
  | stop =>
      simp only [PipeState.step] at stepped
      split at stepped
      · cases stepped
        have stores := tracks.stores
        exact ⟨queue, ⟨⟨stores.num, stores.writeIndex, stores.readIndex, stores.bufs, stores.lens,
          stores.whole, stores.stored⟩, tracks.accepted, tracks.delivered, tracks.pushReady,
          tracks.popReady⟩, fun _ _ _ => rfl⟩
      · cases stepped

theorem PipeState.Tracks.run (tracks : st.Tracks queue) {actions : List PipeAction}
    (ran : actions.foldlM PipeState.step st = some st') :
    ∃ queue' : BoundedQueue Item (2 ^ k), st'.Tracks queue' := by
  induction actions generalizing st queue with
  | nil =>
      cases ran
      exact ⟨queue, tracks⟩
  | cons action actions ih =>
      rw [List.foldlM_cons] at ran
      obtain ⟨middle, stepped, rest⟩ := Option.bind_eq_some_iff.mp ran
      obtain ⟨queue', tracks', _⟩ := tracks.step stepped
      exact ih tracks' rest

end

/-- After any interleaving of the steps of `Push`, `Pop` and `Stop`: what was
popped is a prefix of what was pushed, at most `num` items are queued, their
slots hold them, and no next step changes such a slot. -/
theorem ringBuffer_lossless_fifo {singleSize num : Nat} {ring : RingBuffer}
    (created : RingBuffer.init singleSize num = some ring) {actions : List PipeAction}
    {st : PipeState} (ran : actions.foldlM PipeState.step (.start ring) = some st) :
    st.delivered <+: st.accepted ∧
      st.accepted.length ≤ st.delivered.length + num ∧
      ∀ index, st.delivered.length ≤ index → index < st.accepted.length →
        st.accepted[index]? = some (st.ring.slot (index % num)) ∧
          ∀ action st', st.step action = some st' →
            st'.ring.slot (index % num) = st.ring.slot (index % num) := by
  obtain ⟨k, rfl, stores⟩ := RingBuffer.init_stores created
  obtain ⟨queue, tracks⟩ := (PipeState.start_tracks stores).run ran
  rw [tracks.accepted, tracks.delivered, queue.length_delivered]
  refine ⟨queue.delivered_prefix, queue.bounded, fun index queued before => ⟨?_, ?_⟩⟩
  · exact tracks.stores.stored index queued before
  · intro action st' stepped
    obtain ⟨_, _, kept⟩ := tracks.step stepped
    exact kept index queued before

/-- Two slots: a push completes, its item is popped, and the ring is stopped. -/
theorem ringBuffer_lossless_two :
    ∃ ring st, RingBuffer.init 4 2 = some ring ∧
      [.callPush [1, 2], .pushStep, .pushStep, .callPop 4, .popStep, .popStep, .stop].foldlM
        PipeState.step (.start ring) = some st ∧
      st.accepted = [⟨[1, 2], 2⟩] ∧ st.delivered <+: st.accepted := by
  let ring : RingBuffer := ⟨0, 0, 4, 2, [[0, 0, 0, 0], [0, 0, 0, 0]], [0, 0], false⟩
  let st : PipeState := ⟨⟨1, 1, 4, 2, [[1, 2, 0, 0], [0, 0, 0, 0]], [2, 0], true⟩, none,
    .notify ⟨[1, 2], 2⟩, .notify ⟨[1, 2], 2⟩, [], []⟩
  have ran : [.callPush [1, 2], .pushStep, .pushStep, .callPop 4, .popStep, .popStep, .stop].foldlM
      PipeState.step (.start ring) = some st := by decide
  have created : RingBuffer.init 4 2 = some ring := by decide
  exact ⟨ring, st, created, ran, by decide, (ringBuffer_lossless_fifo created ran).1⟩

end Updater.Common
