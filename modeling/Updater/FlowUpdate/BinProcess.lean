import Updater.Package.FlowDataStream

/-! `UnCompressDataProducer`: collects unpacked data in a 4 MiB stash and passes
every full stash on to the flow stream. -/

set_option autoImplicit false

namespace Updater.FlowUpdate

open Updater.Base Updater.Utils Updater.Package

def stashBufferSize : Nat := 4 * 1024 * 1024

/-- `stash` is the filled part of `stashBuffer_`, `stashDataSize_` bytes. -/
structure BinFlowWrite where
  stash : Bytes
  isStopRun : Bool
  deriving DecidableEq, Repr

/-- Appends `data` behind the stashed bytes. -/
def stashCopy (stash data : Bytes) : Option Bytes :=
  (memcpyS [] (stashBufferSize - stash.length) data).map (stash ++ ·)

/-- The loop that writes out a full stash while the data does not fit; returns
what is left of the data. -/
def fillStash (start : Nat) (data stash : Bytes) (flow : FlowDataStream) :
    Option (Bytes × Bytes × FlowDataStream) :=
  if _more : stashBufferSize - stash.length < data.length then
    let copyLen := stashBufferSize - stash.length
    match stashCopy stash (data.take copyLen) with
    | none => none
    | some full =>
        match flow.write full stashBufferSize (sub64 start stash.length) with
        | none => none
        | some flow => fillStash start (data.drop copyLen) [] flow
  else some (data, stash, flow)
termination_by data.length + stash.length
decreasing_by
  simp only [List.length_drop, List.length_nil, stashBufferSize] at _more ⊢
  omega

/-- `buffer` is `none` for a null pointer; its length is the call's `size`. -/
def unCompressDataProducer (proc : BinFlowWrite) (flow : FlowDataStream) (buffer : Option Bytes)
    (start : Nat) (isFinish : Bool) : Option (BinFlowWrite × FlowDataStream) :=
  if proc.isStopRun then none
  else
    match buffer with
    | none =>
        if isFinish then
          if proc.stash.length ≠ 0 then
            match flow.write proc.stash proc.stash.length
                (sub64 flow.fileLength proc.stash.length) with
            | none => none
            | some flow => some ({ proc with stash := [] }, flow)
          else some (proc, flow)
        else none
    | some data =>
        if data.length = 0 ∨ start < proc.stash.length then none
        else
          match fillStash start data proc.stash flow with
          | none => none
          | some (rest, stash, flow) =>
              match stashCopy stash rest with
              | none => none
              | some stash =>
                  if stash.length = stashBufferSize then
                    match flow.write stash stash.length
                        (size64 (sub64 start stash.length + rest.length)) with
                    | none => none
                    | some flow => some ({ proc with stash := [] }, flow)
                  else some ({ proc with stash }, flow)

/-- Contiguous chunks from offset `start` on, then the finishing call. -/
def produceAll (proc : BinFlowWrite) (flow : FlowDataStream) (start : Nat) :
    List Bytes → Option (BinFlowWrite × FlowDataStream)
  | [] => unCompressDataProducer proc flow none 0 true
  | chunk :: rest =>
      match unCompressDataProducer proc flow (some chunk) start false with
      | none => none
      | some (proc, flow) => produceAll proc flow (start + chunk.length) rest

theorem write_spec {flow : FlowDataStream} {data : Bytes} (nonempty : data ≠ [])
    (fits : data.length ≤ stashBufferSize) (single : flow.singleSize = stashBufferSize)
    (start : Nat) :
    flow.write data data.length start =
      if flow.writeOffset = start then some { flow with
        ring := flow.ring ++ [data], writeOffset := size64 (flow.writeOffset + data.length) }
      else none := by
  have positive := List.length_pos_iff.mpr nonempty
  have short : uint32 data.length = data.length := by
    apply Nat.mod_eq_of_lt
    simp only [stashBufferSize] at fits
    omega
  by_cases same : flow.writeOffset = start
  · have pushed : ringPush flow.ring flow.singleSize data data.length =
        some (flow.ring ++ [data]) := by
      rw [ringPush, if_neg (by omega), List.take_length]
    simp [FlowDataStream.write, same, short, pushed]
  · simp [FlowDataStream.write, same]

theorem stashCopy_spec {stash data : Bytes} (nonempty : data ≠ [])
    (room : data.length ≤ stashBufferSize - stash.length) :
    stashCopy stash data = some (stash ++ data) := by
  have positive := List.length_pos_iff.mpr nonempty
  have copied : memcpyS [] (stashBufferSize - stash.length) data = some data := by
    rw [memcpyS, if_neg]
    · simp
    · simp only [stashBufferSize, securecMemMaxLen] at room ⊢
      omega
  simp [stashCopy, copied]

theorem write_mismatch {flow : FlowDataStream} {data : Bytes} {size start : Nat}
    (mismatch : flow.writeOffset ≠ start) : flow.write data size start = none := by
  rw [FlowDataStream.write, if_pos mismatch]

/-- Between calls: full stashes have been written out, the rest is stashed. -/
structure Filling (total : Nat) (done : Bytes) (proc : BinFlowWrite) (flow : FlowDataStream) :
    Prop where
  running : proc.isStopRun = false
  bytes : flow.ring.flatten ++ proc.stash = done
  offset : flow.writeOffset = flow.ring.flatten.length
  room : proc.stash.length < stashBufferSize
  full : ∀ item ∈ flow.ring, item.length = stashBufferSize
  untouched : { flow with ring := [], writeOffset := 0 } =
    FlowDataStream.create total stashBufferSize

theorem length_flatten_full {ring : List Bytes}
    (full : ∀ item ∈ ring, item.length = stashBufferSize) :
    ring.flatten.length = stashBufferSize * ring.length := by
  induction ring with
  | nil => rfl
  | cons item rest ih =>
      rw [List.flatten_cons, List.length_append, full item (by simp),
        ih fun other member => full other (by simp [member]), List.length_cons, Nat.mul_succ,
        Nat.add_comm]

section

variable {total : Nat} {done : Bytes} {proc : BinFlowWrite} {flow : FlowDataStream}

theorem Filling.start (total : Nat) :
    Filling total [] ⟨[], false⟩ (FlowDataStream.create total stashBufferSize) :=
  ⟨rfl, rfl, rfl, by simp [stashBufferSize], by simp [FlowDataStream.create], rfl⟩

theorem Filling.length (filling : Filling total done proc flow) :
    done.length = flow.writeOffset + proc.stash.length := by
  rw [← filling.bytes, List.length_append, filling.offset]

theorem Filling.stash_length (filling : Filling total done proc flow) :
    proc.stash.length = done.length % stashBufferSize := by
  rw [filling.length, filling.offset, length_flatten_full filling.full, Nat.mul_add_mod,
    Nat.mod_eq_of_lt filling.room]

theorem Filling.singleSize (filling : Filling total done proc flow) :
    flow.singleSize = stashBufferSize := by
  have same := congrArg FlowDataStream.singleSize filling.untouched
  exact same

theorem Filling.fileLength (filling : Filling total done proc flow) : flow.fileLength = total := by
  have same := congrArg FlowDataStream.fileLength filling.untouched
  exact same

/-- A full stash at the write offset goes out as one item. -/
theorem Filling.flush (filling : Filling total done proc flow) {data : Bytes}
    (whole : (proc.stash ++ data).length = stashBufferSize)
    (inFile : done.length + data.length < 2 ^ 64) :
    ∃ flow', flow.write (proc.stash ++ data) stashBufferSize flow.writeOffset = some flow' ∧
      flow'.writeOffset = flow.writeOffset + stashBufferSize ∧
      Filling total (done ++ data) { proc with stash := [] } flow' := by
  have nonempty : proc.stash ++ data ≠ [] := by
    intro nothing
    rw [nothing] at whole
    cases whole
  have written := write_spec nonempty whole.le filling.singleSize flow.writeOffset
  have length := filling.length
  have small : size64 (flow.writeOffset + stashBufferSize) = flow.writeOffset + stashBufferSize := by
    rw [List.length_append] at whole
    exact Nat.mod_eq_of_lt (by omega)
  rw [whole, if_pos rfl, small] at written
  refine ⟨_, written, rfl, filling.running, ?_, ?_, by simp [stashBufferSize], ?_, ?_⟩
  · rw [← filling.bytes]
    simp
  · simp only [List.flatten_append, List.length_append, filling.offset]
    simpa using whole.symm
  · intro item member
    rcases List.mem_append.mp member with member | member
    · exact filling.full item member
    · rw [List.mem_singleton.mp member, whole]
  · exact filling.untouched

/-- Data that does not fill the stash stays in it. -/
theorem Filling.keep (filling : Filling total done proc flow) (data : Bytes)
    (room : (proc.stash ++ data).length < stashBufferSize) :
    Filling total (done ++ data) { proc with stash := proc.stash ++ data } flow :=
  ⟨filling.running, by rw [← filling.bytes, List.append_assoc], filling.offset, room,
    filling.full, filling.untouched⟩

theorem fillStash_fits {start : Nat} {data stash : Bytes}
    (room : data.length ≤ stashBufferSize - stash.length) :
    fillStash start data stash flow = some (data, stash, flow) := by
  rw [fillStash, dif_neg (by omega)]

/-- One turn of the fill loop, up to the write. -/
theorem fillStash_turn {start : Nat} {data stash : Bytes} (room : stash.length < stashBufferSize)
    (more : stashBufferSize - stash.length < data.length) :
    fillStash start data stash flow =
      match flow.write (stash ++ data.take (stashBufferSize - stash.length)) stashBufferSize
          (sub64 start stash.length) with
      | none => none
      | some flow => fillStash start (data.drop (stashBufferSize - stash.length)) [] flow := by
  have cut : (data.take (stashBufferSize - stash.length)).length =
      stashBufferSize - stash.length := by
    rw [List.length_take]
    omega
  have nonempty : data.take (stashBufferSize - stash.length) ≠ [] := by
    intro nothing
    rw [nothing, List.length_nil] at cut
    omega
  rw [fillStash, dif_pos more]
  simp only [stashCopy_spec nonempty cut.le]

/-- A call at the right offset that gets past the stash at most once succeeds. -/
theorem Filling.chunk (filling : Filling total done proc flow) {data : Bytes} (nonempty : data ≠ [])
    (inFile : done.length + data.length < 2 ^ 64)
    (fits : proc.stash.length + data.length < 2 * stashBufferSize) :
    ∃ proc' flow', unCompressDataProducer proc flow (some data) done.length false =
        some (proc', flow') ∧ Filling total (done ++ data) proc' flow' := by
  have length := filling.length
  have room := filling.room
  have positive := List.length_pos_iff.mpr nonempty
  have accepted : ¬ (data.length = 0 ∨ done.length < proc.stash.length) := by omega
  have running : ¬ proc.isStopRun = true := by simp [filling.running]
  rw [unCompressDataProducer, if_neg running]
  simp only [accepted, if_false]
  have stashOffset : sub64 done.length proc.stash.length = flow.writeOffset := by
    simp only [sub64]
    omega
  rcases Nat.lt_or_ge (stashBufferSize - proc.stash.length) data.length with more | less
  · -- the stash is filled up and written out once, the rest is stashed
    have whole : (proc.stash ++ data.take (stashBufferSize - proc.stash.length)).length =
        stashBufferSize := by
      rw [List.length_append, List.length_take]
      omega
    have taken : (data.take (stashBufferSize - proc.stash.length)).length =
        stashBufferSize - proc.stash.length := by
      rw [List.length_take]
      omega
    obtain ⟨flow', written, _, filling'⟩ := filling.flush whole (by omega)
    have restLength : (data.drop (stashBufferSize - proc.stash.length)).length =
        data.length - (stashBufferSize - proc.stash.length) := List.length_drop
    have restNonempty : data.drop (stashBufferSize - proc.stash.length) ≠ [] := by
      intro nothing
      rw [nothing, List.length_nil] at restLength
      omega
    have restRoom : (data.drop (stashBufferSize - proc.stash.length)).length <
        stashBufferSize := by omega
    have kept := filling'.keep (data.drop (stashBufferSize - proc.stash.length))
      (by simpa using restRoom)
    rw [List.append_assoc, List.take_append_drop] at kept
    rw [fillStash_turn room more, stashOffset, written]
    simp only
    rw [fillStash_fits (by simpa using restRoom.le)]
    simp only
    rw [stashCopy_spec restNonempty (by simpa using restRoom.le)]
    simp only [List.nil_append, restRoom.ne, if_false]
    exact ⟨_, _, rfl, kept⟩
  · rw [fillStash_fits less]
    simp only
    rw [stashCopy_spec nonempty less]
    simp only
    split
    · rename_i whole
      obtain ⟨flow', written, _, filling'⟩ := filling.flush whole inFile
      have offset : size64 (sub64 done.length (proc.stash ++ data).length + data.length) =
          flow.writeOffset := by
        rw [List.length_append] at whole
        simp only [size64, sub64, List.length_append]
        omega
      rw [offset, whole, written]
      exact ⟨_, _, rfl, filling'⟩
    · rename_i short
      refine ⟨_, _, rfl, filling.keep data ?_⟩
      rw [List.length_append] at short ⊢
      omega

/-- A call that would have to write out twice fails: the second write is not at
the stream's write offset. -/
theorem Filling.chunk_fails (filling : Filling total done proc flow) {data : Bytes}
    (inFile : done.length + data.length < 2 ^ 64)
    (large : 2 * stashBufferSize ≤ proc.stash.length + data.length) :
    unCompressDataProducer proc flow (some data) done.length false = none := by
  have length := filling.length
  have room := filling.room
  have sized : stashBufferSize = 4194304 := rfl
  have more : stashBufferSize - proc.stash.length < data.length := by omega
  have accepted : ¬ (data.length = 0 ∨ done.length < proc.stash.length) := by omega
  have running : ¬ proc.isStopRun = true := by simp [filling.running]
  rw [unCompressDataProducer, if_neg running]
  simp only [accepted, if_false]
  have stashOffset : sub64 done.length proc.stash.length = flow.writeOffset := by
    simp only [sub64]
    omega
  have whole : (proc.stash ++ data.take (stashBufferSize - proc.stash.length)).length =
      stashBufferSize := by
    rw [List.length_append, List.length_take]
    omega
  have taken : (data.take (stashBufferSize - proc.stash.length)).length =
      stashBufferSize - proc.stash.length := by
    rw [List.length_take]
    omega
  obtain ⟨flow', written, offset', filling'⟩ := filling.flush whole (by omega)
  generalize rest : data.drop (stashBufferSize - proc.stash.length) = behind
  have restLength : behind.length = data.length - (stashBufferSize - proc.stash.length) := by
    rw [← rest, List.length_drop]
  rw [fillStash_turn room more, stashOffset, written, rest]
  simp only
  rcases Nat.lt_or_ge stashBufferSize behind.length with again | last
  · have mismatch : flow'.writeOffset ≠ sub64 done.length ([] : Bytes).length := by
      simp only [sub64, List.length_nil]
      omega
    rw [fillStash_turn (by simp [sized]) (by simpa using again), write_mismatch mismatch]
  · have nonempty : behind ≠ [] := by
      intro nothing
      rw [nothing, List.length_nil] at restLength
      omega
    have full : behind.length = stashBufferSize := by omega
    have mismatch : flow'.writeOffset ≠
        size64 (sub64 done.length behind.length + behind.length) := by
      simp only [size64, sub64]
      omega
    rw [fillStash_fits (by simpa using last)]
    simp only
    rw [stashCopy_spec nonempty (by simpa using last)]
    simp only [List.nil_append, full, if_true]
    rw [full] at mismatch
    rw [write_mismatch mismatch]

/-- A stream that was only written to is ready to be read from its start. -/
theorem readable_of_untouched
    (untouched : { flow with ring := [], writeOffset := 0 } =
      FlowDataStream.create total stashBufferSize)
    (fits : ∀ item ∈ flow.ring, item ≠ [] ∧ item.length ≤ stashBufferSize) :
    flow.Readable ∧ flow.pending = flow.ring.flatten ∧ flow.readOffset = 0 := by
  have buff : flow.buff = List.replicate maxFlowBufferSize 0 :=
    congrArg FlowDataStream.buff untouched
  have avail : flow.avail = 0 := congrArg FlowDataStream.avail untouched
  have bufOffset : flow.bufOffset = 0 := congrArg FlowDataStream.bufOffset untouched
  have readOffset : flow.readOffset = 0 := congrArg FlowDataStream.readOffset untouched
  refine ⟨⟨?_, ?_, fun _ => bufOffset, fits⟩, ?_, readOffset⟩
  · rw [buff, List.length_replicate]
  · rw [avail, bufOffset]
    exact Nat.zero_le _
  · rw [FlowDataStream.pending, avail, slice_zero_length, List.nil_append]

theorem Filling.fits (filling : Filling total done proc flow) :
    ∀ item ∈ flow.ring, item ≠ [] ∧ item.length ≤ stashBufferSize := by
  intro item member
  have full := filling.full item member
  refine ⟨fun nothing => ?_, full.le⟩
  rw [nothing] at full
  cases full

/-- The finishing call writes out what is stashed. -/
theorem Filling.finish (filling : Filling total done proc flow) (complete : done.length = total)
    (inFile : done.length < 2 ^ 64) :
    ∃ proc' flow', unCompressDataProducer proc flow none 0 true = some (proc', flow') ∧
      flow'.ring.flatten = done ∧ flow'.Readable ∧ flow'.pending = done ∧
      flow'.readOffset = 0 := by
  have length := filling.length
  have running : ¬ proc.isStopRun = true := by simp [filling.running]
  rw [unCompressDataProducer, if_neg running]
  simp only [if_true]
  split
  · rename_i stashed
    have nonempty : proc.stash ≠ [] := fun nothing => stashed (by rw [nothing]; rfl)
    have offset : sub64 flow.fileLength proc.stash.length = flow.writeOffset := by
      rw [filling.fileLength]
      simp only [sub64]
      omega
    rw [write_spec nonempty filling.room.le filling.singleSize, if_pos offset.symm]
    let flow' : FlowDataStream := { flow with
      ring := flow.ring ++ [proc.stash]
      writeOffset := size64 (flow.writeOffset + proc.stash.length) }
    have bytes : flow'.ring.flatten = done := by
      rw [← filling.bytes]
      simp [flow']
    have fits : ∀ item ∈ flow'.ring, item ≠ [] ∧ item.length ≤ stashBufferSize := by
      intro item member
      rcases List.mem_append.mp member with member | member
      · exact filling.fits item member
      · rw [List.mem_singleton.mp member]
        exact ⟨nonempty, filling.room.le⟩
    obtain ⟨readable, pending, readOffset⟩ :=
      readable_of_untouched (show { flow' with ring := [], writeOffset := 0 } =
        FlowDataStream.create total stashBufferSize from filling.untouched) fits
    exact ⟨_, flow', rfl, bytes, readable, pending.trans bytes, readOffset⟩
  · rename_i empty
    have nothing : proc.stash = [] := List.eq_nil_of_length_eq_zero (not_not.mp empty)
    have bytes : flow.ring.flatten = done := by
      rw [← filling.bytes, nothing, List.append_nil]
    obtain ⟨readable, pending, readOffset⟩ :=
      readable_of_untouched filling.untouched filling.fits
    exact ⟨proc, flow, rfl, bytes, readable, pending.trans bytes, readOffset⟩

end

/-- No chunk reaches the end of a second stash, counted from the stashed bytes. -/
def OneStashEach (start : Nat) : List Bytes → Prop
  | [] => True
  | chunk :: rest =>
      start % stashBufferSize + chunk.length < 2 * stashBufferSize ∧
        OneStashEach (start + chunk.length) rest

/-- Run lemma of the producer, from any state between two calls. -/
theorem Filling.produceAll {total : Nat} {done : Bytes} {proc : BinFlowWrite}
    {flow : FlowDataStream} (filling : Filling total done proc flow) (chunks : List Bytes)
    (nonempty : ∀ chunk ∈ chunks, chunk ≠ [])
    (complete : done.length + chunks.flatten.length = total) (inFile : total < 2 ^ 64) :
    (OneStashEach done.length chunks ∧ ∃ proc' flow',
        FlowUpdate.produceAll proc flow done.length chunks = some (proc', flow') ∧
          flow'.ring.flatten = done ++ chunks.flatten ∧ flow'.Readable ∧
          flow'.pending = done ++ chunks.flatten ∧ flow'.readOffset = 0) ∨
      (¬ OneStashEach done.length chunks ∧
        FlowUpdate.produceAll proc flow done.length chunks = none) := by
  induction chunks generalizing done proc flow with
  | nil =>
      simp only [List.flatten_nil, List.length_nil, Nat.add_zero, List.append_nil] at complete ⊢
      exact .inl ⟨trivial, filling.finish complete (by omega)⟩
  | cons chunk rest ih =>
      have nonemptyRest : ∀ other ∈ rest, other ≠ [] :=
        fun other member => nonempty other (List.mem_cons_of_mem chunk member)
      rw [List.flatten_cons, List.length_append] at complete
      simp only [FlowUpdate.produceAll, OneStashEach, ← filling.stash_length]
      by_cases fits : proc.stash.length + chunk.length < 2 * stashBufferSize
      · obtain ⟨proc', flow', called, filling'⟩ :=
          filling.chunk (nonempty chunk (by simp)) (by omega) fits
        have complete' : (done ++ chunk).length + rest.flatten.length = total := by
          rw [List.length_append]
          omega
        have tail := ih filling' nonemptyRest complete'
        rw [called]
        simp only [fits, true_and, List.flatten_cons]
        rw [← List.append_assoc, ← List.length_append]
        exact tail
      · refine .inr ⟨fun both => fits both.1, ?_⟩
        rw [filling.chunk_fails (by omega) (by omega)]

/-- Every call succeeds, what was pushed is the chunks, and reads at successive
offsets give it back. -/
def PipelineFaithful (chunks : List Bytes) (reads : List Nat) : Prop :=
  ∃ proc flow,
    produceAll ⟨[], false⟩ (FlowDataStream.create chunks.flatten.length stashBufferSize) 0 chunks =
      some (proc, flow) ∧
    flow.ring.flatten = chunks.flatten ∧
    flow.readAll 0 reads = some (pieces chunks.flatten reads)

/-- The pipeline is faithful just when no chunk makes the fill loop write twice
and no read asks for four gigabytes. -/
theorem pipelineFaithful_iff (chunks : List Bytes) (reads : List Nat)
    (nonempty : ∀ chunk ∈ chunks, chunk ≠ []) (inFile : chunks.flatten.length < 2 ^ 64)
    (enough : reads.sum ≤ chunks.flatten.length) :
    PipelineFaithful chunks reads ↔
      OneStashEach 0 chunks ∧ ∀ needRead ∈ reads, needRead < 2 ^ 32 := by
  have start := Filling.start chunks.flatten.length
  rcases start.produceAll chunks nonempty (by simp) inFile with
    ⟨safe, proc, flow, produced, pushed, readable, pending, offset⟩ | ⟨tooMuch, failed⟩
  · simp only [List.nil_append] at pushed pending
    have readBack := FlowDataStream.readAll_eq_pieces_iff readable reads (by rw [pending]; exact enough)
      (by rw [pending, offset]; omega)
    rw [pending, offset] at readBack
    constructor
    · rintro ⟨proc', flow', produced', _, outputs⟩
      have same := produced.symm.trans produced'
      cases same
      exact ⟨safe, readBack.mp outputs⟩
    · rintro ⟨_, small⟩
      exact ⟨proc, flow, produced, pushed, readBack.mpr small⟩
  · constructor
    · rintro ⟨proc, flow, produced, _⟩
      rw [List.length_nil] at failed
      rw [failed] at produced
      cases produced
    · rintro ⟨safe, _⟩
      exact absurd safe tooMuch

theorem first_chunk_fails {chunk : Bytes} (total : Nat) (rest : List Bytes)
    (inFile : chunk.length < 2 ^ 64) (large : 2 * stashBufferSize ≤ chunk.length) :
    produceAll ⟨[], false⟩ (FlowDataStream.create total stashBufferSize) 0 (chunk :: rest) = none := by
  have start := Filling.start total
  have nothing : ([] : Bytes).length = 0 := rfl
  have behind : ([] : Bytes).length + chunk.length < 2 ^ 64 := by omega
  have beyond : 2 * stashBufferSize ≤ ([] : Bytes).length + chunk.length := by omega
  have fails := @Filling.chunk_fails total [] ⟨[], false⟩ _ start chunk behind beyond
  rw [nothing] at fails
  rw [produceAll, fails]

/-- A single chunk of two stashes fails. -/
theorem two_stashes_fail :
    ¬ PipelineFaithful [List.replicate (2 * stashBufferSize) 7] [] := by
  rintro ⟨proc, flow, produced, _⟩
  have length : (List.replicate (2 * stashBufferSize) (7 : UInt8)).length = 2 * stashBufferSize :=
    List.length_replicate
  have sized : stashBufferSize = 4194304 := rfl
  have fails := first_chunk_fails [List.replicate (2 * stashBufferSize) (7 : UInt8)].flatten.length []
    (by rw [length]; omega) (by rw [length])
  rw [fails] at produced
  cases produced

theorem pipelineFaithful_small :
    PipelineFaithful [[1, 2, 3], [4]] [2, 2] ↔
      OneStashEach 0 [[1, 2, 3], [4]] ∧ ∀ needRead ∈ [2, 2], needRead < 2 ^ 32 :=
  pipelineFaithful_iff [[1, 2, 3], [4]] [2, 2] (by decide) (by decide) (by decide)

end Updater.FlowUpdate
