import Updater.DiffPatch.Lz4Adapter

/-! Which blocks the LZ4 adapters pass to the compressor, whatever the pieces are in which the data is
written to them. -/

set_option autoImplicit false

namespace Updater.DiffPatch.Lz4

open Updater.Base

section Deliver

variable {Sink : Type} (compress : Sink → Bytes → Sink × Bool)

/-- Blocks are compressed one by one, up to one that fails. -/
def deliver : Sink → List Bytes → List Bytes → Except Stop Unit × Sink × List Bytes
  | sink, passed, [] => (.ok (), sink, passed)
  | sink, passed, data :: blocks =>
      if (compress sink data).2 then deliver (compress sink data).1 (passed ++ [data]) blocks
      else (.error .failed, (compress sink data).1, passed ++ [data])

/-- What a writer of whole blocks does: it compresses them and ends. -/
def inBlocks (compressEnd : Sink → Sink × Bool) (sink : Sink) (blocks : List Bytes) :
    Except Stop Unit × Sink × List Bytes :=
  match deliver compress sink [] blocks with
  | (.error stop, sink, passed) => (.error stop, sink, passed)
  | (.ok (), sink, passed) =>
      (if (compressEnd sink).2 then .ok () else .error .failed, (compressEnd sink).1, passed)

variable {compress} {sink sink' : Sink} {passed passed' blocks more : List Bytes} {stop : Stop}

theorem deliver_append_ok (done : deliver compress sink passed blocks = (.ok (), sink', passed')) :
    deliver compress sink passed (blocks ++ more) = deliver compress sink' passed' more := by
  induction blocks generalizing sink passed with
  | nil =>
      cases done
      rfl
  | cons data blocks hypothesis =>
      rw [deliver] at done
      rw [List.cons_append, deliver]
      split at done
      case isTrue compressed =>
        rw [if_pos compressed]
        exact hypothesis done
      case isFalse => cases done

theorem deliver_append_error
    (failed : deliver compress sink passed blocks = (.error stop, sink', passed')) :
    deliver compress sink passed (blocks ++ more) = (.error stop, sink', passed') := by
  induction blocks generalizing sink passed with
  | nil => cases failed
  | cons data blocks hypothesis =>
      rw [deliver] at failed
      rw [List.cons_append, deliver]
      split at failed
      case isTrue compressed =>
        rw [if_pos compressed]
        exact hypothesis failed
      case isFalse stopped =>
        rw [if_neg stopped]
        exact failed

/-- A block that fails is an error, and no access outside of a buffer. -/
theorem deliver_error
    (failed : deliver compress sink passed blocks = (.error stop, sink', passed')) :
    stop = .failed := by
  induction blocks generalizing sink passed with
  | nil => cases failed
  | cons data blocks hypothesis =>
      rw [deliver] at failed
      split at failed
      · exact hypothesis failed
      · cases failed
        rfl

theorem deliver_passed : ∃ more, (deliver compress sink passed blocks).2.2 = passed ++ more := by
  induction blocks generalizing sink passed with
  | nil => exact ⟨[], (List.append_nil passed).symm⟩
  | cons data blocks hypothesis =>
      rw [deliver]
      split
      · obtain ⟨more, same⟩ := @hypothesis (compress sink data).1 (passed ++ [data])
        exact ⟨data :: more, by rw [same, List.append_assoc]; rfl⟩
      · exact ⟨[data], rfl⟩

theorem compressData_eq (st : Buffered Sink) (data : Bytes) : compressData compress st data =
    (if (compress st.sink data).2 then .ok () else .error .failed,
      { st with sink := (compress st.sink data).1, passed := st.passed ++ [data] }) := rfl

end Deliver

section Writes

variable {Sink : Type} {adapter : Lz4Adapter} {compress : Sink → Bytes → Sink × Bool}
  {st : Buffered Sink}

theorem blockSize_pos (adapter : Lz4Adapter) : 0 < adapter.blockSize :=
  Nat.pow_pos Nat.two_pos

theorem inSize_eq (adapter : Lz4Adapter) :
    adapter.inSize = min adapter.blockSize lz4bBlockSize := by
  rw [Lz4Adapter.inSize]
  split
  · omega
  · omega

theorem inSize_pos (adapter : Lz4Adapter) : 0 < adapter.inSize := by
  have positive := blockSize_pos adapter
  rw [inSize_eq, lz4bBlockSize]
  omega

/-- The data that waits for the rest of its block. -/
def Buffered.pending (st : Buffered Sink) : Bytes :=
  st.inData.take st.currDataSize

/-- The buffer between two writes: it is not full. -/
structure Ready (adapter : Lz4Adapter) (st : Buffered Sink) : Prop where
  size : st.inData.length = adapter.inSize
  room : st.currDataSize < adapter.inSize

theorem Ready.length_pending (ready : Ready adapter st) :
    st.pending.length = st.currDataSize := by
  rw [Buffered.pending, List.length_take, ready.size]
  exact Nat.min_eq_left (Nat.le_of_lt ready.room)

theorem memcpyS_ok {buffer source : Bytes} {start destMax : Nat} (some_ : 0 < destMax)
    (fits : source.length ≤ destMax) (inside : start + destMax ≤ buffer.length) :
    memcpyS buffer start destMax source = .ok (writeAt buffer start source) := by
  rw [memcpyS, if_neg (by omega), if_neg (by omega)]

theorem take_writeAt {buffer source : Bytes} {start : Nat}
    (inside : start + source.length ≤ buffer.length) :
    (writeAt buffer start source).take (start + source.length) = buffer.take start ++ source := by
  have length : (buffer.take start ++ source).length = start + source.length := by
    rw [List.length_append, List.length_take]
    omega
  rw [writeAt, ← length]
  exact List.take_left

/-- What comes of writing data behind what is pending: the whole blocks of both are passed, and the
rest is pending, unless a block fails. -/
def Wrote (adapter : Lz4Adapter) (compress : Sink → Bytes → Sink × Bool) (st : Buffered Sink)
    (content : Bytes) (result : Except Stop Unit × Buffered Sink) : Prop :=
  match deliver compress st.sink st.passed (wholeBlocks adapter.inSize content) with
  | (.error stop, sink, passed) =>
      result.1 = .error stop ∧ result.2.sink = sink ∧ result.2.passed = passed
  | (.ok (), sink, passed) =>
      result.1 = .ok () ∧ result.2.sink = sink ∧ result.2.passed = passed ∧
        Ready adapter result.2 ∧ result.2.pending = restOf adapter.inSize content

/-- The loop stops at once where no block is left. -/
theorem compressDirectly_short {remain : Bytes} (short : remain.length < st.inData.length) :
    compressDirectly adapter compress st remain = (.ok remain, st) := by
  rw [compressDirectly, if_neg fun held => Nat.not_lt.mpr held.1 short]

/-- Where the buffer has the size of a block, the loop takes whole blocks. -/
theorem compressDirectly_whole (ready : st.inData.length = adapter.inSize)
    (even : adapter.inSize = adapter.blockSize) (remain : Bytes) :
    compressDirectly adapter compress st remain =
      match deliver compress st.sink st.passed (wholeBlocks adapter.inSize remain) with
      | (.error stop, sink, passed) => (.error stop, { st with sink := sink, passed := passed })
      | (.ok (), sink, passed) =>
          (.ok (restOf adapter.inSize remain), { st with sink := sink, passed := passed }) := by
  induction shorter : remain.length using Nat.strongRecOn generalizing st remain with
  | ind length hypothesis =>
      have positive := inSize_pos adapter
      by_cases long : adapter.inSize ≤ remain.length
      · have some_ : remain ≠ [] := List.ne_nil_of_length_pos (Nat.lt_of_lt_of_le positive long)
        rw [compressDirectly, if_pos ⟨ready.symm ▸ long, some_⟩, ← even, if_pos long,
          wholeBlocks_of_le positive long, restOf_of_le positive long, deliver]
        dsimp only
        rw [compressData_eq]
        by_cases done : (compress st.sink (remain.take adapter.inSize)).2 = true
        · rw [if_pos done, if_pos done]
          exact @hypothesis (remain.drop adapter.inSize).length
            (by rw [List.length_drop]; omega) { st with
              sink := (compress st.sink (remain.take adapter.inSize)).1
              passed := st.passed ++ [remain.take adapter.inSize] } ready _ rfl
        · rw [if_neg done, if_neg done]
      · have short := Nat.lt_of_not_le long
        rw [compressDirectly_short (ready.symm ▸ short), wholeBlocks_of_lt short,
          restOf_of_lt short]
        rfl

theorem compressDirectly_even {remain : Bytes} (ready : st.inData.length = adapter.inSize)
    (even : adapter.inSize = adapter.blockSize ∨ remain.length < adapter.inSize) :
    compressDirectly adapter compress st remain =
      match deliver compress st.sink st.passed (wholeBlocks adapter.inSize remain) with
      | (.error stop, sink, passed) => (.error stop, { st with sink := sink, passed := passed })
      | (.ok (), sink, passed) =>
          (.ok (restOf adapter.inSize remain), { st with sink := sink, passed := passed }) := by
  cases even with
  | inl same => exact compressDirectly_whole ready same remain
  | inr short =>
      rw [compressDirectly_short (ready.symm ▸ short), wholeBlocks_of_lt short, restOf_of_lt short]
      rfl

/-- A write that fills the buffer: it is compressed, and what is behind it needs none. -/
theorem writeData_of_le (ready : Ready adapter st) {srcData : Bytes}
    (long : adapter.inSize ≤ (st.pending ++ srcData).length) :
    writeData adapter compress st srcData =
      match compressData compress
          { st with inData := (st.pending ++ srcData).take adapter.inSize }
          ((st.pending ++ srcData).take adapter.inSize) with
      | (.error stop, st) => (.error stop, st)
      | (.ok (), filled) =>
          writeRemain adapter compress filled ((st.pending ++ srcData).drop adapter.inSize) := by
  have waiting := ready.length_pending
  have size := ready.size
  have room := ready.room
  rw [List.length_append, waiting] at long
  have length : (srcData.take (st.inData.length - st.currDataSize)).length =
      st.inData.length - st.currDataSize := by
    rw [List.length_take]
    omega
  have inside : st.currDataSize +
      (srcData.take (st.inData.length - st.currDataSize)).length ≤ st.inData.length := by omega
  have first : writeAt st.inData st.currDataSize
      (srcData.take (st.inData.length - st.currDataSize)) =
        (st.pending ++ srcData).take adapter.inSize := by
    have whole := take_writeAt inside
    rw [length, Nat.add_sub_cancel' (by omega), List.take_of_length_le
      (Nat.le_of_eq (length_writeAt inside))] at whole
    rw [whole, List.take_append, waiting, size, ← Buffered.pending,
      List.take_of_length_le (by omega : st.pending.length ≤ adapter.inSize)]
  have behind : srcData.drop (st.inData.length - st.currDataSize) =
      (st.pending ++ srcData).drop adapter.inSize := by
    rw [List.drop_append, waiting, size,
      List.drop_of_length_le (by omega : st.pending.length ≤ adapter.inSize), List.nil_append]
  rw [writeData, if_neg (by omega), if_neg (by omega)]
  dsimp only
  rewrite [memcpyS_ok (by omega) (Nat.le_of_eq length) (by omega), first, behind]
  rfl

theorem writeRemain_wrote {remain : Bytes} (full : st.inData.length = adapter.inSize)
    (even : adapter.inSize = adapter.blockSize ∨ remain.length < adapter.inSize) :
    Wrote adapter compress st remain (writeRemain adapter compress st remain) := by
  have positive := inSize_pos adapter
  have loop := @compressDirectly_even _ adapter compress { st with currDataSize := 0 } remain full even
  rw [writeRemain, Wrote, loop]
  dsimp only
  cases delivered : deliver compress st.sink st.passed (wholeBlocks adapter.inSize remain) with
  | mk outcome reached =>
      cases outcome with
      | error stop => exact ⟨rfl, rfl, rfl⟩
      | ok =>
          have less : (restOf adapter.inSize remain).length < adapter.inSize :=
            length_restOf_lt positive
          dsimp only
          by_cases none_ : restOf adapter.inSize remain = []
          · rw [if_pos none_]
            exact ⟨rfl, rfl, rfl, ⟨full, positive⟩, none_.symm⟩
          · have some_ := List.length_pos_of_ne_nil none_
            have inside : 0 + (restOf adapter.inSize remain).length ≤ st.inData.length := by omega
            have pending := take_writeAt inside
            rw [Nat.zero_add] at pending
            rw [if_neg none_, memcpyS_ok (full ▸ positive) (by omega) (by omega)]
            exact ⟨rfl, rfl, rfl, ⟨(length_writeAt inside).trans full, less⟩, pending⟩

/-- A write, where the blocks have the size of the buffer or no second one begins. -/
theorem writeData_wrote (ready : Ready adapter st) (srcData : Bytes)
    (even : adapter.inSize = adapter.blockSize ∨
      (st.pending ++ srcData).length ≤ adapter.inSize) :
    Wrote adapter compress st (st.pending ++ srcData) (writeData adapter compress st srcData) := by
  have positive := inSize_pos adapter
  have waiting := ready.length_pending
  have size := ready.size
  have room := ready.room
  by_cases long : adapter.inSize ≤ (st.pending ++ srcData).length
  · rw [writeData_of_le ready long, compressData_eq, Wrote, wholeBlocks_of_le positive long,
      restOf_of_le positive long, deliver]
    have full : ((st.pending ++ srcData).take adapter.inSize).length = adapter.inSize := by
      rw [List.length_take]
      exact Nat.min_eq_left long
    have evenBehind : adapter.inSize = adapter.blockSize ∨
        ((st.pending ++ srcData).drop adapter.inSize).length < adapter.inSize := by
      rw [List.length_drop]
      omega
    generalize (st.pending ++ srcData).take adapter.inSize = block at full ⊢
    generalize (st.pending ++ srcData).drop adapter.inSize = remain at evenBehind ⊢
    dsimp only
    by_cases done : (compress st.sink block).2 = true
    · rw [if_pos done, if_pos done]
      dsimp only
      exact @writeRemain_wrote _ adapter compress { st with
        inData := block
        sink := (compress st.sink block).1
        passed := st.passed ++ [block] } _ full evenBehind
    · rw [if_neg done, if_neg done]
      exact ⟨rfl, rfl, rfl⟩
  · have short := Nat.lt_of_not_le long
    rw [List.length_append, waiting] at long
    have inside : st.currDataSize + srcData.length ≤ st.inData.length := by omega
    rw [writeData, if_pos (by omega), memcpyS_ok (by omega) (by omega) (by omega), Wrote,
      wholeBlocks_of_lt short, restOf_of_lt short, deliver]
    refine ⟨rfl, rfl, rfl, ⟨(length_writeAt inside).trans size, ?_⟩, take_writeAt inside⟩
    dsimp only
    omega

theorem writeAll_wrote (ready : Ready adapter st) (pieces : List Bytes)
    (even : adapter.inSize = adapter.blockSize ∨
      (st.pending ++ pieces.flatten).length ≤ adapter.inSize) :
    Wrote adapter compress st (st.pending ++ pieces.flatten)
      (writeAll adapter compress st pieces) := by
  have positive := inSize_pos adapter
  induction pieces generalizing st with
  | nil =>
      have short : st.pending.length < adapter.inSize := ready.length_pending ▸ ready.room
      rw [List.flatten_nil, List.append_nil, Wrote, wholeBlocks_of_lt short, restOf_of_lt short]
      exact ⟨rfl, rfl, rfl, ready, rfl⟩
  | cons srcData pieces hypothesis =>
      rw [List.flatten_cons, ← List.append_assoc] at even ⊢
      have wrote := @writeData_wrote _ _ compress _ ready srcData (by
        rw [List.length_append] at even
        omega)
      obtain ⟨blocks, rest⟩ := blocks_append positive (st.pending ++ srcData) pieces.flatten
      rw [Wrote] at wrote
      rw [Wrote, blocks, rest, writeAll]
      cases delivered : deliver compress st.sink st.passed
          (wholeBlocks adapter.inSize (st.pending ++ srcData)) with
      | mk outcome reached =>
          obtain ⟨sink, passed⟩ := reached
          rw [delivered] at wrote
          generalize writeData adapter compress st srcData = result at wrote ⊢
          obtain ⟨ended, next⟩ := result
          cases outcome with
          | error stop =>
              obtain ⟨rfl, rfl, rfl⟩ := wrote
              rw [deliver_append_error delivered]
              exact ⟨rfl, rfl, rfl⟩
          | ok =>
              obtain ⟨rfl, rfl, rfl, ready', pending⟩ := wrote
              rw [deliver_append_ok delivered, ← pending]
              dsimp only at pending ready' ⊢
              refine hypothesis ready' (even.imp_right fun fits => ?_)
              have shorter := Nat.mod_le (st.pending ++ srcData).length adapter.inSize
              rw [← length_restOf, ← pending] at shorter
              rw [List.length_append] at fits ⊢
              omega

theorem opened_ready (sink : Sink) : Ready adapter (opened adapter sink) :=
  ⟨List.length_replicate, inSize_pos adapter⟩

theorem opened_pending (sink : Sink) : (opened adapter sink).pending = [] :=
  List.take_zero

/-- Where the buffer has the size of a block or all data fits into it, the pieces do not matter. -/
theorem recompress_even {compressEnd : Sink → Sink × Bool} (sink : Sink) (pieces : List Bytes)
    (even : adapter.inSize = adapter.blockSize ∨ pieces.flatten.length ≤ adapter.inSize) :
    recompress adapter compress compressEnd sink pieces =
      inBlocks compress compressEnd sink (blocksOf adapter.inSize pieces.flatten) := by
  have wrote := @writeAll_wrote _ _ compress _ (opened_ready sink) pieces
    (by rwa [opened_pending, List.nil_append])
  rw [opened_pending, List.nil_append, Wrote] at wrote
  rw [recompress, inBlocks, blocksOf_eq (inSize_pos adapter)]
  generalize writeAll adapter compress (opened adapter sink) pieces = result at wrote ⊢
  obtain ⟨ended, st⟩ := result
  change match deliver compress sink [] (wholeBlocks adapter.inSize pieces.flatten) with
    | (.error stop, sink, passed) => _
    | (.ok (), sink, passed) => _ at wrote
  cases delivered : deliver compress sink [] (wholeBlocks adapter.inSize pieces.flatten) with
  | mk outcome reached =>
      obtain ⟨sink', passed⟩ := reached
      rw [delivered] at wrote
      cases outcome with
      | error stop =>
          obtain ⟨rfl, rfl, rfl⟩ := wrote
          rw [deliver_append_error delivered]
      | ok =>
          obtain ⟨rfl, rfl, rfl, ready, pending⟩ := wrote
          have waiting := ready.length_pending
          rw [deliver_append_ok delivered, ← pending]
          dsimp only at pending waiting ⊢
          unfold flushData
          by_cases none_ : st.pending = []
          · rw [none_, List.length_nil] at waiting
            rw [if_pos none_, if_neg (by omega)]
            rfl
          · have some_ := List.length_pos_of_ne_nil none_
            rw [if_neg none_, if_pos (by omega), compressData_eq, deliver, ← Buffered.pending]
            by_cases done : (compress st.sink st.pending).2 = true
            · rw [if_pos done, if_pos done]
              rfl
            · rw [if_neg done, if_neg done]

/-- Blocks are only added to those passed. -/
theorem compressDirectly_passed (remain : Bytes) :
    ∃ more, (compressDirectly adapter compress st remain).2.passed = st.passed ++ more := by
  induction shorter : remain.length using Nat.strongRecOn generalizing st remain with
  | ind length hypothesis =>
      rw [compressDirectly]
      split
      case isTrue inside =>
        have some_ := List.length_pos_of_ne_nil inside.2
        have positive := blockSize_pos adapter
        dsimp only
        generalize turn : (if adapter.blockSize ≤ remain.length then adapter.blockSize
          else remain.length) = taken
        have least : 0 < taken := by
          rw [← turn]
          split
          · exact positive
          · exact some_
        rw [compressData_eq]
        by_cases done : (compress st.sink (remain.take taken)).2 = true
        · rw [if_pos done]
          obtain ⟨more, same⟩ := @hypothesis (remain.drop taken).length
            (by rw [List.length_drop]; omega) { st with
              sink := (compress st.sink (remain.take taken)).1
              passed := st.passed ++ [remain.take taken] } _ rfl
          exact ⟨_, same.trans (List.append_assoc _ _ _)⟩
        · rw [if_neg done]
          exact ⟨_, rfl⟩
      case isFalse => exact ⟨[], (List.append_nil _).symm⟩

theorem writeRemain_passed (remain : Bytes) :
    ∃ more, (writeRemain adapter compress st remain).2.passed = st.passed ++ more := by
  have grows := @compressDirectly_passed _ adapter compress { st with currDataSize := 0 } remain
  rw [writeRemain]
  split
  case h_1 reached =>
    rw [reached] at grows
    exact grows
  case h_2 reached =>
    rw [reached] at grows
    split
    · exact grows
    · split
      · exact grows
      · exact grows

theorem writeData_passed (srcData : Bytes) :
    ∃ more, (writeData adapter compress st srcData).2.passed = st.passed ++ more := by
  have none_ : ∃ more, st.passed = st.passed ++ more := ⟨[], (List.append_nil _).symm⟩
  rw [writeData]
  split
  · split
    · exact none_
    · exact none_
  · split
    · exact none_
    · dsimp only
      split
      · exact none_
      case h_2 inData _ =>
        rw [compressData_eq]
        by_cases done : (compress st.sink inData).2 = true
        · rw [if_pos done]
          obtain ⟨more, same⟩ := @writeRemain_passed _ adapter compress
            { inData := inData, currDataSize := st.currDataSize,
              sink := (compress st.sink inData).1, passed := st.passed ++ [inData] }
            (srcData.drop (st.inData.length - st.currDataSize))
          exact ⟨_, same.trans (List.append_assoc _ _ _)⟩
        · rw [if_neg done]
          exact ⟨_, rfl⟩

theorem writeAll_passed (pieces : List Bytes) :
    ∃ more, (writeAll adapter compress st pieces).2.passed = st.passed ++ more := by
  induction pieces generalizing st with
  | nil => exact ⟨[], (List.append_nil _).symm⟩
  | cons srcData pieces hypothesis =>
      obtain ⟨now, grows⟩ := @writeData_passed _ adapter compress st srcData
      rw [writeAll]
      split
      case h_1 reached => exact ⟨now, reached ▸ grows⟩
      case h_2 next reached =>
        obtain ⟨later, same⟩ := @hypothesis next
        rw [reached] at grows
        exact ⟨now ++ later, by rw [same, grows, List.append_assoc]⟩

/-- Once the buffer can be filled, its size is that of the first block. -/
theorem writeAll_first (ready : Ready adapter st) (nothing : st.passed = []) (pieces : List Bytes)
    (long : adapter.inSize ≤ (st.pending ++ pieces.flatten).length) :
    ∃ more, (writeAll adapter compress st pieces).2.passed =
      (st.pending ++ pieces.flatten).take adapter.inSize :: more := by
  induction pieces generalizing st with
  | nil =>
      rw [List.flatten_nil, List.append_nil, ready.length_pending] at long
      exact absurd ready.room (Nat.not_lt.mpr long)
  | cons srcData pieces hypothesis =>
      rw [List.flatten_cons, ← List.append_assoc] at long ⊢
      rw [writeAll]
      by_cases fills : adapter.inSize ≤ (st.pending ++ srcData).length
      · have first : ∃ more, (writeData adapter compress st srcData).2.passed =
            (st.pending ++ srcData).take adapter.inSize :: more := by
          rw [writeData_of_le ready fills, compressData_eq]
          generalize (st.pending ++ srcData).take adapter.inSize = block
          dsimp only
          by_cases done : (compress st.sink block).2 = true
          · rw [if_pos done, nothing]
            exact writeRemain_passed _
          · rw [if_neg done, nothing]
            exact ⟨[], rfl⟩
        obtain ⟨more, first⟩ := first
        rw [List.take_append_of_le_length fills]
        split
        case h_1 reached => exact ⟨more, reached ▸ first⟩
        case h_2 next reached =>
          obtain ⟨later, same⟩ := @writeAll_passed _ adapter compress next pieces
          rw [reached] at first
          exact ⟨more ++ later, by rw [same, first]; rfl⟩
      · have short := Nat.lt_of_not_le fills
        have wrote := @writeData_wrote _ _ compress _ ready srcData (.inr (Nat.le_of_lt short))
        rw [Wrote, wholeBlocks_of_lt short, restOf_of_lt short, deliver] at wrote
        obtain ⟨ended, -, passed, ready', pending⟩ := wrote
        split
        case h_1 reached =>
          rw [reached] at ended
          cases ended
        case h_2 next reached =>
          rw [reached] at passed ready' pending
          rw [← pending] at long ⊢
          exact hypothesis ready' (passed.trans nothing) long

/-- The pieces in which the data is written do not matter: the compressor gets the blocks of the
configured size, and no copy leaves the buffer. -/
structure Recompresses (adapter : Lz4Adapter) (compress : Sink → Bytes → Sink × Bool)
    (compressEnd : Sink → Sink × Bool) (sink : Sink) (pieces : List Bytes) : Prop where
  blocks : recompress adapter compress compressEnd sink pieces =
    inBlocks compress compressEnd sink (blocksOf adapter.blockSize pieces.flatten)
  inside : (recompress adapter compress compressEnd sink pieces).1 ≠ .error .outOfBounds

theorem inBlocks_inside {compressEnd : Sink → Sink × Bool} {sink : Sink} {blocks : List Bytes} :
    (inBlocks compress compressEnd sink blocks).1 ≠ .error .outOfBounds := by
  rw [inBlocks]
  split
  case h_1 failed =>
    rw [deliver_error failed]
    exact nofun
  case h_2 =>
    dsimp only
    split
    · exact nofun
    · exact nofun

theorem recompress_first {compressEnd : Sink → Sink × Bool} {sink : Sink} {pieces : List Bytes}
    (long : adapter.inSize ≤ pieces.flatten.length) :
    (recompress adapter compress compressEnd sink pieces).2.2.head? =
      some (pieces.flatten.take adapter.inSize) := by
  have first := @writeAll_first _ adapter compress _ (opened_ready sink) rfl pieces
    (by rwa [opened_pending, List.nil_append])
  rw [opened_pending, List.nil_append] at first
  obtain ⟨more, first⟩ := first
  rw [recompress]
  generalize writeAll adapter compress (opened adapter sink) pieces = result at first ⊢
  obtain ⟨ended, st⟩ := result
  cases ended with
  | error stop => exact congrArg List.head? first
  | ok =>
      have flushed : ∃ behind, (flushData compress compressEnd st).2.passed =
          st.passed ++ behind := by
        unfold flushData
        by_cases waits : 0 < st.currDataSize
        · rw [if_pos waits, compressData_eq]
          by_cases done : (compress st.sink (st.inData.take st.currDataSize)).2 = true
          · rw [if_pos done]
            exact ⟨_, rfl⟩
          · rw [if_neg done]
            exact ⟨_, rfl⟩
        · rw [if_neg waits]
          exact ⟨[], (List.append_nil _).symm⟩
      obtain ⟨behind, flushed⟩ := flushed
      dsimp only at first ⊢
      rw [flushed, first]
      rfl

theorem inBlocks_first {compressEnd : Sink → Sink × Bool} {sink : Sink} {data : Bytes}
    {blocks : List Bytes} (first : blocks.head? = some data) :
    (inBlocks compress compressEnd sink blocks).2.2.head? = some data := by
  cases blocks with
  | nil => cases first
  | cons own blocks =>
      cases first
      have passed : (deliver compress sink [] (data :: blocks)).2.2.head? = some data := by
        rw [deliver]
        split
        · obtain ⟨more, same⟩ := @deliver_passed _ compress (compress sink data).1 [data] blocks
          rw [List.nil_append, same]
          rfl
        · rfl
      rw [inBlocks]
      generalize deliver compress sink [] (data :: blocks) = result at passed
      obtain ⟨ended, sink', passed'⟩ := result
      cases ended with
      | error stop => exact passed
      | ok => exact passed

/-- The blocks have the configured size if and only if this is not above that of the buffer, or the
data is not. -/
theorem recompresses_iff (adapter : Lz4Adapter) (compress : Sink → Bytes → Sink × Bool)
    (compressEnd : Sink → Sink × Bool) (sink : Sink) (pieces : List Bytes) :
    Recompresses adapter compress compressEnd sink pieces ↔
      adapter.blockSize ≤ lz4bBlockSize ∨ pieces.flatten.length ≤ lz4bBlockSize := by
  have positive := blockSize_pos adapter
  have size := inSize_eq adapter
  constructor
  · intro recompresses
    by_contra large
    rw [not_or, not_le, not_le] at large
    have long : adapter.inSize ≤ pieces.flatten.length := by omega
    have some_ : pieces.flatten ≠ [] := List.ne_nil_of_length_pos (by omega)
    have head := @recompress_first _ adapter compress compressEnd sink pieces long
    rw [recompresses.blocks, inBlocks_first (blocksOf_head positive some_), Option.some.injEq] at head
    have lengths := congrArg List.length head
    rw [List.length_take, List.length_take] at lengths
    omega
  · intro small
    have even : adapter.inSize = adapter.blockSize ∨ pieces.flatten.length ≤ adapter.inSize := by
      omega
    have blocks : blocksOf adapter.inSize pieces.flatten =
        blocksOf adapter.blockSize pieces.flatten := by
      cases even with
      | inl same => rw [same]
      | inr fits => exact blocksOf_of_le (inSize_pos adapter) positive fits (by omega)
    have recompressed := @recompress_even _ adapter compress compressEnd sink pieces even
    rw [blocks] at recompressed
    exact ⟨recompressed, recompressed ▸ inBlocks_inside⟩

end Writes

section Adapters

variable {library : Lz4Library}

/-- `Lz4FrameAdapter` and `Lz4BlockAdapter` pass the blocks of the configured size to the compressor,
whatever the pieces that are written, if and only if this size is not above 4 MiB, or the data is
not. -/
theorem adapters_recompress_iff (adapter : Lz4Adapter) (output : Output library)
    (pieces : List Bytes) :
    (Recompresses adapter (frameCompressData adapter) (frameCompressEnd adapter) output pieces ↔
        adapter.blockSize ≤ lz4bBlockSize ∨ pieces.flatten.length ≤ lz4bBlockSize) ∧
      (Recompresses adapter (blockCompressData adapter) blockCompressEnd output pieces ↔
        adapter.blockSize ≤ lz4bBlockSize ∨ pieces.flatten.length ≤ lz4bBlockSize) :=
  ⟨recompresses_iff adapter _ _ output pieces, recompresses_iff adapter _ _ output pieces⟩

/-- A library that leaves data as it is, and a stream without end. -/
def plainLibrary : Lz4Library where
  Context := Unit
  Stream := Bytes
  compressUpdate := fun context srcData _ => some (context, srcData)
  compressEnd := fun _ _ => some []
  frameBound := id
  compressBound := id
  compressDefault := fun srcData _ => some srcData
  compressHC := fun srcData _ _ => some srcData
  write := fun stream _ data => some (stream ++ data)

/-- An adapter for blocks of 16 MiB. -/
def wideAdapter : Lz4Adapter where
  compressionLevel := 1
  blockSizeID := 8
  shifts := by decide

def plainOutput : Output plainLibrary where
  context := ()
  outStream := []
  offset := 4

/-- Of 12 MiB that are written at once, the buffer makes a block of 4 MiB, and the loop one of 8. -/
theorem wideAdapter_not_recompresses :
    ¬Recompresses wideAdapter (blockCompressData wideAdapter) blockCompressEnd plainOutput
      [List.replicate (3 * 2 ^ 22) 0] := by
  rw [recompresses_iff, not_or, List.flatten_singleton, List.length_replicate]
  exact ⟨by decide, by decide⟩

end Adapters

end Updater.DiffPatch.Lz4
