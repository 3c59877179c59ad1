import Updater.StreamUpdate.StreamTermination

/-! The bytes that calls report as dealt with, and those that are kept in the buffer. -/

set_option autoImplicit false

namespace Updater.StreamUpdate

open Updater.Base

namespace BinChunkUpdate

variable {World : Type} {services : Services World} {st next : BinChunkUpdate World}

/-- Calls that do not fail: the sum of what they report, and the parser behind them. -/
def deliver (services : Services World) (turns : Nat) :
    List Chunk → BinChunkUpdate World → Option (Nat × BinChunkUpdate World)
  | [], st => some (0, st)
  | chunk :: chunks, st =>
      match st.startBinChunkUpdate services turns chunk with
      | (none, _) => none
      | (some (.failure, _), _) => none
      | (some (_, dealLen), next) =>
          (deliver services turns chunks next).map fun rest => (dealLen + rest.1, rest.2)

/-- Before each of the calls, what is kept and what comes can be counted in 32 bits. -/
def Countable (services : Services World) (turns : Nat) :
    List Chunk → BinChunkUpdate World → Prop
  | [], _ => True
  | chunk :: chunks, st =>
      st.curlen + chunk.len < uint32Count ∧
        Countable services turns chunks (st.startBinChunkUpdate services turns chunk).2

/-- The bytes of chunks. -/
def lengths (chunks : List Chunk) : Nat :=
  (chunks.map Chunk.len).sum

/-- Nothing is kept in front of the first chunk, nor while bytes are skipped. -/
structure Accountable (st : BinChunkUpdate World) : Prop where
  small : st.curlen < uint32Count
  first : st.firstBuffer = true → st.curlen = 0 ∧ st.skipLength = 0
  skipping : st.skipLength ≠ 0 → st.curlen = 0

section Calls

theorem advance_le (offset size : Nat) : advance offset size ≤ offset + size := by
  rw [advance]
  split
  · exact Nat.le_refl _
  · exact Nat.sub_le _ _

theorem le_of_not_refused {destMax count : Nat} (allowed : ¬refused destMax count = true) :
    count ≤ destMax := by
  apply Nat.le_of_not_lt
  intro long
  exact allowed (by rw [refused, decide_eq_true long, Bool.or_true])

/-- What is kept behind a move was in the buffer. -/
theorem moveRemainingData_le (made : st.moveRemainingData = (true, next)) :
    next.curlen ≤ st.curlen ∧ next.skipLength = st.skipLength ∧
      next.firstBuffer = st.firstBuffer := by
  rw [moveRemainingData] at made
  dsimp only at made
  split at made
  · split at made
    · cases made
    case isFalse allowed =>
      cases made
      exact ⟨le_of_not_refused allowed, rfl, rfl⟩
  · split at made
    · cases made
    · cases made
      exact ⟨Nat.zero_le _, rfl, rfl⟩

theorem addRemainData_le {data : Memory} {remainLen : Nat}
    (made : st.addRemainData data remainLen = (true, next)) :
    next.curlen ≤ st.curlen + st.copySize remainLen ∧ next.skipLength = st.skipLength ∧
      next.firstBuffer = st.firstBuffer := by
  rw [addRemainData] at made
  split at made
  · cases made
  · cases made
    exact ⟨advance_le _ _, rfl, rfl⟩

/-- The loop over a chunk keeps no more than there was, with the rest of the chunk. -/
theorem processChunk_le {turns left remainLen : Nat} {chunk : Chunk} {ret result : UpdateResultCode}
    (made : processChunk services turns chunk left remainLen ret st = (some result, next))
    (succeeds : result ≠ .failure) :
    next.curlen ≤ st.curlen + remainLen ∧ next.skipLength = st.skipLength ∧
      next.firstBuffer = st.firstBuffer := by
  induction left generalizing st remainLen ret with
  | zero => cases made
  | succ left ih =>
      rw [processChunk] at made
      split at made
      · dsimp only at made
        split at made
        · cases made
          exact absurd rfl succeeds
        · rename_i filled added
          have grown : filled.curlen ≤ st.curlen + st.copySize remainLen := (addRemainData_le added).1
          obtain ⟨-, skip, first⟩ := addRemainData_le added
          have frame := @processBufferData_frame World services
            { filled with needNewData := false } turns turns .success
          split at made
          · cases made
          · cases made
            exact absurd rfl succeeds
          · rename_i ret processed _ processing
            rw [processing] at frame
            split at made
            · cases made
              exact absurd rfl succeeds
            · rename_i moved moving
              obtain ⟨fewer, skip', first'⟩ := moveRemainingData_le moving
              have kept : next.curlen ≤ moved.curlen + (remainLen - st.copySize remainLen) :=
                (ih made).1
              obtain ⟨-, skip'', first''⟩ := ih made
              have taken : st.copySize remainLen ≤ remainLen := copySize_le
              have same : processed.curlen = filled.curlen := frame.curlen
              refine ⟨by omega, ?_, ?_⟩
              · exact skip''.trans (skip'.trans (frame.skipLength.trans skip))
              · exact first''.trans (first'.trans (frame.firstBuffer.trans first))
      · cases made
        exact ⟨Nat.le_add_right _ _, rfl, rfl⟩

end Calls

section Accounts

variable {turns : Nat} {chunk : Chunk} (accountable : st.Accountable)

include accountable

/-- Reading the header of the first chunk. -/
theorem processHeader_accountable (data : Memory) :
    (st.processHeader data).Accountable ∧ (st.processHeader data).curlen = st.curlen ∧
      (st.processHeader data).firstBuffer = false := by
  have small := accountable.small
  rw [processHeader]
  split
  · rename_i first
    have empty := (accountable.first first).1
    split
    · exact ⟨⟨small, (fun other => by cases other), fun _ => empty⟩, rfl, rfl⟩
    · exact ⟨⟨small, (fun other => by cases other), fun _ => empty⟩, rfl, rfl⟩
  · rename_i later
    exact ⟨accountable, rfl, eq_false_of_ne_true later⟩

/-- While bytes are skipped, what is reported and what is kept make up the chunk. -/
theorem skipTargetData_accounts (later : st.firstBuffer = false) {dealLen : Nat}
    (made : st.skipTargetData chunk = (some dealLen, next)) :
    dealLen + next.curlen = st.curlen + chunk.len ∧ next.Accountable := by
  rw [skipTargetData] at made
  split at made
  · cases made
  · rename_i skipping
    have empty := accountable.skipping skipping
    split at made
    · rename_i inside
      dsimp only at made
      split at made
      · cases made
      · cases made
        refine ⟨?_, ?_, ?_, ?_⟩
        · dsimp only [emit]
          omega
        · exact Nat.lt_of_le_of_lt (Nat.sub_le _ _) chunk.short
        · exact fun first => absurd first (by rw [emit, later]; exact Bool.false_ne_true)
        · exact fun more => absurd rfl more
    · cases made
      refine ⟨Nat.add_comm _ _, ?_, ?_, ?_⟩
      · exact accountable.small
      · exact fun first => absurd first (by rw [later]; exact Bool.false_ne_true)
      · exact fun _ => empty

omit accountable in
/-- Where nothing is skipped, the chunk is processed from an accountable state. -/
theorem skipTargetData_none (later : st.firstBuffer = false)
    (made : st.skipTargetData chunk = (none, next)) :
    next.curlen = st.curlen ∧ next.skipLength = 0 ∧ next.firstBuffer = false := by
  rw [skipTargetData] at made
  split at made
  · rename_i none
    cases made
    exact ⟨rfl, none, later⟩
  · split at made
    · dsimp only at made
      split at made
      · cases made
        exact ⟨rfl, rfl, later⟩
      · cases made
    · cases made

/-- What a call reports and what it keeps are what was kept and the chunk. -/
theorem startBinChunkUpdate_accounts {ret : UpdateResultCode} {dealLen : Nat}
    (made : st.startBinChunkUpdate services turns chunk = (some (ret, dealLen), next))
    (succeeds : ret ≠ .failure) (countable : st.curlen + chunk.len < uint32Count) :
    dealLen + next.curlen = st.curlen + chunk.len ∧ next.Accountable := by
  obtain ⟨ready, kept, later⟩ := processHeader_accountable accountable chunk.data
  rw [startBinChunkUpdate] at made
  split at made
  · cases made
    exact absurd rfl succeeds
  · split at made
    · rename_i skipped
      cases made
      rw [← kept]
      exact skipTargetData_accounts ready later skipped
    · rename_i skipped skipping
      obtain ⟨same, none, later'⟩ := skipTargetData_none later skipping
      split at made
      · cases made
      · cases made
        exact absurd rfl succeeds
      · rename_i ret processed _ processing
        cases made
        obtain ⟨fewer, skip, first⟩ := processChunk_le processing succeeds
        rw [same, kept] at fewer
        rw [none] at skip
        rw [later'] at first
        have sum : advance chunk.len st.curlen = chunk.len + st.curlen := by
          rw [advance, if_pos (by omega)]
        refine ⟨?_, ?_, ?_, ?_⟩
        · rw [sum, remaining_of_le (by omega)]
          omega
        · exact Nat.lt_of_le_of_lt fewer countable
        · exact fun still => absurd still (by rw [first]; exact Bool.false_ne_true)
        · exact fun more => absurd skip more

end Accounts

theorem deliver_accounts {turns : Nat} {chunks : List Chunk} {dealt : Nat}
    (accountable : st.Accountable) (countable : Countable services turns chunks st)
    (delivered : deliver services turns chunks st = some (dealt, next)) :
    dealt + next.curlen = st.curlen + lengths chunks := by
  induction chunks generalizing st dealt with
  | nil =>
      cases delivered
      rw [Nat.zero_add]
      rfl
  | cons chunk chunks ih =>
      obtain ⟨fits, countable⟩ := countable
      have total : lengths (chunk :: chunks) = chunk.len + lengths chunks := rfl
      rw [deliver] at delivered
      split at delivered
      · cases delivered
      · cases delivered
      · rename_i ret dealLen called succeeds made
        rw [made] at countable
        obtain ⟨⟨rest, last⟩, later, same⟩ := Option.map_eq_some_iff.mp delivered
        cases same
        obtain ⟨here, accountable⟩ := startBinChunkUpdate_accounts accountable made
          (fun failed => succeeds (by rw [failed])) fits
        have behind := ih accountable countable later
        dsimp only at behind ⊢
        omega

/-- Over all calls that do not fail, what is reported and what is kept are the bytes of the chunks,
if what is kept and the next chunk can always be counted in 32 bits. -/
theorem calls_account (services : Services World) (turns : Nat) (chunks : List Chunk)
    (maxBufSize : UInt32) (buffer : Memory) (world : World) {dealt : Nat}
    {last : BinChunkUpdate World}
    (delivered : deliver services turns chunks (create maxBufSize buffer world) = some (dealt, last))
    (countable : Countable services turns chunks (create maxBufSize buffer world)) :
    dealt + last.curlen = lengths chunks := by
  have accountable : (create maxBufSize buffer world).Accountable :=
    ⟨(by decide : 0 < uint32Count), fun _ => ⟨rfl, rfl⟩, fun _ => rfl⟩
  rw [deliver_accounts accountable countable delivered]
  exact Nat.zero_add _

section Swallow

/-- Services for which all of the buffer is a header. -/
def swallow : Services Unit where
  loadHead := fun _ buffer => (some buffer.length, ())
  openPartition := fun _ _ => (true, ())
  execute := fun _ _ _ _ => (true, ())
  close := id
  verifySignature := fun _ _ _ => (true, ())
  verifyPartitionHashes := fun _ _ => (true, ())

variable {st next : BinChunkUpdate Unit} {turns : Nat}

/-- A buffer that begins with a header is processed in one record. -/
theorem swallow_processBufferData {left : Nat} {ret : UpdateResultCode} (start : st.offset = 0)
    (some_ : 0 < st.curlen) (fed : st.needNewData = false)
    (head : leValue (st.buffer.read 0 2) = binUpdateHeadTip) :
    ∃ processed, processBufferData swallow turns (left + 2) ret st = (some .success, processed) ∧
      processed.offset = st.curlen ∧ Frame st processed := by
  have all : remaining st.curlen st.offset = st.curlen := by
    rw [start, remaining_of_le (Nat.zero_le _), Nat.sub_zero]
  have over_ : ¬(0 < remaining st.curlen st.curlen ∧ st.needNewData = false) := by
    rw [remaining_of_le (Nat.le_refl _), Nat.sub_self]
    exact fun more => absurd more.1 (Nat.lt_irrefl 0)
  have whole : ¬(st.curlen = 0 ∨ st.curlen < st.curlen) := by omega
  rw [processBufferData, all, if_pos ⟨some_, fed⟩, nextRecord, start, head, processRecord,
    if_pos rfl, updateBinHead]
  dsimp only [traced, emit, swallow]
  rw [Memory.length_read, if_neg whole]
  dsimp only
  rw [processBufferData, if_neg over_]
  exact ⟨_, rfl, rfl, ⟨rfl, rfl, rfl, rfl⟩⟩

/-- A turn of the loop with such a buffer leaves it empty. -/
theorem swallow_turn {chunk : Chunk} {left remainLen taken : Nat} {ret : UpdateResultCode}
    (some_ : 0 < remainLen) (taking : st.copySize remainLen = taken)
    (allowed : refused st.maxBufSize taken = false)
    (whole : refused st.maxBufSize st.maxBufSize = false) (filled : 0 < advance st.curlen taken)
    (head : leValue ((st.buffer.write st.curlen
      ((chunk.data.behind (chunk.len - remainLen)).read 0 taken)).read 0 2) = binUpdateHeadTip) :
    ∃ moved, processChunk swallow (turns + 2) chunk (left + 1) remainLen ret st =
        processChunk swallow (turns + 2) chunk left (remainLen - taken) .success moved ∧
      moved.curlen = 0 ∧ moved.maxBufSize = st.maxBufSize := by
  subst taking
  have added : ∃ filled, (st.emit [.turn st.maxBufSize st.buffer st.curlen
        st.needNewData]).addRemainData (chunk.data.behind (chunk.len - remainLen)) remainLen =
        (true, filled) ∧
      filled.curlen = advance st.curlen (st.copySize remainLen) ∧ filled.offset = 0 ∧
      filled.maxBufSize = st.maxBufSize ∧ filled.buffer = st.buffer.write st.curlen
        ((chunk.data.behind (chunk.len - remainLen)).read 0 (st.copySize remainLen)) := by
    rw [addRemainData, if_neg]
    · exact ⟨_, rfl, rfl, rfl, rfl, rfl⟩
    · exact fun refusing => Bool.false_ne_true (allowed.symm.trans refusing)
  obtain ⟨full, adding, curlen, offset, maxBufSize, buffer⟩ := added
  obtain ⟨processed, processing, over_, frame⟩ := @swallow_processBufferData
    { full with needNewData := false } (turns + 2) turns .success offset (by rw [curlen]; exact filled)
    rfl (by rw [buffer]; exact head)
  have nothing : remaining processed.curlen processed.offset = 0 := by
    rw [over_, frame.curlen, remaining_of_le (Nat.le_refl _), Nat.sub_self]
  have sameMax : processed.maxBufSize = st.maxBufSize := frame.maxBufSize.trans maxBufSize
  have moved : ∃ moved, processed.moveRemainingData = (true, moved) ∧ moved.curlen = 0 ∧
      moved.maxBufSize = st.maxBufSize := by
    rw [moveRemainingData]
    dsimp only
    rw [nothing, if_neg (Nat.lt_irrefl 0), sameMax, if_neg]
    · exact ⟨_, rfl, rfl, sameMax⟩
    · exact fun refusing => Bool.false_ne_true (whole.symm.trans refusing)
  obtain ⟨empty, moving, none, keptMax⟩ := moved
  exact ⟨empty, processChunk_next some_ adding processing (fun other => by cases other) moving, none, keptMax⟩

/-- What was put to the front of a buffer begins with what it began with. -/
theorem read_front {buffer data : Memory} {taken : Nat} (two : 2 ≤ taken) :
    (buffer.write 0 (data.read 0 taken)).read 0 2 = data.read 0 2 :=
  Memory.read_congr _ fun _ within =>
    buffer.write_read_within data (Nat.lt_of_lt_of_le within two)

/-- A header to skip, and the type of a record. -/
def skippedChunk : Chunk where
  data := fun address => [0xaa, 0, 0, 0, 0, 0, 1, 0].getD address 0
  len := 8
  short := by decide

/-- A chunk of the largest length, with a header wherever the buffer begins. -/
def hugeChunk : Chunk where
  data := fun address => if address = 2147483645 ∨ address = 4294967292 then 1 else 0
  len := 4294967295
  short := by decide

theorem skippedChunk_started :
    ∃ kept, (create 0x7fffffff (fun _ => 0) ()).startBinChunkUpdate swallow turns skippedChunk =
        (some (.success, 6), kept) ∧
      kept.curlen = 2 ∧ kept.maxBufSize = 0x7fffffff ∧ kept.skipLength = 0 ∧
      kept.firstBuffer = false ∧ leValue (kept.buffer.read 0 2) = binUpdateHeadTip :=
  ⟨_, rfl, rfl, rfl, rfl, rfl, rfl⟩

/-- The huge chunk is taken in three turns, with the two bytes before it. -/
theorem hugeChunk_processed {ret : UpdateResultCode} (curlen : st.curlen = 2)
    (maxBufSize : st.maxBufSize = 0x7fffffff)
    (head : leValue (st.buffer.read 0 2) = binUpdateHeadTip) :
    ∃ last, processChunk swallow (turns + 2) hugeChunk 4 4294967295 ret st =
        (some .success, last) ∧ last.curlen = 0 := by
  obtain ⟨first, turn, curlen₁, max₁⟩ := @swallow_turn st turns hugeChunk 3 4294967295 2147483645 ret
    (by decide) (by rw [copySize, maxBufSize, curlen]; decide) (by rw [maxBufSize]; decide)
    (by rw [maxBufSize]; decide) (by rw [curlen]; decide) (by
      rw [curlen, Memory.read_write_disjoint _ (.inl (Nat.le_refl 2))]
      exact head)
  rw [maxBufSize] at max₁
  obtain ⟨second, turn₂, curlen₂, max₂⟩ := @swallow_turn first turns hugeChunk 2 2147483650 2147483647
    .success (by decide) (by rw [copySize, max₁, curlen₁]; decide) (by rw [max₁]; decide)
    (by rw [max₁]; decide) (by rw [curlen₁]; decide) (by
      rw [curlen₁, read_front (by decide)]
      decide)
  rw [max₁] at max₂
  obtain ⟨third, turn₃, curlen₃, -⟩ := @swallow_turn second turns hugeChunk 1 3 3 .success
    (by decide) (by rw [copySize, max₂, curlen₂]; decide) (by rw [max₂]; decide)
    (by rw [max₂]; decide) (by rw [curlen₂]; decide) (by
      rw [curlen₂, read_front (by decide)]
      decide)
  refine ⟨third, ?_, curlen₃⟩
  rw [turn, turn₂, turn₃]
  rfl

/-- All bytes are taken, but only seven of them are reported. -/
theorem hugeChunk_miscounted :
    ∃ last, deliver swallow 4 [skippedChunk, hugeChunk] (create 0x7fffffff (fun _ => 0) ()) =
        some (7, last) ∧ last.curlen = 0 ∧
      lengths [skippedChunk, hugeChunk] = 2 ^ 32 + 7 := by
  obtain ⟨kept, started, curlen, maxBufSize, skip, first, head⟩ := @skippedChunk_started 4
  obtain ⟨last, processed, empty⟩ :=
    @hugeChunk_processed kept 2 .success curlen maxBufSize head
  have header : kept.processHeader hugeChunk.data = kept := by
    rw [processHeader, first]
    rfl
  have called : kept.startBinChunkUpdate swallow 4 hugeChunk = (some (.success, 1), last) := by
    rw [startBinChunkUpdate, header, skipTargetData, skip]
    have same : processChunk swallow 4 hugeChunk 4 hugeChunk.len .success kept =
        (some .success, last) := processed
    dsimp only
    rw [if_neg (by decide), if_pos rfl]
    dsimp only
    rw [same]
    dsimp only
    rw [empty, curlen]
    rfl
  refine ⟨last, ?_, empty, by decide⟩
  rw [deliver, started]
  dsimp only
  rw [deliver, called]
  rfl

/-- The first chunk alone is accounted for. -/
theorem skippedChunk_accounts :
    ∃ last, deliver swallow 4 [skippedChunk] (create 0x7fffffff (fun _ => 0) ()) = some (6, last) ∧
      6 + last.curlen = lengths [skippedChunk] := by
  refine ⟨_, rfl, ?_⟩
  exact calls_account swallow 4 [skippedChunk] 0x7fffffff (fun _ => 0) () rfl
    ⟨(by decide : 0 + 8 < uint32Count), trivial⟩

end Swallow

end BinChunkUpdate

end Updater.StreamUpdate
