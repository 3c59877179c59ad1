import Updater.Utils.Securec

/-! `FlowDataStream`: offset-checked writes into a ring buffer and reads out of
it. The ring appears as the list of items pushed and not yet popped. -/

set_option autoImplicit false

namespace Updater.Package

open Updater.Base Updater.Utils

def maxFlowBufferSize : Nat := 4 * 1024 * 1024

/-- `size_t` and `uint32_t` arithmetic. -/
def size64 (value : Nat) : Nat := value % 2 ^ 64

def sub64 (left right : Nat) : Nat := (left + 2 ^ 64 - right) % 2 ^ 64

def uint32 (value : Nat) : Nat := value % 2 ^ 32

structure FlowDataStream where
  fileLength : Nat
  ring : List Bytes
  singleSize : Nat
  buff : Bytes
  avail : Nat
  bufOffset : Nat
  readOffset : Nat
  writeOffset : Nat
  deriving DecidableEq, Repr

def FlowDataStream.create (fileLength singleSize : Nat) : FlowDataStream where
  fileLength
  ring := []
  singleSize
  buff := List.replicate maxFlowBufferSize 0
  avail := 0
  bufOffset := 0
  readOffset := 0
  writeOffset := 0

/-- `RingBuffer::Push` as its caller sees it while the ring is not stopped. -/
def ringPush (ring : List Bytes) (singleSize : Nat) (buf : Bytes) (len : Nat) :
    Option (List Bytes) :=
  if len = 0 ∨ singleSize < len then none else some (ring ++ [buf.take len])

/-- `RingBuffer::Pop` into a buffer of `maxLen` bytes; an empty ring is stopped. -/
def ringPop (ring : List Bytes) (buf : Bytes) (maxLen : Nat) : Option (Bytes × Nat × List Bytes) :=
  match ring with
  | [] => none
  | item :: rest => (memcpyS buf maxLen item).map fun buf => (buf, item.length, rest)

def FlowDataStream.write (flow : FlowDataStream) (data : Bytes) (size start : Nat) :
    Option FlowDataStream :=
  if flow.writeOffset ≠ start then none
  else
    match ringPush flow.ring flow.singleSize data (uint32 size) with
    | none => none
    | some ring => some { flow with ring, writeOffset := size64 (flow.writeOffset + size) }

/-- Refills `buff` when it is used up. -/
def FlowDataStream.refill (flow : FlowDataStream) : Option FlowDataStream :=
  if flow.avail = 0 then
    match ringPop flow.ring flow.buff maxFlowBufferSize with
    | none => none
    | some (buff, avail, ring) => some { flow with buff, avail, ring }
  else some flow

/-- Hands out a piece of `buff`, its length, and the stream behind it. -/
def FlowDataStream.readFromRingBuf (flow : FlowDataStream) (needLen : Nat) :
    Option (Bytes × Nat × FlowDataStream) :=
  match flow.refill with
  | none => none
  | some flow =>
      let buff := flow.buff.drop flow.bufOffset
      let readLen := if needLen ≤ flow.avail then needLen else flow.avail
      let avail := flow.avail - readLen
      some (buff, readLen, { flow with
        avail, bufOffset := if avail = 0 then 0 else flow.bufOffset + readLen })

theorem FlowDataStream.readFromRingBuf_le {flow flow' : FlowDataStream} {needLen readLen : Nat}
    {buff : Bytes} (read : flow.readFromRingBuf needLen = some (buff, readLen, flow')) :
    readLen ≤ needLen := by
  simp only [readFromRingBuf] at read
  split at read
  · cases read
  · cases read
    split <;> omega

/-- The loop of `Read`: the ring takes the missing length as a 32-bit number. -/
def FlowDataStream.readLoop (flow : FlowDataStream) (missing : Nat) (data : Bytes) :
    Option (Bytes × FlowDataStream) :=
  if missing = 0 then some (data, flow)
  else
    match _piece : flow.readFromRingBuf (uint32 missing) with
    | none => none
    | some (buffer, readOnce, flow') =>
        if readOnce = 0 then none
        else
          match memcpyS [] readOnce (buffer.take readOnce) with
          | none => none
          | some copied => flow'.readLoop (missing - readOnce) (data ++ copied)
termination_by missing
decreasing_by
  have bound := FlowDataStream.readFromRingBuf_le _piece
  have small := Nat.mod_le missing (2 ^ 32)
  simp only [uint32] at bound
  omega

/-- `Read` into a buffer of `length` bytes. -/
def FlowDataStream.read (flow : FlowDataStream) (length start needRead : Nat) :
    Option (Bytes × FlowDataStream) :=
  if flow.readOffset ≠ start then none
  else if length < needRead then none
  else
    match flow.readLoop needRead [] with
    | none => none
    | some (data, flow) => some (data, { flow with readOffset := size64 (flow.readOffset + needRead) })

/-- Reads one after another, each into a buffer of its size, from offset `start` on. -/
def FlowDataStream.readAll (flow : FlowDataStream) (start : Nat) : List Nat → Option (List Bytes)
  | [] => some []
  | needRead :: rest =>
      match flow.read needRead start needRead with
      | none => none
      | some (data, flow) => (flow.readAll (start + needRead) rest).map (data :: ·)

/-- What is still to be read, in order. -/
def FlowDataStream.pending (flow : FlowDataStream) : Bytes :=
  slice flow.buff flow.bufOffset flow.avail ++ flow.ring.flatten

/-- The read position is inside `buff`, and every queued item fits into it. -/
structure FlowDataStream.Readable (flow : FlowDataStream) : Prop where
  sized : flow.buff.length = maxFlowBufferSize
  inside : flow.bufOffset + flow.avail ≤ maxFlowBufferSize
  rewound : flow.avail = 0 → flow.bufOffset = 0
  fits : ∀ item ∈ flow.ring, item ≠ [] ∧ item.length ≤ maxFlowBufferSize

theorem FlowDataStream.refill_spec {flow : FlowDataStream} (readable : flow.Readable)
    (more : flow.pending ≠ []) :
    ∃ flow', flow.refill = some flow' ∧ flow'.Readable ∧ 0 < flow'.avail ∧
      flow'.pending = flow.pending ∧ flow'.readOffset = flow.readOffset := by
  by_cases empty : flow.avail = 0
  · have offset := readable.rewound empty
    cases queued : flow.ring with
    | nil => simp [pending, empty, queued] at more
    | cons item rest =>
        obtain ⟨nonempty, small⟩ := readable.fits item (by simp [queued])
        have copied : memcpyS flow.buff maxFlowBufferSize item =
            some (item ++ flow.buff.drop item.length) := by
          rw [memcpyS, if_neg]
          simp only [maxFlowBufferSize, securecMemMaxLen] at small ⊢
          omega
        let flow' : FlowDataStream := { flow with
          buff := item ++ flow.buff.drop item.length, avail := item.length, ring := rest }
        have refilled : flow.refill = some flow' := by
          simp [refill, empty, queued, ringPop, copied, flow']
        refine ⟨flow', refilled, ⟨?_, ?_, ?_, ?_⟩, List.length_pos_iff.mpr nonempty, ?_, rfl⟩
        · simp only [flow', List.length_append, List.length_drop, readable.sized]
          omega
        · simpa [flow', offset] using small
        · intro none
          exact absurd (List.eq_nil_of_length_eq_zero none) nonempty
        · intro other member
          exact readable.fits other (queued ▸ List.mem_cons_of_mem item member)
        · simp [pending, flow', empty, queued, offset, slice]
  · exact ⟨flow, by simp [refill, empty], readable, Nat.pos_of_ne_zero empty, rfl, rfl⟩

/-- One piece: the next bytes of what is pending, as many as wanted or as `buff` has. -/
theorem FlowDataStream.readFromRingBuf_spec {flow : FlowDataStream} (readable : flow.Readable)
    (more : flow.pending ≠ []) {needLen : Nat} (wanted : 0 < needLen) :
    ∃ buff readLen flow', flow.readFromRingBuf needLen = some (buff, readLen, flow') ∧
      0 < readLen ∧ readLen ≤ maxFlowBufferSize ∧ (buff.take readLen).length = readLen ∧
      flow.pending = buff.take readLen ++ flow'.pending ∧ flow'.Readable ∧
      flow'.readOffset = flow.readOffset := by
  obtain ⟨filled, refilled, ready, available, same, offset⟩ := refill_spec readable more
  have inside := ready.inside
  let readLen := if needLen ≤ filled.avail then needLen else filled.avail
  have bound : readLen ≤ filled.avail := by
    simp only [readLen]
    split <;> omega
  have positive : 0 < readLen := by
    simp only [readLen]
    split <;> omega
  let flow' : FlowDataStream := { filled with
    avail := filled.avail - readLen
    bufOffset := if filled.avail - readLen = 0 then 0 else filled.bufOffset + readLen }
  have rest : slice flow'.buff flow'.bufOffset flow'.avail =
      slice filled.buff (filled.bufOffset + readLen) (filled.avail - readLen) := by
    simp only [flow']
    split
    · rename_i done
      rw [done, slice_zero_length, slice_zero_length]
    · rfl
  refine ⟨filled.buff.drop filled.bufOffset, readLen, flow', ?_, positive, by omega, ?_, ?_,
    ⟨ready.sized, ?_, ?_, ready.fits⟩, offset⟩
  · simp [readFromRingBuf, refilled, readLen, flow']
  · have sized := ready.sized
    rw [List.length_take, List.length_drop]
    omega
  · have whole : filled.avail = readLen + (filled.avail - readLen) := by omega
    rw [← same, pending, pending, rest, ← List.append_assoc]
    congr 1
    rw [whole, ← slice_append_slice]
    simp [slice]
  · simp only [flow']
    split <;> omega
  · intro done
    simp only [flow'] at done ⊢
    rw [if_pos done]

theorem FlowDataStream.readLoop_spec {flow : FlowDataStream} (readable : flow.Readable)
    (missing : Nat) (data : Bytes) (enough : missing ≤ flow.pending.length)
    (small : missing < 2 ^ 32) :
    ∃ flow', flow.readLoop missing data = some (data ++ flow.pending.take missing, flow') ∧
      flow'.Readable ∧ flow'.pending = flow.pending.drop missing ∧
      flow'.readOffset = flow.readOffset := by
  induction missing using Nat.strong_induction_on generalizing flow data with
  | _ missing ih =>
      rw [readLoop]
      by_cases done : missing = 0
      · rw [if_pos done, done, List.take_zero, List.append_nil, List.drop_zero]
        exact ⟨flow, rfl, readable, rfl, rfl⟩
      · have need : uint32 missing = missing := Nat.mod_eq_of_lt small
        have more : flow.pending ≠ [] := by
          intro nothing
          rw [nothing, List.length_nil] at enough
          omega
        obtain ⟨buff, readLen, middle, piece, positive, bound, exact_, split, ready, offset⟩ :=
          readFromRingBuf_spec readable more (Nat.pos_of_ne_zero done)
        have wanted := readFromRingBuf_le piece
        have copied : memcpyS [] readLen (buff.take readLen) = some (buff.take readLen) := by
          rw [memcpyS, if_neg]
          · simp
          · simp only [maxFlowBufferSize, securecMemMaxLen] at bound ⊢
            omega
        have length : flow.pending.length = readLen + middle.pending.length := by
          rw [split, List.length_append, exact_]
        obtain ⟨flow', run, ready', left, offset'⟩ := ih (missing - readLen) (by omega) ready
          (data ++ buff.take readLen) (by omega) (by omega)
        have taken : flow.pending.take missing =
            buff.take readLen ++ middle.pending.take (missing - readLen) := by
          rw [split, List.take_append, exact_, List.take_of_length_le (by omega)]
        have dropped : flow.pending.drop missing = middle.pending.drop (missing - readLen) := by
          rw [split, List.drop_append, exact_, List.drop_eq_nil_of_le (by omega), List.nil_append]
        refine ⟨flow', ?_, ready', left.trans dropped.symm, offset'.trans offset⟩
        rw [if_neg done]
        split
        · rename_i failed
          rw [need, piece] at failed
          cases failed
        · rename_i buff' readLen' middle' piece'
          rw [need, piece] at piece'
          cases piece'
          rw [if_neg (by omega)]
          simp only [copied]
          rw [run, taken, List.append_assoc]

/-- A length of four gigabytes or more is cut to its low 32 bits, piece by
piece, and never comes below a multiple of `2 ^ 32`. -/
theorem FlowDataStream.readLoop_large (flow : FlowDataStream) (missing : Nat) (data : Bytes)
    (large : 2 ^ 32 ≤ missing) : flow.readLoop missing data = none := by
  induction missing using Nat.strong_induction_on generalizing flow data with
  | _ missing ih =>
      rw [readLoop, if_neg (by omega)]
      split
      · rfl
      · rename_i buff readLen flow' piece
        have wanted := readFromRingBuf_le piece
        simp only [uint32] at wanted
        split
        · rfl
        · split
          · rfl
          · exact ih (missing - readLen) (by omega) _ _ (by omega)

/-- Reads at successive offsets return the pending bytes in order, unless one
of them asks for four gigabytes or more. -/
theorem FlowDataStream.readAll_eq_pieces_iff {flow : FlowDataStream} (readable : flow.Readable)
    (reads : List Nat) (enough : reads.sum ≤ flow.pending.length)
    (inFile : flow.readOffset + flow.pending.length < 2 ^ 64) :
    flow.readAll flow.readOffset reads = some (pieces flow.pending reads) ↔
      ∀ needRead ∈ reads, needRead < 2 ^ 32 := by
  induction reads generalizing flow with
  | nil => simp [readAll, pieces]
  | cons needRead rest ih =>
      rw [List.sum_cons] at enough
      rw [List.forall_mem_cons]
      simp only [readAll, read, ne_eq, not_true_eq_false, if_false, Nat.lt_irrefl]
      by_cases small : needRead < 2 ^ 32
      · obtain ⟨flow', run, ready, left, offset⟩ := readLoop_spec readable needRead [] (by omega) small
        have length : flow'.pending.length = flow.pending.length - needRead := by
          rw [left, List.length_drop]
        have advanced : size64 (flow.readOffset + needRead) = flow.readOffset + needRead :=
          Nat.mod_eq_of_lt (by omega)
        let next : FlowDataStream := { flow' with readOffset := flow.readOffset + needRead }
        have nextReadable : next.Readable := ⟨ready.sized, ready.inside, ready.rewound, ready.fits⟩
        have nextPending : next.pending = flow.pending.drop needRead := left
        have nextLength : next.pending.length = flow.pending.length - needRead := by
          rw [nextPending, List.length_drop]
        have nextOffset : next.readOffset = flow.readOffset + needRead := rfl
        have tail := ih nextReadable (by omega) (by omega)
        rw [run]
        simp only [List.nil_append, offset, advanced, pieces, small, true_and]
        rw [← nextPending, ← tail]
        change Option.map _ (next.readAll next.readOffset rest) = _ ↔ _
        cases next.readAll next.readOffset rest <;> simp
      · rw [readLoop_large flow needRead [] (by omega)]
        simp only [small, false_and, iff_false]
        intro absurdRead
        cases absurdRead

end Updater.Package
