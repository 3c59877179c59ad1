import Updater.Package.FlowDataStream
import Updater.Package.UpgradePkgFile

/-! The `Read` of the five kinds of package streams, as the loops over a stream see it. -/

set_option autoImplicit false

namespace Updater.Package

open Updater.Base Updater.Utils

/-- A `Read` fails, gives bytes, or waits for ever. -/
inductive ReadResult (Stream : Type) where
  | failed
  | given (bytes : Bytes) (stream : Stream)
  | blocked

/-- A file whose length was asked for before it is read, as all that load a package do.
The medium may fail behind an offset, and then gives what it had up to there. -/
structure FileStream where
  content : Bytes
  delivers : Nat → Nat
  fits : content.length < 2 ^ 63

/-- The read end of a pipe: what the other side still writes, and whether a read that finds
too little gives up, since the ring is stopped or the wait has a timeout. -/
structure PipeStream where
  pending : Bytes
  offset : Nat
  ends : Bool
  fits : offset + pending.length < 2 ^ 64

structure MapStream where
  content : Bytes
  fits : content.length < 2 ^ 63

/-- The stream kinds that a package is read from or written to. -/
inductive SourceStream where
  | file (stream : FileStream)
  | memoryMap (stream : MapStream)
  | process
  | flowData (pipe : PipeStream)
  | shmData (pipe : PipeStream)

/-- `FileStream::Read` of at most `needRead` bytes; `fseeko64` takes a signed offset. -/
def FileStream.read (stream : FileStream) (start needRead : Nat) : ReadResult FileStream :=
  if start ≥ 2 ^ 63 ∨ start > stream.content.length then .failed
  else
    let bytes := (slice stream.content start needRead).take (stream.delivers start)
    if bytes = [] then .failed else .given bytes stream

/-- `MemoryMapStream::Read`: at its end it succeeds without a byte. -/
def MapStream.read (stream : MapStream) (start needRead : Nat) : ReadResult MapStream :=
  if start > stream.content.length then .failed
  else .given (slice stream.content start needRead) stream

/-- `FlowDataStream::Read` and `ShmDataStream::Read`: all of the bytes at the offset where
the last read ended, or a failure. -/
def PipeStream.read (pipe : PipeStream) (start needRead : Nat) : ReadResult PipeStream :=
  if start ≠ pipe.offset then .failed
  else if room : needRead ≤ pipe.pending.length then
    .given (pipe.pending.take needRead) {
      pending := pipe.pending.drop needRead
      offset := pipe.offset + needRead
      ends := pipe.ends
      fits := by
        have fits := pipe.fits
        rw [List.length_drop]
        omega }
  else if pipe.ends then .failed
  else .blocked

def ReadResult.map {Stream Other : Type} (wrap : Stream → Other) :
    ReadResult Stream → ReadResult Other
  | .failed => .failed
  | .given bytes stream => .given bytes (wrap stream)
  | .blocked => .blocked

namespace SourceStream

/-- `Read` of at most `needRead` bytes into a buffer that has room for them. -/
def read (source : SourceStream) (start needRead : Nat) : ReadResult SourceStream :=
  match source with
  | file stream => (stream.read start needRead).map file
  | memoryMap stream => (stream.read start needRead).map memoryMap
  | process => .failed
  | flowData pipe => (pipe.read start needRead).map flowData
  | shmData pipe => (pipe.read start needRead).map shmData

/-- `PkgAlgorithm::ReadData` into a buffer of `length` bytes. -/
def readData (source : SourceStream) (offset length remainSize : Nat) :
    ReadResult SourceStream :=
  if min remainSize length = 0 then .given [] source
  else source.read offset (min remainSize length)

/-- The bytes of a stream from an offset on. -/
def bytesFrom (source : SourceStream) (start : Nat) : Bytes :=
  match source with
  | file stream => stream.content.drop start
  | memoryMap stream => stream.content.drop start
  | process => []
  | flowData pipe => if start = pipe.offset then pipe.pending else []
  | shmData pipe => if start = pipe.offset then pipe.pending else []

/-- The stream has so many bytes from an offset on. -/
def Holds (source : SourceStream) (start size : Nat) : Prop :=
  size ≤ (source.bytesFrom start).length

/-- From an offset on, a stream gives some bytes and then goes on as the next one. -/
structure Gives (source : SourceStream) (start : Nat) (bytes : Bytes) (next : SourceStream) :
    Prop where
  front : source.bytesFrom start = bytes ++ next.bytesFrom (start + bytes.length)
  small : bytes ≠ [] → start + bytes.length < 2 ^ 64

theorem Gives.refl (source : SourceStream) (start : Nat) : source.Gives start [] source :=
  ⟨rfl, fun some => absurd rfl some⟩

theorem Gives.trans {source middle next : SourceStream} {start : Nat} {bytes more : Bytes}
    (first : source.Gives start bytes middle)
    (second : middle.Gives (start + bytes.length) more next) :
    source.Gives start (bytes ++ more) next := by
  constructor
  · rw [first.front, second.front, List.append_assoc, List.length_append, Nat.add_assoc]
  · intro some
    rw [List.length_append, ← Nat.add_assoc]
    by_cases nothing : more = []
    · rw [nothing, List.append_nil] at some
      rw [nothing, List.length_nil, Nat.add_zero]
      exact first.small some
    · exact second.small nothing

/-- What was given is the front of what the stream had. -/
theorem Gives.take {source next : SourceStream} {start : Nat} {bytes : Bytes}
    (gives : source.Gives start bytes next) :
    (source.bytesFrom start).take bytes.length = bytes := by
  rw [gives.front, List.take_left]

theorem Gives.length_le {source next : SourceStream} {start : Nat} {bytes : Bytes}
    (gives : source.Gives start bytes next) : source.Holds start bytes.length := by
  rw [Holds, gives.front, List.length_append]
  exact Nat.le_add_right _ _

end SourceStream

theorem drop_eq_take_append {bytes front : Bytes} {start : Nat}
    (taken : front = (bytes.drop start).take front.length) :
    bytes.drop start = front ++ bytes.drop (start + front.length) := by
  rw [← List.drop_drop, ← congrArg (· ++ _) taken.symm]
  exact (List.take_append_drop front.length (bytes.drop start)).symm

theorem FileStream.read_given {stream next : FileStream} {start needRead : Nat} {bytes : Bytes}
    (read : stream.read start needRead = .given bytes next) :
    next = stream ∧ bytes ≠ [] ∧ bytes.length ≤ needRead ∧
      bytes = (stream.content.drop start).take bytes.length := by
  rw [FileStream.read] at read
  split at read
  · cases read
  dsimp only at read
  split at read
  · cases read
  rename_i some
  cases read
  refine ⟨rfl, some, ?_, ?_⟩
  · rw [List.length_take]
    exact Nat.le_trans (Nat.min_le_right _ _) (length_slice_le _ _ _)
  · rw [slice, List.take_take, List.length_take, List.take_eq_take_iff]
    omega

theorem MapStream.read_given {stream next : MapStream} {start needRead : Nat} {bytes : Bytes}
    (read : stream.read start needRead = .given bytes next) :
    next = stream ∧ start ≤ stream.content.length ∧ bytes = (stream.content.drop start).take needRead := by
  rw [MapStream.read] at read
  split at read
  · cases read
  · rename_i before
    cases read
    exact ⟨rfl, Nat.le_of_not_lt before, rfl⟩

theorem PipeStream.read_given {pipe next : PipeStream} {start needRead : Nat} {bytes : Bytes}
    (read : pipe.read start needRead = .given bytes next) :
    start = pipe.offset ∧ needRead ≤ pipe.pending.length ∧ bytes = pipe.pending.take needRead ∧
      next.pending = pipe.pending.drop needRead ∧ next.offset = pipe.offset + needRead ∧
      next.ends = pipe.ends := by
  rw [PipeStream.read] at read
  split at read
  · cases read
  rename_i same
  split at read
  · rename_i room
    cases read
    exact ⟨not_not.mp same, room, rfl, rfl, rfl, rfl⟩
  · split at read
    · cases read
    · cases read

section

variable {Stream Other : Type} {wrap : Stream → Other} {result : ReadResult Stream}

theorem ReadResult.map_given {bytes : Bytes} {next : Other}
    (given : result.map wrap = .given bytes next) :
    ∃ stream, result = .given bytes stream ∧ wrap stream = next := by
  cases result with
  | failed => cases given
  | given found stream =>
      cases given
      exact ⟨stream, rfl, rfl⟩
  | blocked => cases given

theorem ReadResult.map_blocked (blocked : result.map wrap = .blocked) : result = .blocked := by
  cases result with
  | failed => cases blocked
  | given found stream => cases blocked
  | blocked => rfl

end

/-- A pipe gives the front of what is pending and keeps the rest. -/
theorem PipeStream.read_front {pipe next : PipeStream} {start needRead : Nat} {bytes : Bytes}
    (read : pipe.read start needRead = .given bytes next) :
    bytes.length = needRead ∧ next.offset = start + bytes.length ∧
      (if start = pipe.offset then pipe.pending else []) = bytes ++
        (if start + bytes.length = next.offset then next.pending else []) ∧
      start + bytes.length < 2 ^ 64 := by
  obtain ⟨rfl, room, rfl, pending, offset, -⟩ := read_given read
  have fits := pipe.fits
  have length : (pipe.pending.take needRead).length = needRead := List.length_take_of_le room
  rw [length, offset, pending, if_pos rfl, if_pos rfl, List.take_append_drop]
  exact ⟨rfl, rfl, rfl, by omega⟩

theorem PipeStream.of_blocked {pipe : PipeStream} {start needRead : Nat}
    (blocked : pipe.read start needRead = .blocked) :
    start = pipe.offset ∧ pipe.pending.length < needRead ∧ pipe.ends = false := by
  rw [PipeStream.read] at blocked
  split at blocked
  · cases blocked
  rename_i same
  split at blocked
  · cases blocked
  rename_i short
  split at blocked
  · cases blocked
  · rename_i open_
    exact ⟨not_not.mp same, Nat.lt_of_not_le short, Bool.eq_false_iff.mpr open_⟩

theorem PipeStream.not_failed {pipe : PipeStream} {start needRead : Nat} {Other : Type}
    {wrap : PipeStream → Other} (same : start = pipe.offset) (open_ : pipe.ends = false) :
    (pipe.read start needRead).map wrap ≠ .failed := by
  rw [PipeStream.read, if_neg (not_not.mpr same)]
  split
  · intro failed
    cases failed
  · rw [open_]
    intro failed
    cases failed

namespace SourceStream

/-- Step lemma: a read that succeeds gives the next bytes of the stream. -/
theorem read_gives {source next : SourceStream} {start needRead : Nat} {bytes : Bytes}
    (read : source.read start needRead = .given bytes next) :
    bytes.length ≤ needRead ∧ source.Gives start bytes next := by
  cases source with
  | file stream =>
      have fits := stream.fits
      obtain ⟨stream', given, rfl⟩ := ReadResult.map_given read
      obtain ⟨rfl, some, bound, taken⟩ := FileStream.read_given given
      refine ⟨bound, drop_eq_take_append taken, fun _ => ?_⟩
      have length := congrArg List.length taken
      have positive := List.length_pos_iff.mpr some
      rw [List.length_take, List.length_drop] at length
      omega
  | memoryMap stream =>
      have fits := stream.fits
      obtain ⟨stream', given, rfl⟩ := ReadResult.map_given read
      obtain ⟨rfl, before, rfl⟩ := MapStream.read_given given
      refine ⟨List.length_take_le _ _, drop_eq_take_append ?_, fun _ => ?_⟩
      · rw [List.length_take, List.take_eq_take_iff]
        omega
      · rw [List.length_take, List.length_drop]
        omega
  | process => cases read
  | flowData pipe =>
      obtain ⟨pipe', given, rfl⟩ := ReadResult.map_given read
      obtain ⟨length, -, front, small⟩ := PipeStream.read_front given
      exact ⟨Nat.le_of_eq length, front, fun _ => small⟩
  | shmData pipe =>
      obtain ⟨pipe', given, rfl⟩ := ReadResult.map_given read
      obtain ⟨length, -, front, small⟩ := PipeStream.read_front given
      exact ⟨Nat.le_of_eq length, front, fun _ => small⟩

theorem readData_gives {source next : SourceStream} {offset length remainSize : Nat}
    {bytes : Bytes} (read : source.readData offset length remainSize = .given bytes next) :
    bytes.length ≤ remainSize ∧ bytes.length ≤ length ∧ source.Gives offset bytes next := by
  rw [readData] at read
  split at read
  · cases read
    exact ⟨Nat.zero_le _, Nat.zero_le _, Gives.refl source offset⟩
  · obtain ⟨bound, gives⟩ := read_gives read
    exact ⟨by omega, by omega, gives⟩

/-- A stream that a loop over so many bytes never gets behind: an exhausted memory map goes
on to give nothing, a pipe that is left open goes on to wait. -/
def Endless (source : SourceStream) (start size : Nat) : Prop :=
  ¬ source.Holds start size ∧
    match source with
    | file _ => False
    | memoryMap stream => start ≤ stream.content.length
    | process => False
    | flowData pipe => start = pipe.offset ∧ pipe.ends = false
    | shmData pipe => start = pipe.offset ∧ pipe.ends = false

theorem Gives.holds_iff {source next : SourceStream} {start size : Nat} {bytes : Bytes}
    (gives : source.Gives start bytes next) (within : bytes.length ≤ size) :
    next.Holds (start + bytes.length) (size - bytes.length) ↔ source.Holds start size := by
  rw [Holds, Holds, gives.front, List.length_append]
  omega

theorem Endless.mono {source : SourceStream} {start size larger : Nat}
    (endless : source.Endless start size) (within : size ≤ larger) :
    source.Endless start larger :=
  ⟨fun holds => endless.1 (Nat.le_trans within holds), endless.2⟩

/-- What is endless stays so behind a read. -/
theorem Endless.read {source next : SourceStream} {start size needRead : Nat} {bytes : Bytes}
    (endless : source.Endless start size) (within : needRead ≤ size)
    (read : source.read start needRead = .given bytes next) :
    next.Endless (start + bytes.length) (size - bytes.length) := by
  obtain ⟨bound, gives⟩ := read_gives read
  obtain ⟨short, kind⟩ := endless
  refine ⟨fun holds => short ((gives.holds_iff (by omega)).mp holds), ?_⟩
  cases source with
  | file stream => exact kind.elim
  | memoryMap stream =>
      obtain ⟨stream', given, rfl⟩ := ReadResult.map_given read
      obtain ⟨rfl, before, rfl⟩ := MapStream.read_given given
      change start + (List.take needRead (List.drop start stream'.content)).length ≤
        stream'.content.length
      rw [List.length_take, List.length_drop]
      omega
  | process => exact kind.elim
  | flowData pipe =>
      obtain ⟨pipe', given, rfl⟩ := ReadResult.map_given read
      obtain ⟨-, -, -, -, -, ends⟩ := PipeStream.read_given given
      exact ⟨(PipeStream.read_front given).2.1.symm, ends.trans kind.2⟩
  | shmData pipe =>
      obtain ⟨pipe', given, rfl⟩ := ReadResult.map_given read
      obtain ⟨-, -, -, -, -, ends⟩ := PipeStream.read_given given
      exact ⟨(PipeStream.read_front given).2.1.symm, ends.trans kind.2⟩

/-- What is not endless is not so behind a read either. -/
theorem Endless.of_read {source next : SourceStream} {start size needRead : Nat} {bytes : Bytes}
    (read : source.read start needRead = .given bytes next) (within : needRead ≤ size)
    (endless : next.Endless (start + bytes.length) (size - bytes.length)) :
    source.Endless start size := by
  obtain ⟨bound, gives⟩ := read_gives read
  obtain ⟨short, kind⟩ := endless
  refine ⟨fun holds => short ((gives.holds_iff (by omega)).mpr holds), ?_⟩
  cases source with
  | file stream =>
      obtain ⟨stream', -, rfl⟩ := ReadResult.map_given read
      exact kind.elim
  | memoryMap stream =>
      obtain ⟨stream', given, rfl⟩ := ReadResult.map_given read
      exact (MapStream.read_given given).2.1
  | process => cases read
  | flowData pipe =>
      obtain ⟨pipe', given, rfl⟩ := ReadResult.map_given read
      obtain ⟨same, -, -, -, -, ends⟩ := PipeStream.read_given given
      exact ⟨same, ends.symm.trans kind.2⟩
  | shmData pipe =>
      obtain ⟨pipe', given, rfl⟩ := ReadResult.map_given read
      obtain ⟨same, -, -, -, -, ends⟩ := PipeStream.read_given given
      exact ⟨same, ends.symm.trans kind.2⟩

theorem Endless.not_failed {source : SourceStream} {start size needRead : Nat}
    (endless : source.Endless start size) : source.read start needRead ≠ .failed := by
  obtain ⟨-, kind⟩ := endless
  cases source with
  | file stream => exact kind.elim
  | memoryMap stream =>
      rw [SourceStream.read, MapStream.read, if_neg (Nat.not_lt_of_le kind)]
      intro failed
      cases failed
  | process => exact kind.elim
  | flowData pipe => exact PipeStream.not_failed kind.1 kind.2
  | shmData pipe => exact PipeStream.not_failed kind.1 kind.2

/-- A read that gives nothing is one at the end of a memory map. -/
theorem endless_of_given_nil {source next : SourceStream} {start size needRead : Nat}
    (read : source.read start needRead = .given [] next) (asked : 0 < needRead)
    (within : needRead ≤ size) : source.Endless start size := by
  cases source with
  | file stream =>
      obtain ⟨stream', given, -⟩ := ReadResult.map_given read
      exact absurd rfl (FileStream.read_given given).2.1
  | memoryMap stream =>
      obtain ⟨stream', given, -⟩ := ReadResult.map_given read
      obtain ⟨-, before, nothing⟩ := MapStream.read_given given
      have length := congrArg List.length nothing
      rw [List.length_nil, List.length_take, List.length_drop] at length
      refine ⟨?_, before⟩
      rw [Holds, bytesFrom, List.length_drop]
      omega
  | process => cases read
  | flowData pipe =>
      obtain ⟨pipe', given, -⟩ := ReadResult.map_given read
      have length := (PipeStream.read_front given).1
      rw [List.length_nil] at length
      omega
  | shmData pipe =>
      obtain ⟨pipe', given, -⟩ := ReadResult.map_given read
      have length := (PipeStream.read_front given).1
      rw [List.length_nil] at length
      omega

/-- A read that gives nothing leaves the stream as it was. -/
theorem read_nil {source next : SourceStream} {start needRead : Nat}
    (read : source.read start needRead = .given [] next) (asked : 0 < needRead) :
    next = source := by
  cases source with
  | file stream =>
      obtain ⟨stream', given, -⟩ := ReadResult.map_given read
      exact absurd rfl (FileStream.read_given given).2.1
  | memoryMap stream =>
      obtain ⟨stream', given, rfl⟩ := ReadResult.map_given read
      rw [(MapStream.read_given given).1]
  | process => cases read
  | flowData pipe =>
      obtain ⟨pipe', given, -⟩ := ReadResult.map_given read
      have length := (PipeStream.read_front given).1
      rw [List.length_nil] at length
      omega
  | shmData pipe =>
      obtain ⟨pipe', given, -⟩ := ReadResult.map_given read
      have length := (PipeStream.read_front given).1
      rw [List.length_nil] at length
      omega

/-- A read that waits for ever is one of an open pipe. -/
theorem endless_of_blocked {source : SourceStream} {start size needRead : Nat}
    (read : source.read start needRead = .blocked) (within : needRead ≤ size) :
    source.Endless start size := by
  cases source with
  | file stream =>
      have blocked := ReadResult.map_blocked read
      rw [FileStream.read] at blocked
      split at blocked
      · cases blocked
      dsimp only at blocked
      split at blocked
      · cases blocked
      · cases blocked
  | memoryMap stream =>
      have blocked := ReadResult.map_blocked read
      rw [MapStream.read] at blocked
      split at blocked
      · cases blocked
      · cases blocked
  | process => cases read
  | flowData pipe =>
      obtain ⟨same, short, ends⟩ := PipeStream.of_blocked (ReadResult.map_blocked read)
      refine ⟨?_, same, ends⟩
      rw [Holds, bytesFrom, if_pos same]
      omega
  | shmData pipe =>
      obtain ⟨same, short, ends⟩ := PipeStream.of_blocked (ReadResult.map_blocked read)
      refine ⟨?_, same, ends⟩
      rw [Holds, bytesFrom, if_pos same]
      omega

end SourceStream

/-- The ring holds too little: the read finds it stopped. -/
theorem FlowDataStream.readLoop_short {flow : FlowDataStream} (readable : flow.Readable)
    (missing : Nat) (data : Bytes) (short : flow.pending.length < missing)
    (small : missing < 2 ^ 32) : flow.readLoop missing data = none := by
  induction missing using Nat.strong_induction_on generalizing flow data with
  | _ missing ih =>
      have need : uint32 missing = missing := Nat.mod_eq_of_lt small
      rw [readLoop, if_neg (by omega)]
      split
      · rfl
      · rename_i buff readLen middle piece
        rw [need] at piece
        by_cases more : flow.pending = []
        · have stopped : flow.refill = none := by
            rw [pending, List.append_eq_nil_iff] at more
            obtain ⟨used, queued⟩ := more
            have length := congrArg List.length used
            have inside := readable.inside
            rw [length_slice (by rw [readable.sized]; exact inside), List.length_nil] at length
            have empty : flow.ring = [] := by
              refine List.eq_nil_iff_forall_not_mem.mpr fun item member => ?_
              exact (readable.fits item member).1 (List.flatten_eq_nil_iff.mp queued item member)
            rw [refill, if_pos length, empty]
            rfl
          rw [readFromRingBuf, stopped] at piece
          cases piece
        · obtain ⟨buff', readLen', middle', piece', positive, bound, exact_, split, ready, offset⟩ :=
            readFromRingBuf_spec readable more (show 0 < missing by omega)
          rw [piece'] at piece
          cases piece
          have wanted := readFromRingBuf_le piece'
          have length := congrArg List.length split
          rw [List.length_append, exact_] at length
          split
          · rfl
          · split
            · rfl
            · exact ih (missing - readLen) (by omega) ready _ (by omega) (by omega)

/-- `FlowDataStream` over a ring that is stopped behind its last item is such a pipe. -/
theorem FlowDataStream.read_pipe {flow : FlowDataStream} {pipe : PipeStream}
    (readable : flow.Readable) (pending : flow.pending = pipe.pending)
    (offset : flow.readOffset = pipe.offset) (ends : pipe.ends = true)
    {length start needRead : Nat} (room : needRead ≤ length) (small : needRead < 2 ^ 32) :
    match pipe.read start needRead with
    | .failed => flow.read length start needRead = none
    | .given bytes next => ∃ flow', flow.read length start needRead = some (bytes, flow') ∧
        flow'.Readable ∧ flow'.pending = next.pending ∧ flow'.readOffset = next.offset
    | .blocked => False := by
  have fits := pipe.fits
  rw [PipeStream.read, FlowDataStream.read, offset]
  by_cases same : start = pipe.offset
  · rw [if_neg (not_not.mpr same), if_neg (not_not.mpr same.symm), if_neg (Nat.not_lt_of_le room)]
    by_cases enough : needRead ≤ pipe.pending.length
    · obtain ⟨flow', run, ready, left, kept⟩ :=
        readLoop_spec readable needRead [] (pending ▸ enough) small
      have advanced : size64 (flow'.readOffset + needRead) = pipe.offset + needRead := by
        rw [kept, offset]
        exact Nat.mod_eq_of_lt (by omega)
      rw [dif_pos enough, run]
      refine ⟨{ flow' with readOffset := size64 (flow'.readOffset + needRead) }, ?_, ?_, ?_, advanced⟩
      · rw [pending]
        rfl
      · exact ⟨ready.sized, ready.inside, ready.rewound, ready.fits⟩
      · exact left.trans (congrArg _ pending)
    · rw [dif_neg enough, ends, readLoop_short readable needRead [] (by rw [pending]; omega) small]
      rfl
  · rw [if_pos same, if_pos fun swapped => same swapped.symm]

end Updater.Package
