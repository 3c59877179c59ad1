import Updater.Package.DeflateCompletion
import Updater.Package.PkgAlgoLz4

/-! What a container of LZ4 blocks holds when it is reported as packed or unpacked, and that
unpacking a packed one restores its content. -/

set_option autoImplicit false

namespace Updater.Package

open Updater.Base

section Pack

variable {lz4 : Lz4} {blockSizeID : BlockSizeID} {accepts : Accepts} {source : SourceStream}
  {context : PkgAlgorithmContext}

/-- A complete `Pack`: the input is cut into blocks, and behind the magic number one record of
each of them is written in order. -/
structure Lz4Packed.Complete (lz4 : Lz4) (blockSizeID : BlockSizeID) (source : SourceStream)
    (context : PkgAlgorithmContext) (packed : Lz4Packed) : Prop where
  covers : packed.blocks.flatten = (source.bytesFrom context.srcOffset).take context.unpackedSize
  length : packed.blocks.flatten.length = context.unpackedSize
  blocks : ∀ block ∈ packed.blocks, block ≠ [] ∧ block.length ≤ blockSizeID.blockSize
  written : ∃ compressed,
    List.Forall₂ (fun block out => lz4.compress block blockSizeID.capacity = some out)
      packed.blocks compressed ∧
      written packed.log = leBytes 4 lz4bMagicNumber ++ records lz4bReversedLen compressed
  placed : WritesPlaced context.destOffset packed.log

namespace Lz4PackRun

/-- The block that the turn reads, if it does, is compressed. -/
def Compresses (lz4 : Lz4) (blockSizeID : BlockSizeID) (st : Lz4PackRun) : Prop :=
  ∀ block next,
    st.source.readData st.srcOffset blockSizeID.blockSize st.remainSize = .given block next →
      lz4.compress block blockSizeID.capacity ≠ none

/-- The calls of a turn that goes on. -/
theorem turn_went {st next : Lz4PackRun} (went : st.turn lz4 blockSizeID accepts = .went next) :
    ∃ block source packed needRead,
      st.source.readData st.srcOffset blockSizeID.blockSize st.remainSize = .given block source ∧
      lz4.compress block blockSizeID.capacity = some packed ∧
      next = {
        source
        srcOffset := size64 (st.srcOffset + block.length)
        destOffset := size64 (st.destOffset + packed.length + lz4bReversedLen)
        remainSize := st.remainSize - block.length
        ret := pkgSuccess
        blocks := st.blocks ++ [block]
        log := st.log ++ [.read st.srcOffset needRead (some block)] ++
          [.write (record lz4bReversedLen packed) st.destOffset true] } := by
  rw [turn] at went
  dsimp only at went
  split at went
  · cases went
  · cases went
  · rename_i block source given
    split at went
    · cases went
    · rename_i packed compressed
      split at went
      · rename_i accepted
        rw [accepted] at went
        cases went
        exact ⟨block, source, packed, _, given, compressed, rfl⟩
      · cases went

/-- How a turn breaks off: a stream fails, or a block does not compress. -/
theorem turn_broke {st last : Lz4PackRun} (broke : st.turn lz4 blockSizeID accepts = .broke last) :
    last.blocks = st.blocks ∧ last.srcOffset = st.srcOffset ∧
      (last.ret ≠ pkgSuccess ∨ ¬ st.Compresses lz4 blockSizeID) := by
  have failure : pkgInvalidStream ≠ pkgSuccess := by decide
  rw [turn] at broke
  dsimp only at broke
  split at broke
  · cases broke
  · cases broke
    exact ⟨rfl, rfl, .inl failure⟩
  · rename_i block source given
    split at broke
    · rename_i incompressible
      cases broke
      exact ⟨rfl, rfl, .inr fun compresses => compresses block source given incompressible⟩
    · split at broke
      · cases broke
      · cases broke
        exact ⟨rfl, rfl, .inl failure⟩

theorem turn_incompressible {st : Lz4PackRun} (stops : ¬ st.Compresses lz4 blockSizeID) :
    ∃ last, st.turn lz4 blockSizeID accepts = .broke last ∧ last.blocks = st.blocks := by
  rw [Compresses, not_forall] at stops
  obtain ⟨block, stops⟩ := stops
  rw [not_forall] at stops
  obtain ⟨next, stops⟩ := stops
  rw [Classical.not_imp, not_not] at stops
  obtain ⟨given, incompressible⟩ := stops
  rw [turn]
  simp only [given, incompressible]
  exact ⟨_, rfl, rfl⟩

/-- The loop at its head: the blocks so far are the next bytes of the source, and their records
are what is written. -/
structure Packs (lz4 : Lz4) (blockSizeID : BlockSizeID) (source : SourceStream)
    (context : PkgAlgorithmContext) (st : Lz4PackRun) : Prop where
  gives : source.Gives context.srcOffset st.blocks.flatten st.source
  src : st.srcOffset = context.srcOffset + st.blocks.flatten.length
  small : st.srcOffset < 2 ^ 64
  remain : st.blocks.flatten.length + st.remainSize = context.unpackedSize
  dest : st.destOffset = size64 (context.destOffset + (Package.written st.log).length)
  written : ∃ compressed,
    List.Forall₂ (fun block out => lz4.compress block blockSizeID.capacity = some out)
      st.blocks compressed ∧
      Package.written st.log = leBytes 4 lz4bMagicNumber ++ records lz4bReversedLen compressed
  placed : WritesPlaced context.destOffset st.log
  sized : ∀ block ∈ st.blocks, block.length ≤ blockSizeID.blockSize
  filled : (∀ block ∈ st.blocks, block ≠ []) ∨ st.source.Endless st.srcOffset st.remainSize
  ret : st.ret = pkgSuccess

theorem packs_start : Packs lz4 blockSizeID source context (lz4PackStart source context) where
  gives := SourceStream.Gives.refl source _
  src := rfl
  small := context.srcSmall
  remain := Nat.zero_add _
  dest := rfl
  written := ⟨[], .nil, rfl⟩
  placed := writesPlaced_write context.destSmall
  sized := fun block member => by cases member
  filled := .inl fun block member => by cases member
  ret := rfl

/-- Step lemma: a turn that goes on. -/
theorem Packs.step {st next : Lz4PackRun} (packs : Packs lz4 blockSizeID source context st)
    (more : st.goesOn = true) (went : st.turn lz4 blockSizeID accepts = .went next) :
    Packs lz4 blockSizeID source context next := by
  obtain ⟨block, behind, packed, needRead, read, compressed, rfl⟩ := turn_went went
  obtain ⟨bound, sized, gives⟩ := SourceStream.readData_gives read
  have advanced := size64_behind gives packs.small
  have remain := packs.remain
  have src := packs.src
  obtain ⟨outs, pairs, log⟩ := packs.written
  have flatten : (st.blocks ++ [block]).flatten = st.blocks.flatten ++ block := by
    rw [List.flatten_append, List.flatten_singleton]
  have newLog : Package.written (st.log ++ [.read st.srcOffset needRead (some block)] ++
      [.write (record lz4bReversedLen packed) st.destOffset true]) =
        Package.written st.log ++ record lz4bReversedLen packed := by
    rw [written_append, written_append, written_read, written_write, List.append_nil]
  constructor
  · dsimp only
    rw [flatten]
    exact packs.gives.trans (src ▸ gives)
  · dsimp only
    rw [advanced, flatten, List.length_append, ← Nat.add_assoc, ← src]
  · exact Nat.mod_lt _ (by decide)
  · dsimp only
    rw [flatten, List.length_append]
    omega
  · dsimp only
    rw [newLog, List.length_append, length_record, packs.dest, Nat.add_assoc, size64_add,
      Nat.add_comm packed.length, Nat.add_assoc]
  · refine ⟨outs ++ [packed], List.rel_append pairs (.cons compressed .nil), ?_⟩
    rw [newLog, log, records_append, records_cons, records_nil, List.append_nil, List.append_assoc]
  · have small : st.destOffset < 2 ^ 64 := packs.dest ▸ Nat.mod_lt _ (by decide)
    refine (packs.placed.append writesPlaced_read).append ?_
    rw [written_append, written_read, List.append_nil, ← packs.dest]
    exact writesPlaced_write small
  · intro other member
    rw [List.mem_append, List.mem_singleton] at member
    rcases member with before | rfl
    · exact packs.sized other before
    · exact sized
  · have left_ : 0 < st.remainSize := of_decide_eq_true more
    rw [readData_positive (Nat.ne_of_gt left_) blockSizeID.blockSize_pos] at read
    have goes (endless : st.source.Endless st.srcOffset st.remainSize) :
        behind.Endless (size64 (st.srcOffset + block.length)) (st.remainSize - block.length) :=
      advanced.symm ▸ endless.read (Nat.min_le_left _ _) read
    rcases packs.filled with nonempty | endless
    · by_cases nothing : block = []
      · right
        subst nothing
        have room := blockSizeID.blockSize_pos
        exact goes (SourceStream.endless_of_given_nil read (by omega) (Nat.min_le_left _ _))
      · left
        intro other member
        rw [List.mem_append, List.mem_singleton] at member
        rcases member with before | rfl
        · exact nonempty other before
        · exact nothing
    · exact .inr (goes endless)
  · rfl

theorem packs_reached {st : Lz4PackRun}
    (reaches : TurnLoop.Reaches goesOn (turn lz4 blockSizeID accepts)
      (lz4PackStart source context) st) : Packs lz4 blockSizeID source context st :=
  reaches.keeps (Packs lz4 blockSizeID source context) packs_start
    fun _ _ packs more went => packs.step more went

theorem finish_kept (last : Lz4PackRun) :
    (last.finish context).blocks = last.blocks ∧ (last.finish context).log = last.log := by
  rw [finish]
  split
  · exact ⟨rfl, rfl⟩
  · exact ⟨rfl, rfl⟩

theorem Packs.complete {st : Lz4PackRun} (packs : Packs lz4 blockSizeID source context st)
    (done : st.goesOn = false) :
    (st.finish context).Complete lz4 blockSizeID source context := by
  obtain ⟨blocks, log⟩ := @finish_kept context st
  have remain := packs.remain
  have none : st.remainSize = 0 := Nat.eq_zero_of_not_pos (of_decide_eq_false done)
  have length : st.blocks.flatten.length = context.unpackedSize := by omega
  have nonempty : ∀ block ∈ st.blocks, block ≠ [] := by
    rcases packs.filled with nonempty | endless
    · exact nonempty
    · exact absurd (none ▸ Nat.zero_le _) endless.1
  constructor
  · rw [blocks, ← length]
    exact packs.gives.take.symm
  · rw [blocks, length]
  · rw [blocks]
    exact fun block member => ⟨nonempty block member, packs.sized block member⟩
  · rw [blocks, log]
    exact packs.written
  · rw [log]
    exact packs.placed

/-- At its end the loop leaves the size of what it has written. -/
theorem Packs.packedSize {st : Lz4PackRun} (packs : Packs lz4 blockSizeID source context st)
    (done : st.goesOn = false) :
    (st.finish context).context.packedSize = size64 (Package.written st.log).length := by
  have remain := packs.remain
  have small := packs.small
  have none : st.remainSize = 0 := Nat.eq_zero_of_not_pos (of_decide_eq_false done)
  have whole : sub64 st.srcOffset context.srcOffset = context.unpackedSize := by
    rw [packs.src, sub64]
    have declared := context.unpackedSmall
    omega
  have start := context.destSmall
  rw [finish, whole, if_neg (not_not.mpr rfl)]
  dsimp only
  rw [packs.dest, sub64, size64, size64]
  omega

/-- Before its end the loop has packed fewer bytes than declared. -/
theorem Packs.short {st : Lz4PackRun} (packs : Packs lz4 blockSizeID source context st)
    (more : st.goesOn = true) : st.blocks.flatten.length < context.unpackedSize := by
  have remain := packs.remain
  have left_ : 0 < st.remainSize := of_decide_eq_true more
  omega

/-- Left before its end, the loop is reported with what its last read or write gave. -/
theorem Packs.finish_ret {st last : Lz4PackRun}
    (packs : Packs lz4 blockSizeID source context st) (more : st.goesOn = true)
    (src : last.srcOffset = st.srcOffset) : (last.finish context).ret = last.ret := by
  have short := packs.short more
  have start := context.srcSmall
  have declared := context.unpackedSmall
  have packed : sub64 last.srcOffset context.srcOffset = st.blocks.flatten.length := by
    rw [src, packs.src, sub64]
    omega
  rw [finish, packed, if_pos (Nat.ne_of_lt short)]

end Lz4PackRun

/-- Where a block does not compress, `Pack` stops short of its input. -/
theorem lz4Pack_stops {fuel : Nat} {packed : Lz4Packed}
    (run : lz4Pack lz4 blockSizeID accepts fuel source context = some packed) {st : Lz4PackRun}
    (reaches : TurnLoop.Reaches Lz4PackRun.goesOn (Lz4PackRun.turn lz4 blockSizeID accepts)
      (lz4PackStart source context) st) (more : st.goesOn = true)
    (stops : ¬ st.Compresses lz4 blockSizeID) :
    packed.blocks.flatten.length < context.unpackedSize := by
  have short := (Lz4PackRun.packs_reached reaches).short more
  rw [lz4Pack] at run
  split at run
  · obtain ⟨last, loop, rfl⟩ := Option.map_eq_some_iff.mp run
    obtain ⟨broken, broke, blocks⟩ := Lz4PackRun.turn_incompressible stops
    obtain rfl := reaches.breaks loop more broke
    rw [(Lz4PackRun.finish_kept last).1, blocks]
    exact short
  · cases run
    exact Nat.zero_lt_of_lt short

/-- Where every block compresses, a successful `Pack` has left its loop at the end. -/
theorem lz4Pack_head {fuel : Nat} {packed : Lz4Packed}
    (run : lz4Pack lz4 blockSizeID accepts fuel source context = some packed)
    (success : packed.ret = pkgSuccess)
    (compresses : ∀ st,
      TurnLoop.Reaches Lz4PackRun.goesOn (Lz4PackRun.turn lz4 blockSizeID accepts)
        (lz4PackStart source context) st → st.goesOn = true → st.Compresses lz4 blockSizeID) :
    ∃ st : Lz4PackRun, st.Packs lz4 blockSizeID source context ∧ st.goesOn = false ∧
      packed = st.finish context := by
  rw [lz4Pack] at run
  split at run
  · obtain ⟨last, loop, rfl⟩ := Option.map_eq_some_iff.mp run
    obtain ⟨before, reaches, leaves⟩ := TurnLoop.run_left loop
    have packs := Lz4PackRun.packs_reached reaches
    cases leaves with
    | head done same => exact ⟨before, packs, done, by rw [same]⟩
    | broke more broke =>
        obtain ⟨-, src, failed | stops⟩ := Lz4PackRun.turn_broke broke
        · rw [packs.finish_ret more src] at success
          exact absurd success failed
        · exact absurd (compresses before reaches more) stops
  · cases run
    cases success

/-- The size that it leaves then is that of what it has written. -/
theorem lz4Pack_packedSize {fuel : Nat} {packed : Lz4Packed}
    (run : lz4Pack lz4 blockSizeID accepts fuel source context = some packed)
    (success : packed.ret = pkgSuccess)
    (compresses : ∀ st,
      TurnLoop.Reaches Lz4PackRun.goesOn (Lz4PackRun.turn lz4 blockSizeID accepts)
        (lz4PackStart source context) st → st.goesOn = true → st.Compresses lz4 blockSizeID) :
    packed.context.packedSize = size64 (written packed.log).length := by
  obtain ⟨before, packs, done, rfl⟩ := lz4Pack_head run success compresses
  rw [packs.packedSize done, (Lz4PackRun.finish_kept before).2]

/-- A successful `Pack` is complete if and only if every block that it read was compressed, in
four bytes less than the bound. -/
theorem lz4Pack_complete_iff {fuel : Nat} {packed : Lz4Packed}
    (run : lz4Pack lz4 blockSizeID accepts fuel source context = some packed)
    (success : packed.ret = pkgSuccess) :
    packed.Complete lz4 blockSizeID source context ↔
      ∀ st, TurnLoop.Reaches Lz4PackRun.goesOn (Lz4PackRun.turn lz4 blockSizeID accepts)
        (lz4PackStart source context) st → st.goesOn = true → st.Compresses lz4 blockSizeID := by
  constructor
  · intro complete st reaches more
    by_contra stops
    exact absurd complete.length (Nat.ne_of_lt (lz4Pack_stops run reaches more stops))
  · intro compresses
    obtain ⟨before, packs, done, rfl⟩ := lz4Pack_head run success compresses
    exact packs.complete done

end Pack

section Unpack

variable {lz4 : Lz4} {accepts : Accepts} {source : SourceStream} {context : PkgAlgorithmContext}

namespace Lz4Record

/-- The bytes that were read of a record. -/
def bytes (entry : Lz4Record) : Bytes :=
  entry.size ++ entry.block

theorem Whole.bytes_eq {entry : Lz4Record} (whole : entry.Whole) :
    entry.bytes = record 4 entry.block := by
  rw [bytes, whole, record]

end Lz4Record

/-- A complete `Unpack`: the records that were decoded and written make up the declared bytes of
the source. -/
structure Lz4Unpacked.Complete (lz4 : Lz4) (source : SourceStream) (context : PkgAlgorithmContext)
    (unpacked : Lz4Unpacked) : Prop where
  covers : records 4 (unpacked.entries.map Lz4Record.block) =
    (source.bytesFrom context.srcOffset).take context.packedSize
  length : (unpacked.entries.flatMap Lz4Record.bytes).length = context.packedSize
  whole : ∀ entry ∈ unpacked.entries, entry.Whole
  fits : ∀ entry ∈ unpacked.entries, entry.block.length ≤ lz4InBuffSize
  decoded : ∀ entry ∈ unpacked.entries,
    lz4.decompress entry.block lz4bBlockSize = some entry.decoded
  written : written unpacked.log = unpacked.entries.flatMap Lz4Record.decoded
  placed : WritesPlaced context.destOffset unpacked.log

/-- Calls that write nothing: reads, and a refused write. -/
def Fruitless (destOffset : Nat) (events : List CopyEvent) : Prop :=
  ∀ event ∈ events, (∃ src needRead bytes, event = .read src needRead bytes) ∨
    ∃ bytes, event = .write bytes destOffset false

theorem fruitless_singleton {destOffset : Nat} {event : CopyEvent}
    (calls : (∃ src needRead bytes, event = .read src needRead bytes) ∨
      ∃ bytes, event = .write bytes destOffset false) : Fruitless destOffset [event] := by
  intro other member
  rw [List.mem_singleton] at member
  exact member ▸ calls

theorem Fruitless.append {destOffset : Nat} {front back : List CopyEvent}
    (first : Fruitless destOffset front) (second : Fruitless destOffset back) :
    Fruitless destOffset (front ++ back) := by
  intro event member
  rw [List.mem_append] at member
  exact member.elim (first event) (second event)

theorem Fruitless.written {destOffset : Nat} {events : List CopyEvent}
    (fruitless : Fruitless destOffset events) : written events = [] := by
  rw [Package.written, List.flatMap_eq_nil_iff]
  intro event member
  obtain ⟨src, needRead, bytes, rfl⟩ | ⟨bytes, rfl⟩ := fruitless event member
  · rfl
  · rfl

theorem Fruitless.placed {destOffset : Nat} {events : List CopyEvent}
    (fruitless : Fruitless destOffset events) (small : destOffset < 2 ^ 64) :
    WritesPlaced destOffset events := by
  intro i bytes offset accepted found
  have before : Fruitless destOffset (events.take i) := fun event member =>
    fruitless event (List.mem_of_mem_take member)
  rw [before.written]
  obtain ⟨src, needRead, bytes, same⟩ | ⟨bytes, same⟩ :=
    fruitless _ (List.mem_of_getElem? found)
  · cases same
  · cases same
    exact (Nat.mod_eq_of_lt small).symm

namespace Lz4UnpackRun

/-- The turn takes a record whole: its size and its block are read to their end, the block is
decoded, and what it gives is written. -/
def TakesWhole (lz4 : Lz4) (accepts : Accepts) (st : Lz4UnpackRun) : Prop :=
  ∃ size block middle next decoded,
    st.readBuffer 4 = .given size middle ∧ size.length = 4 ∧ leValue size ≤ lz4InBuffSize ∧
      (st.sized size middle).readBuffer (leValue size) = .given block next ∧
      block.length = leValue size ∧ lz4.decompress block lz4bBlockSize = some decoded ∧
      accepts ((st.sized size middle).filled (leValue size) block next).log.length decoded
        st.destOffset = true

/-- The run behind a record that was decoded and written. -/
def took (st : Lz4UnpackRun) (entry : Lz4Record) (blockSize : Nat) (source : SourceStream) :
    Lz4UnpackRun :=
  { st.filled blockSize entry.block source with
    srcOffset := size64 (st.srcOffset + entry.block.length)
    destOffset := size64 (st.destOffset + entry.decoded.length)
    entries := st.entries ++ [entry]
    log := (st.filled blockSize entry.block source).log ++
      [.write entry.decoded st.destOffset true] }

/-- The calls of a turn that goes on. -/
theorem turn_went {st next : Lz4UnpackRun} (went : st.turn lz4 accepts = .went next) :
    ∃ size block middle behind decoded,
      st.readBuffer 4 = .given size middle ∧ size ≠ [] ∧
      leValue (st.sized size middle).front ≤ lz4InBuffSize ∧
      (st.sized size middle).readBuffer (leValue (st.sized size middle).front) =
        .given block behind ∧
      lz4.decompress block lz4bBlockSize = some decoded ∧
      accepts ((st.sized size middle).filled (leValue (st.sized size middle).front) block
        behind).log.length decoded st.destOffset = true ∧
      next = (st.sized size middle).took ⟨size, block, decoded⟩
        (leValue (st.sized size middle).front) behind := by
  rw [turn] at went
  split at went
  · cases went
  · cases went
  · rename_i size middle read
    dsimp only at went
    split at went
    · cases went
    rename_i sane
    rw [not_or, Nat.not_lt] at sane
    rw [turnBlock] at went
    split at went
    · cases went
    · cases went
    · rename_i block behind given
      split at went
      · cases went
      · rename_i decoded decompressed
        dsimp only at went
        split at went
        · rename_i accepted
          rw [accepted] at went
          cases went
          exact ⟨size, block, middle, behind, decoded, read, sane.1, sane.2, given, decompressed,
            accepted, rfl⟩
        · cases went

/-- A block that is read, decoded and written. -/
theorem turnBlock_took {st : Lz4UnpackRun} {entry : Lz4Record} {blockSize : Nat}
    {source : SourceStream} (read : st.readBuffer blockSize = .given entry.block source)
    (decompressed : lz4.decompress entry.block lz4bBlockSize = some entry.decoded)
    (accepted : accepts (st.filled blockSize entry.block source).log.length entry.decoded
      st.destOffset = true) :
    st.turnBlock lz4 accepts entry.size blockSize = .went (st.took entry blockSize source) := by
  rw [turnBlock, read]
  dsimp only
  rw [decompressed]
  dsimp only
  have written : accepts (st.filled blockSize entry.block source).log.length entry.decoded
      (st.filled blockSize entry.block source).destOffset = true := accepted
  rw [written, if_pos rfl]
  rfl

theorem append_calls (log front middle back : List CopyEvent) :
    log ++ front ++ middle ++ back = log ++ (front ++ middle ++ back) := by
  rw [List.append_assoc, List.append_assoc, List.append_assoc]

/-- A turn that breaks off writes nothing. -/
theorem turn_broke {st last : Lz4UnpackRun} (broke : st.turn lz4 accepts = .broke last) :
    last.entries = st.entries ∧
      ∃ events, last.log = st.log ++ events ∧ Fruitless st.destOffset events := by
  have read (srcOffset needRead : Nat) (bytes : Option Bytes) :
      Fruitless st.destOffset [.read srcOffset needRead bytes] :=
    fruitless_singleton (.inl ⟨_, _, _, rfl⟩)
  rw [turn] at broke
  split at broke
  · cases broke
  · cases broke
    exact ⟨rfl, _, rfl, read _ _ _⟩
  · rename_i size middle given
    dsimp only at broke
    split at broke
    · cases broke
      exact ⟨rfl, _, rfl, read _ _ _⟩
    rw [turnBlock] at broke
    split at broke
    · cases broke
    · cases broke
      exact ⟨rfl, _, List.append_assoc _ _ _, (read _ _ _).append (read _ _ _)⟩
    · split at broke
      · cases broke
        exact ⟨rfl, _, List.append_assoc _ _ _, (read _ _ _).append (read _ _ _)⟩
      · dsimp only at broke
        split at broke
        · cases broke
        · rename_i refused
          rw [Bool.not_eq_true] at refused
          rw [refused] at broke
          cases broke
          exact ⟨rfl, _, append_calls _ _ _ _, ((read _ _ _).append (read _ _ _)).append
            (fruitless_singleton (.inr ⟨_, rfl⟩))⟩

/-- The loop at its head: as long as the records were whole, they are the next bytes of the
source. -/
structure Unpacks (lz4 : Lz4) (source : SourceStream) (context : PkgAlgorithmContext)
    (st : Lz4UnpackRun) : Prop where
  small : st.srcOffset < 2 ^ 64
  count : (st.entries.flatMap Lz4Record.bytes).length + st.packedSize = context.packedSize
  gives : (∀ entry ∈ st.entries, entry.Whole) →
    source.Gives context.srcOffset (st.entries.flatMap Lz4Record.bytes) st.source ∧
      st.srcOffset = context.srcOffset + (st.entries.flatMap Lz4Record.bytes).length
  fits : ∀ entry ∈ st.entries, entry.block.length ≤ lz4InBuffSize
  decoded : ∀ entry ∈ st.entries, lz4.decompress entry.block lz4bBlockSize = some entry.decoded
  written : Package.written st.log = st.entries.flatMap Lz4Record.decoded
  dest : st.destOffset = size64 (context.destOffset + (Package.written st.log).length)
  placed : WritesPlaced context.destOffset st.log

theorem unpacks_start : Unpacks lz4 source context (lz4UnpackStart source context) where
  small := context.srcSmall
  count := Nat.zero_add _
  gives := fun _ => ⟨SourceStream.Gives.refl source _, rfl⟩
  fits := fun entry member => by cases member
  decoded := fun entry member => by cases member
  written := rfl
  dest := (Nat.mod_eq_of_lt context.destSmall).symm
  placed := fun i bytes offset accepted found => by cases found

/-- Step lemma: a turn that goes on. -/
theorem Unpacks.step {st next : Lz4UnpackRun} (unpacks : Unpacks lz4 source context st)
    (went : st.turn lz4 accepts = .went next) : Unpacks lz4 source context next := by
  obtain ⟨size, block, middle, behind, decoded, read, -, fits, given, decompressed, -, rfl⟩ :=
    turn_went went
  obtain ⟨sizeBound, four, sizeGives⟩ := SourceStream.readData_gives read
  obtain ⟨blockBound, asked, blockGives⟩ := SourceStream.readData_gives given
  have bounded := Nat.le_trans asked fits
  have count := unpacks.count
  generalize leValue (st.sized size middle).front = blockSize
  have reads : Package.written ((st.sized size middle).filled blockSize block behind).log =
      Package.written st.log := by
    dsimp only [sized, filled]
    rw [written_append, written_append, written_read, written_read, List.append_nil,
      List.append_nil]
  have bytes : (st.entries ++ [Lz4Record.mk size block decoded]).flatMap Lz4Record.bytes =
      st.entries.flatMap Lz4Record.bytes ++ (size ++ block) := by
    rw [List.flatMap_append]
    exact congrArg _ (List.append_nil _)
  constructor
  · exact Nat.mod_lt _ (by decide)
  · dsimp only [sized, filled, took] at blockBound ⊢
    rw [bytes, List.length_append, List.length_append]
    omega
  · intro whole
    dsimp only [sized, filled, took] at whole ⊢
    rw [List.forall_mem_append] at whole
    obtain ⟨gives, src⟩ := unpacks.gives whole.1
    have entry : size = leBytes 4 block.length := whole.2 _ (List.mem_singleton_self _)
    have length : size.length = 4 := by rw [entry, length_leBytes]
    have first := size64_behind sizeGives unpacks.small
    have second := size64_behind blockGives (Nat.mod_lt _ (by decide))
    rw [length] at first
    dsimp only [sized, filled] at second blockGives
    rw [first] at second blockGives
    rw [bytes, first, second]
    constructor
    · refine gives.trans ?_
      rw [← src]
      refine sizeGives.trans ?_
      rw [length]
      exact blockGives
    · rw [List.length_append, List.length_append, length, src]
      omega
  · intro entry member
    rcases List.mem_append.mp member with before | last
    · exact unpacks.fits entry before
    · rw [List.mem_singleton] at last
      subst last
      exact bounded
  · intro entry member
    rcases List.mem_append.mp member with before | last
    · exact unpacks.decoded entry before
    · rw [List.mem_singleton] at last
      subst last
      exact decompressed
  · dsimp only [took]
    rw [written_append, written_write, reads, unpacks.written, List.flatMap_append]
    exact congrArg _ (List.append_nil _).symm
  · dsimp only [took]
    change size64 (st.destOffset + decoded.length) = _
    rw [written_append, written_write, reads, List.length_append, ← Nat.add_assoc, unpacks.dest,
      size64_add]
  · have small : st.destOffset < 2 ^ 64 := unpacks.dest ▸ Nat.mod_lt _ (by decide)
    refine ((unpacks.placed.append writesPlaced_read).append writesPlaced_read).append ?_
    change WritesPlaced (size64 (_ +
      (Package.written ((st.sized size middle).filled blockSize block behind).log).length)) _
    rw [reads, ← unpacks.dest]
    exact writesPlaced_write small

theorem unpacks_reached {st : Lz4UnpackRun}
    (reaches : TurnLoop.Reaches (fun _ => true) (turn lz4 accepts) (lz4UnpackStart source context)
      st) : Unpacks lz4 source context st :=
  reaches.keeps (Unpacks lz4 source context) unpacks_start fun _ _ unpacks _ went =>
    unpacks.step went

theorem lz4InBuffSize_small : lz4InBuffSize < 256 ^ 4 := by decide

/-- The first bytes of the buffer behind a read of four. -/
theorem front_filled (st : Lz4UnpackRun) {size : Bytes} (middle : SourceStream)
    (length : size.length = 4) : (st.sized size middle).front = size := by
  rw [sized, filled]
  dsimp only
  rw [List.take_append_of_le_length (Nat.le_of_eq length.symm), List.take_of_length_le
    (Nat.le_of_eq length)]

/-- A turn whose record is whole takes it whole. -/
theorem takesWhole_of_went {st next : Lz4UnpackRun} (went : st.turn lz4 accepts = .went next)
    (whole : ∀ entry ∈ next.entries, entry.Whole) : st.TakesWhole lz4 accepts := by
  obtain ⟨size, block, middle, behind, decoded, read, -, fits, given, decompressed, accepted, rfl⟩ :=
    turn_went went
  have entry : size = leBytes 4 block.length :=
    whole _ (List.mem_append_right _ (List.mem_singleton_self _))
  have length : size.length = 4 := by rw [entry, length_leBytes]
  rw [front_filled st middle length] at fits given accepted
  have bound := (SourceStream.readData_gives given).2.1
  have small := lz4InBuffSize_small
  refine ⟨size, block, middle, behind, decoded, read, length, fits, given, ?_, decompressed, accepted⟩
  have value := leValue_leBytes_of_lt (show block.length < 256 ^ 4 by omega)
  rw [← entry] at value
  exact value.symm

/-- A turn that takes its record whole goes on. -/
theorem TakesWhole.went {st : Lz4UnpackRun} (takes : st.TakesWhole lz4 accepts) :
    ∃ next, st.turn lz4 accepts = .went next ∧
      ((∀ entry ∈ st.entries, entry.Whole) → ∀ entry ∈ next.entries, entry.Whole) := by
  obtain ⟨size, block, middle, behind, decoded, read, length, fits, given, whole, decompressed,
    accepted⟩ := takes
  have some_ : size ≠ [] := by
    intro nothing
    rw [nothing] at length
    cases length
  have front : (st.filled 4 size middle).front = size := front_filled st middle length
  refine ⟨(st.sized size middle).took ⟨size, block, decoded⟩ (leValue size) behind, ?_,
    fun before entry member => ?_⟩
  · have sane : ¬ (size = [] ∨ leValue size > lz4InBuffSize) := by
      rw [not_or, Nat.not_lt]
      exact ⟨some_, fits⟩
    rw [turn, read]
    dsimp only
    rw [front, if_neg sane]
    exact @turnBlock_took lz4 accepts _ ⟨size, block, decoded⟩ _ _ given decompressed accepted
  · rcases List.mem_append.mp member with old | last
    · exact before entry old
    · rw [List.mem_singleton] at last
      subst last
      have bytes := leBytes_leValue size
      rw [length, ← whole] at bytes
      exact bytes.symm

/-- A turn that goes on was asked for some bytes. -/
theorem packedSize_pos {st next : Lz4UnpackRun} (went : st.turn lz4 accepts = .went next) :
    0 < st.packedSize := by
  obtain ⟨size, block, middle, behind, decoded, read, some_, -⟩ := turn_went went
  have bound := (SourceStream.readData_gives read).1
  have positive := List.length_pos_iff.mpr some_
  omega

theorem entries_prefix {st last : Lz4UnpackRun} {fuel : Nat}
    (run : TurnLoop.run (fun _ => true) (turn lz4 accepts) fuel st = some last) :
    st.entries <+: last.entries := by
  obtain ⟨before, reaches, leaves⟩ := TurnLoop.run_left run
  have grows : st.entries <+: before.entries := by
    refine reaches.keeps (fun other => st.entries <+: other.entries) (List.prefix_refl _) ?_
    intro middle next grown _ went
    obtain ⟨size, block, source, behind, decoded, -, -, -, -, -, -, rfl⟩ := turn_went went
    exact grown.trans (List.prefix_append _ _)
  cases leaves with
  | head done _ => cases done
  | broke _ broke =>
      rw [(turn_broke broke).1]
      exact grows

theorem Unpacks.records_eq {st : Lz4UnpackRun} (whole : ∀ entry ∈ st.entries, entry.Whole) :
    st.entries.flatMap Lz4Record.bytes = records 4 (st.entries.map Lz4Record.block) := by
  rw [records, List.flatMap_map]
  exact List.flatMap_congr fun entry member => (whole entry member).bytes_eq

end Lz4UnpackRun

/-- `Unpack` succeeds always, and is complete if and only if each turn that has declared bytes
left takes a record whole. -/
theorem lz4Unpack_complete_iff {fuel : Nat} {unpacked : Lz4Unpacked}
    (run : lz4Unpack lz4 accepts fuel source context = some unpacked) :
    unpacked.Complete lz4 source context ↔
      ∀ st, TurnLoop.Reaches (fun _ => true) (Lz4UnpackRun.turn lz4 accepts)
        (lz4UnpackStart source context) st → 0 < st.packedSize → st.TakesWhole lz4 accepts := by
  obtain ⟨last, loop, rfl⟩ := Option.map_eq_some_iff.mp run
  constructor
  · intro complete st reaches more
    have count := (Lz4UnpackRun.unpacks_reached reaches).count
    have length : (last.entries.flatMap Lz4Record.bytes).length = context.packedSize :=
      complete.length
    cases taken : st.turn lz4 accepts with
    | blocked => exact absurd taken (reaches.not_blocked loop rfl)
    | broke broken =>
        obtain rfl := reaches.breaks loop rfl taken
        rw [(Lz4UnpackRun.turn_broke taken).1] at length
        omega
    | went next =>
        obtain ⟨fuel, rest⟩ := (reaches.turn rfl taken).run_some loop
        have grown := Lz4UnpackRun.entries_prefix rest
        exact Lz4UnpackRun.takesWhole_of_went taken fun entry member =>
          complete.whole entry (grown.subset member)
  · intro takes
    obtain ⟨before, reaches, leaves⟩ := TurnLoop.run_left loop
    have whole : ∀ entry ∈ before.entries, entry.Whole := by
      refine (reaches.keeps (fun st => TurnLoop.Reaches (fun _ => true)
        (Lz4UnpackRun.turn lz4 accepts) (lz4UnpackStart source context) st ∧
          ∀ entry ∈ st.entries, entry.Whole) ⟨.start, fun entry member => by cases member⟩ ?_).2
      rintro st next ⟨reached, whole⟩ more went
      refine ⟨reached.turn more went, ?_⟩
      obtain ⟨next', went', keeps⟩ := (takes st reached (Lz4UnpackRun.packedSize_pos went)).went
      cases went.symm.trans went'
      exact keeps whole
    have unpacks := Lz4UnpackRun.unpacks_reached reaches
    obtain ⟨gives, -⟩ := unpacks.gives whole
    cases leaves with
    | head done _ => cases done
    | broke _ broke =>
        have none : before.packedSize = 0 := by
          by_contra more
          obtain ⟨next, went, -⟩ := (takes before reaches (Nat.pos_of_ne_zero more)).went
          cases went.symm.trans broke
        have count := unpacks.count
        rw [none, Nat.add_zero] at count
        obtain ⟨entries, events, log, fruitless⟩ := Lz4UnpackRun.turn_broke broke
        constructor
        · change records 4 (last.entries.map Lz4Record.block) = _
          rw [entries, ← Lz4UnpackRun.Unpacks.records_eq whole, ← count]
          exact gives.take.symm
        · change (last.entries.flatMap Lz4Record.bytes).length = _
          rw [entries, count]
        · change ∀ entry ∈ last.entries, entry.Whole
          rw [entries]
          exact whole
        · change ∀ entry ∈ last.entries, entry.block.length ≤ lz4InBuffSize
          rw [entries]
          exact unpacks.fits
        · change ∀ entry ∈ last.entries, _
          rw [entries]
          exact unpacks.decoded
        · change written last.log = last.entries.flatMap Lz4Record.decoded
          rw [entries, log, written_append, fruitless.written, List.append_nil, unpacks.written]
        · change WritesPlaced _ last.log
          rw [log]
          refine unpacks.placed.append ?_
          rw [← unpacks.dest]
          exact fruitless.placed (unpacks.dest ▸ Nat.mod_lt _ (by decide))

end Unpack

section RoundTrip

variable {lz4 : Lz4}

theorem BlockSizeID.blockSize_le (blockSizeID : BlockSizeID) :
    blockSizeID.blockSize ≤ lz4bBlockSize :=
  Nat.min_le_right _ _

/-- What `Pack` makes of a block, `Unpack` has room for. -/
theorem BlockSizeID.capacity_le (blockSizeID : BlockSizeID) :
    blockSizeID.capacity ≤ lz4InBuffSize := by
  have bound := blockSizeID.blockSize_le
  have limit : lz4bBlockSize ≤ lz4MaxInputSize := by decide
  rw [capacity, lz4InBuffSize, compressBound, compressBound, if_neg (by omega), if_neg (by omega)]
  have steps := Nat.div_le_div_right bound (c := 255)
  omega

theorem compressed_le {blocks compressed : List Bytes} {capacity : Nat}
    (pairs : List.Forall₂ (fun block out => lz4.compress block capacity = some out) blocks
      compressed) : ∀ out ∈ compressed, out.length ≤ capacity := by
  induction pairs with
  | nil => exact fun out member => by cases member
  | cons pair pairs ih =>
      rw [List.forall_mem_cons]
      exact ⟨(lz4.compress_fits _ _ _ pair).2, ih⟩

/-- The decoded records of compressed blocks are the blocks. -/
theorem decoded_eq {blocks compressed : List Bytes} {entries : List Lz4Record} {capacity : Nat}
    (pairs : List.Forall₂ (fun block out => lz4.compress block capacity = some out) blocks
      compressed)
    (sane : ∀ block ∈ blocks, block ≠ [] ∧ block.length ≤ lz4bBlockSize)
    (same : entries.map Lz4Record.block = compressed)
    (decoded : ∀ entry ∈ entries, lz4.decompress entry.block lz4bBlockSize = some entry.decoded) :
    entries.flatMap Lz4Record.decoded = blocks.flatten := by
  induction pairs generalizing entries with
  | nil =>
      rw [List.map_eq_nil_iff.mp same]
      rfl
  | cons pair pairs ih =>
      cases entries with
      | nil => cases same
      | cons entry entries =>
          rw [List.map_cons, List.cons.injEq] at same
          rw [List.forall_mem_cons] at sane decoded
          have back := lz4.decompress_compress _ _ _ lz4bBlockSize pair sane.1.1 sane.1.2
          rw [← same.1, decoded.1] at back
          rw [List.flatMap_cons, List.flatten_cons, ih sane.2 same.2 decoded.2,
            Option.some.inj back]

/-- Unpacking the records behind the magic number of a complete pack restores its input. -/
theorem lz4Unpack_restores {blockSizeID : BlockSizeID}
    {source packedSource : SourceStream} {context packedContext : PkgAlgorithmContext}
    {packed : Lz4Packed} {unpacked : Lz4Unpacked}
    (complete : unpacked.Complete lz4 packedSource packedContext)
    (pack : packed.Complete lz4 blockSizeID source context)
    (same : (packedSource.bytesFrom packedContext.srcOffset).take packedContext.packedSize =
      (written packed.log).drop 4) :
    written unpacked.log = (source.bytesFrom context.srcOffset).take context.unpackedSize := by
  obtain ⟨compressed, pairs, log⟩ := pack.written
  have small := Lz4UnpackRun.lz4InBuffSize_small
  have room := blockSizeID.capacity_le
  have blocks : records 4 (unpacked.entries.map Lz4Record.block) = records 4 compressed := by
    rw [complete.covers, same, log, List.drop_left' (length_leBytes 4 lz4bMagicNumber)]
    rfl
  have fits : ∀ block ∈ unpacked.entries.map Lz4Record.block, block.length < 256 ^ 4 := by
    intro block member
    obtain ⟨entry, inside, rfl⟩ := List.mem_map.mp member
    exact Nat.lt_of_le_of_lt (complete.fits entry inside) small
  have fits' : ∀ block ∈ compressed, block.length < 256 ^ 4 := by
    intro out member
    have bound := compressed_le pairs out member
    omega
  rw [complete.written, decoded_eq pairs (fun block member => ?_)
    (records_injective (by decide) fits fits' blocks) complete.decoded, pack.covers]
  exact ⟨(pack.blocks block member).1,
    Nat.le_trans (pack.blocks block member).2 blockSizeID.blockSize_le⟩

end RoundTrip

/-- `Pack` of LZ4 blocks reports success only on completion if and only if each block that it
reads compresses to four bytes less than the bound; `Unpack` reports success always, and is
complete if and only if each turn takes a record whole; so unpacking a complete pack restores
its input. -/
theorem lz4_complete_iff (lz4 : Lz4) (blockSizeID : BlockSizeID) (accepts : Accepts) (fuel : Nat)
    (source : SourceStream) (context : PkgAlgorithmContext) :
    (∀ packed, lz4Pack lz4 blockSizeID accepts fuel source context = some packed →
      packed.ret = pkgSuccess → (packed.Complete lz4 blockSizeID source context ↔
        ∀ st, TurnLoop.Reaches Lz4PackRun.goesOn (Lz4PackRun.turn lz4 blockSizeID accepts)
          (lz4PackStart source context) st → st.goesOn = true →
            st.Compresses lz4 blockSizeID)) ∧
      (∀ unpacked, lz4Unpack lz4 accepts fuel source context = some unpacked →
        unpacked.ret = pkgSuccess ∧ (unpacked.Complete lz4 source context ↔
          ∀ st, TurnLoop.Reaches (fun _ => true) (Lz4UnpackRun.turn lz4 accepts)
            (lz4UnpackStart source context) st → 0 < st.packedSize →
              st.TakesWhole lz4 accepts)) ∧
      ∀ (packed : Lz4Packed) (unpacked : Lz4Unpacked) (packedSource : SourceStream)
        (packedContext : PkgAlgorithmContext),
        packed.Complete lz4 blockSizeID source context →
        unpacked.Complete lz4 packedSource packedContext →
        (packedSource.bytesFrom packedContext.srcOffset).take packedContext.packedSize =
          (written packed.log).drop 4 →
        written unpacked.log = (source.bytesFrom context.srcOffset).take context.unpackedSize := by
  refine ⟨fun _ run success => lz4Pack_complete_iff run success, fun unpacked run => ⟨?_, ?_⟩,
    fun _ _ _ _ pack unpack same => lz4Unpack_restores unpack pack same⟩
  · obtain ⟨last, -, rfl⟩ := Option.map_eq_some_iff.mp run
    rfl
  · exact lz4Unpack_complete_iff run

namespace LiteralBlock

/-- The bytes behind the token that go on with a length of literals. -/
def lengthBytes (size : Nat) : Bytes :=
  List.replicate (size / 255) 255 ++ [UInt8.ofNat (size % 255)]

def readLength : Bytes → Option (Nat × Bytes)
  | [] => none
  | byte :: rest =>
      if byte = 255 then (readLength rest).map fun (size, rest) => (size + 255, rest)
      else some (byte.toNat, rest)

/-- The token of a run of literals, with its length. -/
def literals (size : Nat) : Bytes :=
  if size < 15 then [UInt8.ofNat (16 * size)] else 240 :: lengthBytes (size - 15)

def compress (block : Bytes) (capacity : Nat) : Option Bytes :=
  let packed := literals block.length ++ block
  if packed.length ≤ capacity then some packed else none

/-- The length of the literals of a block, and what is behind it. -/
def readLiterals : Bytes → Option (Nat × Bytes)
  | [] => none
  | token :: rest =>
      if token.toNat % 16 ≠ 0 then none
      else if token.toNat / 16 = 15 then
        (readLength rest).map fun (size, rest) => (size + 15, rest)
      else some (token.toNat / 16, rest)

def decompress (packed : Bytes) (capacity : Nat) : Option Bytes :=
  match readLiterals packed with
  | none => none
  | some (size, block) =>
      if block.length = size ∧ 0 < size ∧ size ≤ capacity then some block else none

theorem readLength_replicate (count : Nat) {last : Nat} (small : last < 255) (rest : Bytes) :
    readLength (List.replicate count 255 ++ UInt8.ofNat last :: rest) =
      some (255 * count + last, rest) := by
  induction count with
  | zero =>
      have value : (UInt8.ofNat last).toNat = last := by
        rw [UInt8.toNat_ofNat']
        omega
      have other : UInt8.ofNat last ≠ 255 := by
        intro same
        have values := congrArg UInt8.toNat same
        rw [value] at values
        have limit : (255 : UInt8).toNat = 255 := rfl
        omega
      rw [List.replicate_zero, List.nil_append, readLength, if_neg other, value, Nat.mul_zero,
        Nat.zero_add]
  | succ count ih =>
      rw [List.replicate_succ, List.cons_append, readLength, if_pos rfl, ih, Option.map_some]
      dsimp only
      rw [Nat.mul_succ, Nat.add_right_comm]

theorem readLength_lengthBytes (size : Nat) (rest : Bytes) :
    readLength (lengthBytes size ++ rest) = some (size, rest) := by
  have small : size % 255 < 255 := Nat.mod_lt _ (by decide)
  rw [lengthBytes, List.append_assoc, List.singleton_append, readLength_replicate _ small,
    Nat.div_add_mod]

theorem readLiterals_literals (size : Nat) (block : Bytes) :
    readLiterals (literals size ++ block) = some (size, block) := by
  rw [literals]
  split
  · rename_i short
    have token : (UInt8.ofNat (16 * size)).toNat = 16 * size := by
      rw [UInt8.toNat_ofNat']
      omega
    rw [List.singleton_append, readLiterals, token, if_neg (by omega), if_neg (by omega)]
    congr 2
    omega
  · rename_i long
    rw [List.cons_append, readLiterals, readLength_lengthBytes]
    rw [if_neg (by decide), if_pos (by decide), Option.map_some]
    dsimp only
    rw [Nat.sub_add_cancel (Nat.le_of_not_lt long)]

theorem length_literals (size : Nat) : (literals size).length ≤ size / 255 + 2 := by
  rw [literals]
  split
  · exact Nat.le_add_left 1 _
  · rw [List.length_cons, lengthBytes, List.length_append, List.length_replicate,
      List.length_singleton]
    have steps := Nat.div_le_div_right (c := 255) (Nat.sub_le size 15)
    omega

theorem literals_ne_nil (size : Nat) (block : Bytes) : literals size ++ block ≠ [] := by
  intro empty
  have none := (List.append_eq_nil_iff.mp empty).1
  rw [literals] at none
  split at none
  · cases none
  · cases none

theorem compress_bound (block : Bytes) (capacity : Nat) (small : block.length ≤ lz4MaxInputSize)
    (room : compressBound block.length ≤ capacity) : compress block capacity ≠ none := by
  have length := length_literals block.length
  rw [compressBound, if_neg (Nat.not_lt_of_le small)] at room
  rw [compress]
  rw [if_pos (by rw [List.length_append]; omega)]
  exact Option.some_ne_none _

theorem compress_fits (block : Bytes) (capacity : Nat) (packed : Bytes)
    (made : compress block capacity = some packed) : packed ≠ [] ∧ packed.length ≤ capacity := by
  rw [compress] at made
  split at made
  · rename_i room
    cases made
    exact ⟨literals_ne_nil _ _, room⟩
  · cases made

theorem decompress_fits (packed : Bytes) (capacity : Nat) (block : Bytes)
    (made : decompress packed capacity = some block) : block ≠ [] ∧ block.length ≤ capacity := by
  rw [decompress] at made
  split at made
  · cases made
  · split at made
    · rename_i sane
      cases made
      exact ⟨List.length_pos_iff.mp (by omega), by omega⟩
    · cases made

theorem decompress_compress (block : Bytes) (capacity : Nat) (packed : Bytes) (room : Nat)
    (made : compress block capacity = some packed) (some_ : block ≠ [])
    (fits : block.length ≤ room) : decompress packed room = some block := by
  rw [compress] at made
  split at made
  · cases made
    rw [decompress, readLiterals_literals]
    exact if_pos ⟨rfl, List.length_pos_iff.mpr some_, fits⟩
  · cases made

end LiteralBlock

/-- What LZ4 does on blocks without a match. -/
def literalLz4 : Lz4 where
  compress := LiteralBlock.compress
  decompress := LiteralBlock.decompress
  compress_bound := LiteralBlock.compress_bound
  compress_fits := LiteralBlock.compress_fits
  decompress_fits := LiteralBlock.decompress_fits
  decompress_compress := LiteralBlock.decompress_compress

/-- Blocks of 256 bytes. -/
def smallBlocks : BlockSizeID := ⟨0, by decide⟩

/-- The container of three bytes. -/
def threeContainer : Bytes := [0x02, 0x21, 0x4C, 0x18, 4, 0, 0, 0, 0x30, 1, 2, 3]

def containerSource : SourceStream := .memoryMap ⟨threeContainer, by decide⟩

/-- Three bytes to pack, and the eight of their record to unpack. -/
def threeContext : PkgAlgorithmContext :=
  { plainContext 0 8 zero_small (by decide) with
    unpackedSize := 3
    unpackedSmall := by decide }

def recordContext : PkgAlgorithmContext :=
  plainContext 4 8 (by decide) (by decide)

theorem smallBlocks_compress (st : Lz4PackRun) : st.Compresses literalLz4 smallBlocks := by
  intro block next read incompressible
  have bound := (SourceStream.readData_gives read).2.1
  have size : smallBlocks.blockSize = 256 := by decide
  have capacity : smallBlocks.capacity = 269 := by decide
  have length := LiteralBlock.length_literals block.length
  have made : LiteralBlock.compress block smallBlocks.capacity = none := incompressible
  have room : (LiteralBlock.literals block.length ++ block).length ≤ smallBlocks.capacity := by
    rw [List.length_append, capacity]
    omega
  rw [LiteralBlock.compress, if_pos room] at made
  cases made

theorem container_takesWhole (st : Lz4UnpackRun)
    (reaches : TurnLoop.Reaches (fun _ => true) (Lz4UnpackRun.turn literalLz4 acceptsAll)
      (lz4UnpackStart containerSource recordContext) st) (more : 0 < st.packedSize) :
    st.TakesWhole literalLz4 acceptsAll := by
  have first : st = lz4UnpackStart containerSource recordContext ∨ st.packedSize = 0 := by
    refine reaches.keeps (fun st => st = lz4UnpackStart containerSource recordContext ∨
      st.packedSize = 0) (.inl rfl) ?_
    rintro before next (rfl | none) _ went
    · cases went
      exact .inr rfl
    · exact absurd (Lz4UnpackRun.packedSize_pos went) (by omega)
  rcases first with rfl | none
  · exact ⟨_, _, _, _, [1, 2, 3], rfl, rfl, by decide, rfl, rfl, rfl, rfl⟩
  · omega

/-- Three bytes, packed and unpacked again. -/
theorem lz4_restores_three :
    ∃ packed unpacked,
      lz4Pack literalLz4 smallBlocks acceptsAll 2 threeBytes threeContext = some packed ∧
      lz4Unpack literalLz4 acceptsAll 2 containerSource recordContext = some unpacked ∧
      packed.ret = pkgSuccess ∧ written packed.log = threeContainer ∧
      unpacked.ret = pkgSuccess ∧ written unpacked.log = [1, 2, 3] := by
  obtain ⟨packs, -, restores⟩ :=
    lz4_complete_iff literalLz4 smallBlocks acceptsAll 2 threeBytes threeContext
  obtain ⟨-, unpacks, -⟩ :=
    lz4_complete_iff literalLz4 smallBlocks acceptsAll 2 containerSource recordContext
  refine ⟨_, _, rfl, rfl, rfl, rfl, rfl, ?_⟩
  have pack := (packs _ rfl rfl).mpr fun st _ _ => smallBlocks_compress st
  have unpack := (unpacks _ rfl).2.mpr container_takesWhole
  exact restores _ _ containerSource recordContext pack unpack rfl

/-- A record whose block is decoded but not written is reported as unpacked. -/
theorem lz4Unpack_refused :
    ∃ unpacked, lz4Unpack literalLz4 refusesAll 2 containerSource recordContext = some unpacked ∧
      unpacked.ret = pkgSuccess ∧
        ¬ unpacked.Complete literalLz4 containerSource recordContext := by
  refine ⟨_, rfl, rfl, fun complete => ?_⟩
  cases complete.length

end Updater.Package
