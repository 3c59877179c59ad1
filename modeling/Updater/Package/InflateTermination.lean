import Mathlib.Data.Prod.Lex
import Updater.Package.PkgAlgoDeflate

/-! Which runs of `PkgAlgoDeflate::UnpackCalculate` end, when the declared size differs from the
length of the packed stream. -/

set_option autoImplicit false

namespace Updater.Package

open Updater.Base

namespace InflateRun

/-- A turn that the loop never gets behind: its read does not return, or `inflate` is at the
end of the stream with declared bytes left, and some of its input stays unused. -/
def Stuck {z : Inflater} (updaterMode : Bool) (st : InflateRun z) : Prop :=
  st.goesOn = true ∧
    (st.next = [] ∧ st.source.fill updaterMode st.srcOffset st.packedSize = .blocked ∨
      st.unpackRet = zStreamEnd ∧
        (st.next ≠ [] ∨ ∃ bytes source, bytes.length < st.packedSize ∧
          st.source.fill updaterMode st.srcOffset st.packedSize = .given bytes source))

variable {z : LawfulInflater} {crc32 : Crc32} {updaterMode : Bool} {accepts : Accepts}
  {digestMethod : Nat}

/-- At the head of the loop nothing is left of the output of a stream that has ended. -/
structure Settled (st : InflateRun z.toInflater) : Prop where
  small : st.srcOffset < 2 ^ 64
  ended : st.unpackRet = zStreamEnd → z.Ended st.stream ∧ st.out.held = []

theorem settled_start {source : SourceStream} {context : PkgAlgorithmContext} {stream : z.Stream} :
    Settled (inflateRunStart z.toInflater source context stream) where
  small := context.srcSmall
  ended := by
    intro ended
    have open_ : zOk ≠ zStreamEnd := by decide
    exact absurd ended open_

theorem Settled.refills {st ready : InflateRun z.toInflater} (settled : Settled st)
    (refills : Refills updaterMode st ready) : Settled ready := by
  cases refills with
  | kept _ => exact settled
  | filled _ _ => exact ⟨Nat.mod_lt _ (by decide), settled.ended⟩

/-- What `inflate` does at the end of the stream. -/
theorem Settled.inflate_ended {st : InflateRun z.toInflater} (settled : Settled st)
    (ended : st.unpackRet = zStreamEnd) :
    st.inflate.unpackRet = zStreamEnd ∧ st.inflate.next = st.next ∧ st.inflate.out.held = [] ∧
      z.Ended st.inflate.stream := by
  obtain ⟨behind, empty⟩ := settled.ended ended
  obtain ⟨ret, used, produced, stays⟩ :=
    z.stays st.stream st.next (inflateOutBufferSize - st.out.held.length) behind
  refine ⟨ret, ?_, ?_, stays⟩
  · rw [inflate]
    dsimp only
    rw [used, List.drop_zero]
  · rw [inflate, OutBuffer.put]
    dsimp only
    rw [produced, List.append_nil, empty]

theorem Settled.not_due {st : InflateRun z.toInflater} (settled : Settled st)
    (ended : st.unpackRet = zStreamEnd) : st.inflate.due = false := by
  obtain ⟨-, -, empty, -⟩ := settled.inflate_ended ended
  have room : inflateOutBufferSize ≠ 0 := by decide
  rw [Bool.eq_false_iff, Ne, due_iff, empty]
  rintro (full | ⟨-, some⟩)
  · exact room full.symm
  · exact some rfl

/-- Step lemma: a turn that goes on. -/
theorem Settled.step {st next : InflateRun z.toInflater} (settled : Settled st)
    (went : st.turn crc32 updaterMode accepts digestMethod = .went next) : Settled next := by
  obtain ⟨ready, refills, -, ⟨notDue, rfl⟩ | ⟨due, write⟩⟩ := turn_went went
  · refine ⟨(settled.refills refills).small, fun ended => ⟨z.ended _ _ _ ended, ?_⟩⟩
    by_contra some
    exact Bool.false_ne_true (notDue.symm.trans (due_iff.mpr (.inr ⟨ended, some⟩)))
  · obtain ⟨out, written, rfl⟩ := writeHeld_went write
    rw [OutBuffer.write_true written]
    exact ⟨(settled.refills refills).small, fun ended => ⟨z.ended _ _ _ ended, rfl⟩⟩

theorem settled_reached {source : SourceStream} {context : PkgAlgorithmContext} {stream : z.Stream}
    {st : InflateRun z.toInflater}
    (reaches : TurnLoop.Reaches goesOn (turn crc32 updaterMode accepts digestMethod)
      (inflateRunStart z.toInflater source context stream) st) : Settled st :=
  reaches.keeps Settled settled_start fun _ _ settled _ went => settled.step went

/-- The turn behind which the stream is at its end goes on, and leaves its input alone. -/
theorem Settled.turn_ended {st ready : InflateRun z.toInflater} (settled : Settled ready)
    (ended : ready.unpackRet = zStreamEnd)
    (read : st.readUnpackData updaterMode = .went ready) :
    st.turn crc32 updaterMode accepts digestMethod = .went ready.inflate := by
  have fine : ¬ zStreamEnd < zOk := by decide
  rw [turn, read]
  dsimp only
  rw [(settled.inflate_ended ended).1, if_neg fine, settled.not_due ended, if_neg Bool.false_ne_true]

/-- Where the loop is stuck it stays. -/
theorem Stuck.stays {st : InflateRun z.toInflater} (stuck : st.Stuck updaterMode)
    (settled : Settled st) :
    st.turn crc32 updaterMode accepts digestMethod = .blocked ∨
      ∃ next, st.turn crc32 updaterMode accepts digestMethod = .went next ∧
        next.Stuck updaterMode ∧ Settled next := by
  obtain ⟨more, ⟨empty, blocked⟩ | ⟨ended, unused⟩⟩ := stuck
  · left
    rw [turn, readUnpackData, if_neg (not_not.mpr empty), blocked]
  right
  have left_ : 0 < st.packedSize := (goesOn_iff.mp more).resolve_right (not_not.mpr ended)
  by_cases empty : st.next = []
  · obtain ⟨bytes, source, short, given⟩ := unused.resolve_left (not_not.mpr empty)
    have refills := Refills.filled empty given
    have read := settled.refills refills
    have turned : st.turn crc32 updaterMode accepts digestMethod = .went _ :=
      read.turn_ended ended (by rw [readUnpackData, if_neg (not_not.mpr empty), given])
    refine ⟨_, turned, ⟨?_, .inr ⟨(read.inflate_ended ended).1, ?_⟩⟩, settled.step turned⟩
    · rw [goesOn_iff]
      exact .inl (Nat.sub_pos_of_lt short)
    · rw [(read.inflate_ended ended).2.1]
      by_cases nothing : bytes = []
      · -- an exhausted stream is read at the same place again
        right
        subst nothing
        obtain rfl := SourceStream.fill_nil settled.small left_ given
        refine ⟨[], st.source, short, ?_⟩
        have same : size64 (st.srcOffset + ([] : Bytes).length) = st.srcOffset :=
          Nat.mod_eq_of_lt settled.small
        dsimp only [inflate]
        rw [same]
        exact given
      · exact .inl nothing
  · have turned : st.turn crc32 updaterMode accepts digestMethod = .went st.inflate :=
      settled.turn_ended ended (by rw [readUnpackData, if_pos empty])
    refine ⟨_, turned, ⟨?_, .inr ⟨(settled.inflate_ended ended).1, .inl ?_⟩⟩, settled.step turned⟩
    · exact goesOn_iff.mpr (.inl left_)
    · rw [(settled.inflate_ended ended).2.1]
      exact empty

/-- What is still to come: the end of the stream, then input, then output of the input that
was taken in. -/
def rank (st : InflateRun z.toInflater) : ℕ ×ₗ ℕ ×ₗ ℕ :=
  toLex (if st.unpackRet = zStreamEnd then 0 else 1,
    toLex (2 * st.packedSize + st.next.length, z.owed st.stream))

/-- Lemma for a turn up to its `inflate`, at the end of the stream: what was declared beyond
it was read at last. -/
theorem Settled.rank_ended {st ready : InflateRun z.toInflater} (settled : Settled st)
    (more : st.goesOn = true) (free : ¬ st.Stuck updaterMode) (refills : Refills updaterMode st ready)
    (ended : st.unpackRet = zStreamEnd) : rank ready.inflate < rank st := by
  have left_ : 0 < st.packedSize := (goesOn_iff.mp more).resolve_right (not_not.mpr ended)
  cases refills with
  | kept some => exact absurd ⟨more, .inr ⟨ended, .inl some⟩⟩ free
  | @filled bytes source empty given =>
      have whole : ¬ bytes.length < st.packedSize := fun short =>
        free ⟨more, .inr ⟨ended, .inr ⟨bytes, source, short, given⟩⟩⟩
      have bound := SourceStream.fill_length_le settled.small given
      obtain ⟨ret, next, -⟩ := (settled.refills (Refills.filled empty given)).inflate_ended ended
      rw [rank, rank, ret, next, ended, Prod.Lex.toLex_lt_toLex, Prod.Lex.toLex_lt_toLex]
      refine .inr ⟨rfl, .inl ?_⟩
      dsimp only [inflate]
      omega

/-- Before the end of the stream a turn takes in some bytes, or puts out some. -/
theorem Settled.rank_before {st ready : InflateRun z.toInflater} (settled : Settled st)
    (refills : Refills updaterMode st ready) (before : st.unpackRet ≠ zStreamEnd)
    (fine : zOk ≤ ready.inflate.unpackRet) : rank ready.inflate < rank st := by
  have weight : 2 * ready.packedSize + ready.next.length ≤ 2 * st.packedSize + st.next.length := by
    cases refills with
    | kept _ => exact Nat.le_refl _
    | @filled bytes source empty given =>
        have bound := SourceStream.fill_length_le settled.small given
        dsimp only
        omega
  have same : ready.stream = st.stream := by
    cases refills with
    | kept _ => rfl
    | filled _ _ => rfl
  rw [rank, rank, if_neg before, Prod.Lex.toLex_lt_toLex, Prod.Lex.toLex_lt_toLex]
  by_cases ends : ready.inflate.unpackRet = zStreamEnd
  · rw [if_pos ends]
    exact .inl Nat.zero_lt_one
  rw [if_neg ends]
  refine .inr ⟨rfl, ?_⟩
  have used := z.used_le ready.stream ready.next (inflateOutBufferSize - ready.out.held.length)
  have finite := z.finite ready.stream ready.next (inflateOutBufferSize - ready.out.held.length)
  have progress := z.progress ready.stream ready.next
    (inflateOutBufferSize - ready.out.held.length) fine ends
  rw [← same]
  dsimp only [inflate]
  rw [List.length_drop]
  rcases Nat.eq_zero_or_pos (z.inflate ready.stream ready.next
    (inflateOutBufferSize - ready.out.held.length)).used with none | some
  · have put := List.length_pos_iff.mpr (progress.resolve_left (by omega))
    rw [none, Nat.mul_zero] at finite
    rw [none]
    omega
  · omega

theorem rank_writeHeld {st next : InflateRun z.toInflater}
    (went : st.writeHeld crc32 accepts digestMethod = .went next) : rank next = rank st := by
  obtain ⟨out, -, rfl⟩ := writeHeld_went went
  rfl

/-- The loop of `UnpackCalculate` ends if and only if it never comes to a turn in which it is
stuck. -/
theorem ends_iff {source : SourceStream} {context : PkgAlgorithmContext} {stream : z.Stream} :
    TurnLoop.Ends goesOn (turn crc32 updaterMode accepts digestMethod)
        (inflateRunStart z.toInflater source context stream) ↔
      ∀ st, TurnLoop.Reaches goesOn (turn crc32 updaterMode accepts digestMethod)
        (inflateRunStart z.toInflater source context stream) st → ¬ st.Stuck updaterMode := by
  constructor
  · intro ends st reaches stuck
    refine TurnLoop.not_ends_of_stays (fun st => st.Stuck updaterMode ∧ Settled st)
      ⟨stuck, settled_reached reaches⟩ (fun st stays => ?_) (reaches.ends ends)
    exact ⟨stays.1.1, stays.1.stays stays.2⟩
  · intro free
    refine TurnLoop.ends_of_descends (InvImage.wf rank wellFounded_lt) fun st reaches more => ?_
    have settled := settled_reached reaches
    constructor
    · intro blocked
      exact free st reaches ⟨more, .inl (turn_blocked blocked)⟩
    · intro next went
      obtain ⟨ready, refills, fine, turned⟩ := turn_went went
      have lower : rank ready.inflate < rank st := by
        by_cases ended : st.unpackRet = zStreamEnd
        · exact settled.rank_ended more (free st reaches) refills ended
        · exact settled.rank_before refills ended fine
      rcases turned with ⟨-, rfl⟩ | ⟨-, write⟩
      · exact lower
      · exact (rank_writeHeld write).trans_lt lower

end InflateRun

section

variable {z : LawfulInflater} {crc32 : Crc32} {updaterMode : Bool} {accepts : Accepts}
  {source : SourceStream} {context : PkgAlgorithmContext}

/-- A run of `Unpack` that ends: its loop is left. -/
theorem inflateUnpack_ends {z : Inflater} {stream : z.Stream} (init : z.inflateInit = some stream) :
    (∃ fuel unpacked,
        inflateUnpack z crc32 updaterMode accepts fuel source context = some unpacked) ↔
      TurnLoop.Ends InflateRun.goesOn
        (InflateRun.turn crc32 updaterMode accepts context.digestMethod)
        (inflateRunStart z source context stream) := by
  constructor
  · rintro ⟨fuel, unpacked, run⟩
    rw [inflateUnpack, init] at run
    obtain ⟨last, left_, -⟩ := Option.map_eq_some_iff.mp run
    exact ⟨fuel, last, left_⟩
  · rintro ⟨fuel, last, run⟩
    refine ⟨fuel, last.calculateUnpackData context, ?_⟩
    rw [inflateUnpack, init]
    dsimp only
    rw [run, Option.map_some]

/-- `PkgAlgoDeflate::Unpack` ends if and only if its loop never comes to a turn in which it is
stuck: at the end of the packed stream nothing declared is left, or all of the rest comes with
the next read, or that read fails. -/
theorem inflateUnpack_ends_iff (z : LawfulInflater) (crc32 : Crc32) (updaterMode : Bool)
    (accepts : Accepts) (source : SourceStream) (context : PkgAlgorithmContext) :
    (∃ fuel unpacked, inflateUnpack z.toInflater crc32 updaterMode accepts fuel source context =
        some unpacked) ↔
      ∀ stream st, z.inflateInit = some stream →
        TurnLoop.Reaches InflateRun.goesOn
          (InflateRun.turn crc32 updaterMode accepts context.digestMethod)
          (inflateRunStart z.toInflater source context stream) st →
        ¬ st.Stuck updaterMode := by
  cases init : z.inflateInit with
  | none =>
      constructor
      · intro _ stream st same
        cases same
      · intro _
        exact ⟨0, ⟨pkgNotExistAlgorithm, context, none⟩, by rw [inflateUnpack, init]⟩
  | some stream =>
      rw [inflateUnpack_ends init, InflateRun.ends_iff]
      constructor
      · rintro free stream' st same
        cases same
        exact free st
      · intro free st
        exact free stream st rfl

/-- So it ends where the first read gives all of the declared bytes, whatever they are. -/
theorem inflateUnpack_ends_of_fill {bytes : Bytes} {next : SourceStream}
    (given : source.fill updaterMode context.srcOffset context.packedSize = .given bytes next)
    (whole : bytes.length = context.packedSize) :
    ∃ fuel unpacked,
      inflateUnpack z.toInflater crc32 updaterMode accepts fuel source context = some unpacked := by
  rw [inflateUnpack_ends_iff]
  intro stream st _ reaches
  have first : st = inflateRunStart z.toInflater source context stream ∨ st.packedSize = 0 := by
    refine reaches.keeps
      (fun st => st = inflateRunStart z.toInflater source context stream ∨ st.packedSize = 0)
      (.inl rfl) fun before after stood _ went => .inr ?_
    have read (ready : InflateRun z.toInflater) (refills : before.Refills updaterMode ready) :
        ready.packedSize = 0 := by
      cases refills with
      | kept some => exact stood.elim (fun same => absurd (same ▸ rfl) some) id
      | filled empty again =>
          rcases stood with rfl | none
          · cases given.symm.trans again
            exact Nat.sub_eq_zero_of_le (Nat.le_of_eq whole.symm)
          · dsimp only
            rw [none, Nat.zero_sub]
    obtain ⟨ready, refills, -, ⟨-, rfl⟩ | ⟨-, write⟩⟩ := InflateRun.turn_went went
    · exact read ready refills
    · obtain ⟨out, -, rfl⟩ := InflateRun.writeHeld_went write
      exact read ready refills
  rintro ⟨more, ⟨empty, blocked⟩ | ⟨ended, -⟩⟩
  · rcases first with rfl | none
    · cases given.symm.trans blocked
    · rw [none, SourceStream.fill_zero] at blocked
      cases blocked
  · have left_ := (InflateRun.goesOn_iff.mp more).resolve_right (not_not.mpr ended)
    rcases first with rfl | none
    · have open_ : zOk ≠ zStreamEnd := by decide
      exact absurd ended open_
    · omega

end

/-- Where an inflater of a stored block stands: in the five bytes of its header, in its bytes,
behind it, or in something else. -/
inductive StoredBlock where
  | header (seen : Bytes)
  | bytes (left : Nat)
  | ended
  | invalid

namespace StoredBlock

/-- The header of the last block, its length and the complement of it. -/
def afterHeader (seen : Bytes) : StoredBlock :=
  if seen.length < 5 then header seen
  else
    let len := leValue ((seen.drop 1).take 2)
    if seen.take 1 ≠ [1] ∨ len + leValue (seen.drop 3) ≠ 0xFFFF then invalid
    else if len = 0 then ended
    else bytes len

def copied (left : Nat) : StoredBlock :=
  if left = 0 then ended else bytes left

/-- How many bytes of the input are used, what they give, and where they lead. -/
def take : StoredBlock → Bytes → Nat → Nat × Bytes × StoredBlock
  | header seen, byte :: next, room =>
      let (used, produced, block) := (afterHeader (seen ++ [byte])).take next room
      (used + 1, produced, block)
  | bytes (left + 1), byte :: next, room + 1 =>
      let (used, produced, block) := (copied left).take next room
      (used + 1, byte :: produced, block)
  | block, _, _ => (0, [], block)

def status (used : Nat) : StoredBlock → Int
  | header _ => if used = 0 then -5 else zOk
  | bytes _ => if used = 0 then -5 else zOk
  | ended => zStreamEnd
  | invalid => -3

theorem status_going (used : Nat) :
    (if used = 0 then -5 else zOk) ≠ zStreamEnd ∧
      (zOk ≤ (if used = 0 then -5 else zOk) → 0 < used) := by
  by_cases none : used = 0
  · rw [if_pos none]
    exact ⟨by decide, fun fine => absurd fine (by decide)⟩
  · rw [if_neg none]
    exact ⟨by decide, fun _ => Nat.pos_of_ne_zero none⟩

theorem status_ended {used : Nat} {block : StoredBlock} (ends : block.status used = zStreamEnd) :
    block = .ended := by
  cases block with
  | header _ => exact absurd ends (status_going used).1
  | bytes _ => exact absurd ends (status_going used).1
  | ended => rfl
  | invalid => cases ends

theorem status_progress {used : Nat} {block : StoredBlock} (fine : zOk ≤ block.status used)
    (before : block.status used ≠ zStreamEnd) : 0 < used := by
  cases block with
  | header _ => exact (status_going used).2 fine
  | bytes _ => exact (status_going used).2 fine
  | ended => exact absurd rfl before
  | invalid =>
      have negative : ¬ zOk ≤ (-3 : Int) := by decide
      exact absurd fine negative

theorem take_ended (next : Bytes) (room : Nat) : ended.take next room = (0, [], ended) := by
  rw [take]
  · intro seen byte rest same
    cases same
  · intro left byte rest room same
    cases same

theorem take_bounds (block : StoredBlock) (next : Bytes) (room : Nat) :
    (block.take next room).1 ≤ next.length ∧ (block.take next room).2.1.length ≤ room ∧
      (block.take next room).2.1.length ≤ (block.take next room).1 := by
  fun_induction take block next room with
  | case1 seen byte next room used produced block taken ih =>
      rw [taken] at ih
      exact ⟨Nat.succ_le_succ ih.1, ih.2.1, Nat.le_succ_of_le ih.2.2⟩
  | case2 left byte next room used produced block taken ih =>
      rw [taken] at ih
      exact ⟨Nat.succ_le_succ ih.1, Nat.succ_le_succ ih.2.1, Nat.succ_le_succ ih.2.2⟩
  | case3 block next room _ _ => exact ⟨Nat.zero_le _, Nat.zero_le _, Nat.zero_le _⟩

end StoredBlock

/-- What zlib does on a stream of one stored block. -/
def storedInflater : LawfulInflater where
  Stream := StoredBlock
  inflateInit := some (.header [])
  inflate block next room :=
    let taken := block.take next room
    ⟨taken.2.2.status taken.1, taken.1, taken.2.1, taken.2.2⟩
  fits block next room := (block.take_bounds next room).2.1
  Ended block := block = .ended
  owed _ := 0
  ratio := 1
  used_le block next room := (block.take_bounds next room).1
  progress _ _ _ fine before := .inl (StoredBlock.status_progress fine before)
  finite block next room := by
    have bound := (block.take_bounds next room).2.2
    dsimp only
    omega
  ended _ _ _ ends := StoredBlock.status_ended ends
  stays block next room ended := by
    subst ended
    rw [StoredBlock.take_ended]
    exact ⟨rfl, rfl, rfl, rfl⟩

/-- A stored block of one byte. -/
def oneByteBlock : Bytes := [1, 1, 0, 0xFE, 0xFF, 7]

/-- An entry that declares a byte more than its packed stream, at the end of a memory map. -/
def longEntry : SourceStream := .memoryMap ⟨oneByteBlock, by decide⟩

def entryContext : PkgAlgorithmContext :=
  { plainContext 0 7 zero_small (by decide) with digestMethod := pkgDigestTypeCrc }

def acceptsAll : Accepts := fun _ _ _ => true

/-- Behind its first turn the loop has read the map to its end, and the stream as well. -/
def longEntryEnded : InflateRun storedInflater.toInflater where
  source := longEntry
  srcOffset := 6
  packedSize := 1
  stream := StoredBlock.ended
  next := []
  unpackRet := zStreamEnd
  crc := Crc32.ieee.update 0 [7]
  out := ⟨[], 1, [7], [.read 0 7 (some oneByteBlock), .write [7] 0 true]⟩

theorem longEntry_endless :
    ¬ ∃ fuel unpacked, inflateUnpack storedInflater.toInflater Crc32.ieee true acceptsAll fuel
      longEntry entryContext = some unpacked := by
  rw [inflateUnpack_ends_iff]
  intro free
  refine free (.header []) longEntryEnded rfl (.turn .start rfl rfl) ⟨rfl, .inr ⟨rfl, .inr ?_⟩⟩
  exact ⟨[], longEntry, by decide, rfl⟩

end Updater.Package
