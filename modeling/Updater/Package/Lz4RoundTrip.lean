import Updater.Package.GZipRoundTrip
import Updater.Package.Lz4PkgFile
import Updater.Package.Lz4Records

/-! What a package of LZ4 blocks gives back when it is loaded and unpacked. It is loaded with the
length of the whole file as the size of its data, so the loop over the records always ends behind
the last of them. -/

set_option autoImplicit false

namespace Updater.Package

open Updater.Base

section Source

/-- A stream over a file that is read in whole pieces. -/
structure ReadsWhole (source : SourceStream) (content : Bytes) : Prop where
  fits : content.length < 2 ^ 63
  given : ∀ start needRead, slice content start needRead ≠ [] →
    source.read start needRead = .given (slice content start needRead) source
  behind : ∀ start needRead, content.length ≤ start →
    source.read start needRead = .failed ∨ source.read start needRead = .given [] source

theorem slice_of_length_le {content : Bytes} {start : Nat} (after : content.length ≤ start)
    (needRead : Nat) : slice content start needRead = [] := by
  rw [slice, List.drop_eq_nil_of_le after, List.take_nil]

theorem start_of_slice {content : Bytes} {start needRead : Nat}
    (some_ : slice content start needRead ≠ []) : start < content.length :=
  Nat.lt_of_not_le fun after => some_ (slice_of_length_le after needRead)

theorem readsWhole_memoryMap (stream : MapStream) :
    ReadsWhole (.memoryMap stream) stream.content where
  fits := stream.fits
  given start needRead some_ := by
    have before := start_of_slice some_
    rw [SourceStream.read, MapStream.read, if_neg (by omega)]
    rfl
  behind start needRead after := by
    rw [SourceStream.read, MapStream.read, slice_of_length_le after]
    split
    · exact .inl rfl
    · exact .inr rfl

theorem readsWhole_file (stream : FileStream)
    (delivers : ∀ start, stream.content.length ≤ stream.delivers start) :
    ReadsWhole (.file stream) stream.content where
  fits := stream.fits
  given start needRead some_ := by
    have before := start_of_slice some_
    have fits := stream.fits
    have whole : (slice stream.content start needRead).take (stream.delivers start) =
        slice stream.content start needRead := by
      refine List.take_of_length_le (Nat.le_trans ?_ (delivers start))
      rw [slice, List.length_take, List.length_drop]
      omega
    rw [SourceStream.read, FileStream.read, if_neg (by omega), whole]
    dsimp only
    rw [if_neg some_]
    rfl
  behind start needRead after := by
    rw [SourceStream.read, FileStream.read, slice_of_length_le after, List.take_nil]
    split
    · exact .inl rfl
    · exact .inl rfl

variable {source : SourceStream} {content : Bytes} (reads : ReadsWhole source content)
include reads

theorem ReadsWhole.readData {start length remainSize : Nat} {front behind : Bytes}
    (found : content.drop start = front ++ behind) (some_ : front ≠ [])
    (asked : min remainSize length = front.length) :
    source.readData start length remainSize = .given front source := by
  have piece : slice content start front.length = front := by rw [slice, found, List.take_left]
  have positive := List.length_pos_iff.mpr some_
  rw [SourceStream.readData, asked, if_neg (by omega), reads.given start _ (piece.symm ▸ some_), piece]

/-- Behind the file nothing is read. -/
theorem ReadsWhole.readData_behind {start : Nat} (after : content.length ≤ start)
    (length remainSize : Nat) : source.readData start length remainSize = .failed ∨
      source.readData start length remainSize = .given [] source := by
  rw [SourceStream.readData]
  split
  · exact .inr rfl
  · exact reads.behind start _ after

end Source

section Unpack

variable {lz4 : Lz4} {source : SourceStream} {content : Bytes}

/-- The loop over the records at its head, with these still before it and sign data behind them. The
declared size is four bytes more than what is left of the file. -/
structure AtRecords (source : SourceStream) (content : Bytes) (compressed : List Bytes)
    (signData : Nat) (st : Lz4UnpackRun) : Prop where
  src : st.source = source
  within : st.srcOffset ≤ content.length
  found : content.drop st.srcOffset =
    records lz4bReversedLen compressed ++ List.replicate signData 0
  asked : st.srcOffset + st.packedSize = content.length + 4

/-- A compressed block is read, and decoded to its block. -/
def Decodes (lz4 : Lz4) (out block : Bytes) : Prop :=
  out ≠ [] ∧ out.length ≤ lz4InBuffSize ∧ lz4.decompress out lz4bBlockSize = some block

theorem length_of_drop {start : Nat} {front behind : Bytes} (within : start ≤ content.length)
    (found : content.drop start = front ++ behind) :
    start + front.length ≤ content.length ∧ content.drop (start + front.length) = behind := by
  have length := congrArg List.length found
  rw [List.length_drop, List.length_append] at length
  refine ⟨by omega, ?_⟩
  rw [← List.drop_drop, found, List.drop_left]

variable {compressed : List Bytes} {signData : Nat} {st : Lz4UnpackRun} {out block : Bytes}

/-- Step lemma: the next record is read, decoded and written. -/
theorem AtRecords.turn (reads : ReadsWhole source content)
    (at_ : AtRecords source content (out :: compressed) signData st) (decodes : Decodes lz4 out block) :
    ∃ next, st.turn lz4 acceptsAll = .went next ∧
      AtRecords source content compressed signData next ∧
      written next.log = written st.log ++ block := by
  obtain ⟨some_, fits, decompressed⟩ := decodes
  have limit := reads.fits
  have small := Lz4UnpackRun.lz4InBuffSize_small
  have asked := at_.asked
  have found := at_.found
  rw [records_cons, record, List.append_assoc, List.append_assoc] at found
  have sizeLength : (leBytes lz4bReversedLen out.length).length = 4 := length_leBytes 4 _
  obtain ⟨sizeWithin, foundBlock⟩ := length_of_drop at_.within found
  rw [sizeLength] at sizeWithin foundBlock
  obtain ⟨blockWithin, foundRest⟩ := length_of_drop sizeWithin foundBlock
  have sizeSome : leBytes lz4bReversedLen out.length ≠ [] := by
    intro nothing
    rw [nothing] at sizeLength
    exact absurd sizeLength (by decide)
  have value : leValue (leBytes lz4bReversedLen out.length) = out.length :=
    leValue_leBytes_of_lt (Nat.lt_of_le_of_lt fits small)
  have front : (st.filled 4 (leBytes lz4bReversedLen out.length) source).front =
      leBytes lz4bReversedLen out.length := Lz4UnpackRun.front_filled st source sizeLength
  have readSize : st.readBuffer 4 = .given (leBytes lz4bReversedLen out.length) source := by
    rw [Lz4UnpackRun.readBuffer, at_.src]
    exact reads.readData found sizeSome (by rw [sizeLength]; omega)
  have moved : size64 (st.srcOffset + 4) = st.srcOffset + 4 := Nat.mod_eq_of_lt (by omega)
  have readBlock : (st.sized (leBytes lz4bReversedLen out.length) source).readBuffer out.length =
      .given out source := by
    have remain : (st.sized (leBytes lz4bReversedLen out.length) source).packedSize =
        st.packedSize - 4 := congrArg (st.packedSize - ·) sizeLength
    rw [Lz4UnpackRun.readBuffer, remain]
    change source.readData (size64 (st.srcOffset + 4)) _ _ = _
    rw [moved]
    exact reads.readData foundBlock some_ (by omega)
  refine ⟨(st.sized (leBytes lz4bReversedLen out.length) source).took
    ⟨leBytes lz4bReversedLen out.length, out, block⟩ out.length source, ?_, ?_, ?_⟩
  · have sane : ¬ (leBytes lz4bReversedLen out.length = [] ∨ out.length > lz4InBuffSize) := by
      rw [not_or, Nat.not_lt]
      exact ⟨sizeSome, fits⟩
    rw [Lz4UnpackRun.turn, readSize]
    dsimp only
    rw [front, value, if_neg sane]
    exact @Lz4UnpackRun.turnBlock_took lz4 acceptsAll _
      ⟨leBytes lz4bReversedLen out.length, out, block⟩ _ _ readBlock decompressed rfl
  · have last : size64 (size64 (st.srcOffset + 4) + out.length) = st.srcOffset + 4 + out.length := by
      rw [moved]
      exact Nat.mod_eq_of_lt (by omega)
    refine ⟨rfl, ?_, ?_, ?_⟩
    · change size64 (size64 (st.srcOffset + 4) + out.length) ≤ _
      rw [last]
      exact blockWithin
    · change content.drop (size64 (size64 (st.srcOffset + 4) + out.length)) = _
      rw [last]
      exact foundRest
    · change size64 (size64 (st.srcOffset + 4) + out.length) +
        (st.packedSize - (leBytes lz4bReversedLen out.length).length - out.length) = _
      rw [last, sizeLength]
      omega
  · dsimp only [Lz4UnpackRun.took, Lz4UnpackRun.sized, Lz4UnpackRun.filled]
    rw [written_append, written_append, written_append, written_read, written_read, written_write,
      List.append_nil, List.append_nil]

/-- Behind the last record the loop breaks off: there is no size, or none of a block. -/
theorem AtRecords.ends (reads : ReadsWhole source content)
    (at_ : AtRecords source content [] signData st)
    (empty : lz4.decompress [] lz4bBlockSize = none) :
    ∃ last, st.turn lz4 acceptsAll = .broke last := by
  have limit := reads.fits
  have asked := at_.asked
  have within := at_.within
  have found := at_.found
  rw [records_nil, List.nil_append] at found
  have left_ := congrArg List.length found
  rw [List.length_drop, List.length_replicate] at left_
  -- A block of which nothing is read does not decode.
  have breaks (size : Bytes) (blockSize : Nat) (run : Lz4UnpackRun)
      (nothing : run.readBuffer blockSize = .failed ∨
        ∃ behind, run.readBuffer blockSize = .given [] behind) :
      ∃ last, run.turnBlock lz4 acceptsAll size blockSize = .broke last := by
    rw [Lz4UnpackRun.turnBlock]
    cases nothing with
    | inl failed =>
        rw [failed]
        exact ⟨_, rfl⟩
    | inr given =>
        obtain ⟨behind, given⟩ := given
        rw [given]
        dsimp only
        rw [empty]
        exact ⟨_, rfl⟩
  have size : (st.readBuffer 4 = .failed ∨ st.readBuffer 4 = .given [] source) ∨
      0 < signData ∧
        st.readBuffer 4 = .given (List.replicate (min signData 4) 0) source := by
    rw [Lz4UnpackRun.readBuffer, at_.src]
    by_cases none_ : signData = 0
    · exact .inl (reads.readData_behind (by omega) 4 st.packedSize)
    · refine .inr ⟨Nat.pos_of_ne_zero none_, ?_⟩
      have piece : slice content st.srcOffset 4 = List.replicate (min signData 4) 0 := by
        rw [slice, found, List.take_replicate, Nat.min_comm]
      have some_ : slice content st.srcOffset 4 ≠ [] := by
        rw [piece]
        exact fun nothing => absurd (congrArg List.length nothing) (by simp [none_])
      have four : min st.packedSize 4 = 4 := by omega
      rw [SourceStream.readData, four, if_neg (by decide), reads.given _ _ some_, piece]
  rw [Lz4UnpackRun.turn]
  cases size with
  | inl nothing =>
      cases nothing with
      | inl failed =>
          rw [failed]
          exact ⟨_, rfl⟩
      | inr given =>
          rw [given]
          dsimp only
          rw [if_pos (.inl rfl)]
          exact ⟨_, rfl⟩
  | inr zeros =>
      obtain ⟨positive, zeros⟩ := zeros
      rw [zeros]
      dsimp only
      split
      · exact ⟨_, rfl⟩
      · refine breaks _ _ _ ?_
        have moved : size64 (st.srcOffset + 4) = st.srcOffset + 4 := Nat.mod_eq_of_lt (by omega)
        by_cases short : signData < 4
        · -- What is left of the buffer is taken for a size, of a block behind the file.
          have after : content.length ≤ size64 (st.srcOffset + 4) := by omega
          cases reads.readData_behind after _ _ with
          | inl failed => exact .inl failed
          | inr given => exact .inr ⟨source, given⟩
        · have four : min signData 4 = 4 := by omega
          have front : (st.filled 4 (List.replicate (min signData 4) 0) source).front =
              [0, 0, 0, 0] := by
            rw [four]
            rfl
          have zero : leValue [0, 0, 0, 0] = 0 := by decide
          rw [front, zero, Lz4UnpackRun.readBuffer, SourceStream.readData, if_pos (Nat.min_zero _)]
          exact .inr ⟨_, rfl⟩

/-- Run lemma: all of the records are decoded and written. -/
theorem AtRecords.run (reads : ReadsWhole source content)
    (empty : lz4.decompress [] lz4bBlockSize = none) {blocks : List Bytes} {fuel : Nat}
    (decodes : List.Forall₂ (Decodes lz4) compressed blocks)
    (at_ : AtRecords source content compressed signData st) (enough : blocks.length < fuel) :
    ∃ last, TurnLoop.run (fun _ => true) (Lz4UnpackRun.turn lz4 acceptsAll) fuel st = some last ∧
      written last.log = written st.log ++ blocks.flatten := by
  induction decodes generalizing st fuel with
  | nil =>
      cases fuel with
      | zero => exact absurd enough (Nat.not_lt_zero _)
      | succ fuel =>
          obtain ⟨last, broke⟩ := at_.ends reads empty
          obtain ⟨-, events, log, fruitless⟩ := Lz4UnpackRun.turn_broke broke
          refine ⟨last, by rw [TurnLoop.run, if_pos rfl, broke], ?_⟩
          rw [log, written_append, fruitless.written]
          rfl
  | cons first later ih =>
      cases fuel with
      | zero => exact absurd enough (Nat.not_lt_zero _)
      | succ fuel =>
          obtain ⟨next, went, behind, log⟩ := at_.turn reads first
          obtain ⟨last, ran, all⟩ := ih behind (Nat.lt_of_succ_lt_succ enough)
          refine ⟨last, by rw [TurnLoop.run, if_pos rfl, went]; exact ran, ?_⟩
          rw [all, log, List.append_assoc]
          rfl

end Unpack

section Pack

variable {lz4 : Lz4} {blockSizeID : BlockSizeID} {accepts : Accepts} {source : SourceStream}
  {context : PkgAlgorithmContext}

theorem decodes_of_compress {blocks compressed : List Bytes}
    (pairs : List.Forall₂ (fun block out => lz4.compress block blockSizeID.capacity = some out) blocks
      compressed) (pieces : ∀ block ∈ blocks, block ≠ [] ∧ block.length ≤ lz4bBlockSize) :
    List.Forall₂ (Decodes lz4) compressed blocks := by
  induction pairs with
  | nil => exact .nil
  | cons pair pairs ih =>
      rw [List.forall_mem_cons] at pieces
      obtain ⟨some_, within⟩ := lz4.compress_fits _ _ _ pair
      exact .cons ⟨some_, Nat.le_trans within blockSizeID.capacity_le,
        lz4.decompress_compress _ _ _ lz4bBlockSize pair pieces.1.1 pieces.1.2⟩ (ih pieces.2)

/-- A turn that breaks off writes nothing. -/
theorem Lz4PackRun.broke_written {st last : Lz4PackRun}
    (broke : st.turn lz4 blockSizeID accepts = .broke last) : written last.log = written st.log := by
  rw [turn] at broke
  dsimp only at broke
  split at broke
  · cases broke
  · cases broke
    rw [written_append, written_read, List.append_nil]
  · split at broke
    · cases broke
      rw [written_append, written_read, List.append_nil]
    · split at broke
      · cases broke
      · rename_i refused
        rw [Bool.not_eq_true] at refused
        rw [refused] at broke
        cases broke
        rw [written_append, written_append, written_read, written_refused, List.append_nil,
          List.append_nil]

/-- The loop was left when it had packed these blocks, at its end or at a block that was not
compressed. -/
structure LeftAt (lz4 : Lz4) (blockSizeID : BlockSizeID) (accepts : Accepts) (source : SourceStream)
    (context : PkgAlgorithmContext) (packed : Lz4Packed) (before : Lz4PackRun) : Prop where
  reaches : TurnLoop.Reaches Lz4PackRun.goesOn (Lz4PackRun.turn lz4 blockSizeID accepts)
    (lz4PackStart source context) before
  blocks : packed.blocks = before.blocks
  log : written packed.log = written before.log

theorem lz4Pack_leftAt {fuel : Nat} {packed : Lz4Packed}
    (run : lz4Pack lz4 blockSizeID accepts fuel source context = some packed)
    (success : packed.ret = pkgSuccess) :
    ∃ before, LeftAt lz4 blockSizeID accepts source context packed before := by
  rw [lz4Pack] at run
  split at run
  · obtain ⟨last, loop, rfl⟩ := Option.map_eq_some_iff.mp run
    obtain ⟨before, reaches, leaves⟩ := TurnLoop.run_left loop
    obtain ⟨blocks, log⟩ := @Lz4PackRun.finish_kept context last
    refine ⟨before, reaches, ?_, ?_⟩
    · cases leaves with
      | head done same => rw [blocks, same]
      | broke more broke => rw [blocks, (Lz4PackRun.turn_broke broke).1]
    · cases leaves with
      | head done same => rw [log, same]
      | broke more broke => rw [log, Lz4PackRun.broke_written broke]
  · cases run
    cases success

variable {packed : Lz4Packed} {before : Lz4PackRun}
  (left : LeftAt lz4 blockSizeID accepts source context packed before)
include left

theorem LeftAt.packs : before.Packs lz4 blockSizeID source context :=
  Lz4PackRun.packs_reached left.reaches

/-- The blocks are pieces of what was to be packed. -/
theorem LeftAt.pieces (holds : source.Holds context.srcOffset context.unpackedSize) :
    ∀ block ∈ packed.blocks, block ≠ [] ∧ block.length ≤ lz4bBlockSize := by
  have packs := left.packs
  have remain := packs.remain
  have here : before.source.Holds before.srcOffset before.remainSize := by
    have both := (packs.gives.holds_iff (by omega)).mpr holds
    rw [← packs.src] at both
    exact (show context.unpackedSize - before.blocks.flatten.length = before.remainSize by omega) ▸ both
  rw [left.blocks]
  intro block member
  refine ⟨?_, Nat.le_trans (packs.sized block member) blockSizeID.blockSize_le⟩
  cases packs.filled with
  | inl nonempty => exact nonempty block member
  | inr endless => exact absurd here endless.1

/-- The file holds their records, which can be decoded. -/
theorem LeftAt.records (holds : source.Holds context.srcOffset context.unpackedSize) :
    ∃ compressed, List.Forall₂ (Decodes lz4) compressed packed.blocks ∧
      written packed.log = leBytes 4 lz4bMagicNumber ++ Base.records lz4bReversedLen compressed := by
  obtain ⟨compressed, pairs, log⟩ := left.packs.written
  rw [← left.blocks] at pairs
  exact ⟨compressed, decodes_of_compress pairs (left.pieces holds), by rw [left.log, log]⟩

end Pack

section Package

variable {lz4 : Lz4}

/-- Every block that `Pack` reads of an entry is compressed. -/
def Lz4FileInfo.Compresses (lz4 : Lz4) (accepts : Accepts) (inStream : SourceStream)
    (info : Lz4FileInfo) : Prop :=
  ∀ st, TurnLoop.Reaches Lz4PackRun.goesOn (Lz4PackRun.turn lz4 info.blockSizeID accepts)
    (lz4PackStart inStream (info.context 0)) st → st.goesOn = true →
      st.Compresses lz4 info.blockSizeID

theorem lz4AddEntry_packs {accepts : Accepts} {fuel : Nat} {info : Lz4FileInfo}
    {inStream : SourceStream} {fileLength : Nat} {packed : Lz4Packed}
    (added : lz4AddEntry lz4 accepts fuel info inStream fileLength = some packed)
    (success : packed.ret = pkgSuccess) :
    lz4Pack lz4 (info.init fileLength).blockSizeID accepts fuel inStream
      ((info.init fileLength).context 0) = some packed := by
  rw [lz4AddEntry] at added
  split at added
  · cases added
    cases success
  · exact added

/-- The sign data does not make the package shorter. -/
theorem length_le_lz4SavePackage (digestMethod : Nat) (refused : Option Nat) (currentOffset : Nat)
    (file : Bytes) :
    file.length ≤ (lz4SavePackage digestMethod refused currentOffset file).length := by
  rw [lz4SavePackage]
  split
  · exact Nat.le_refl _
  · by_cases nothing : (List.replicate signDataLen (0 : UInt8)).take (refused.getD signDataLen) = []
    · rw [nothing, fileWrite, if_pos rfl]
    · rw [length_fileWrite nothing]
      exact Nat.le_max_left _ _

theorem lz4SavePackage_end (digestMethod : Nat) (refused : Option Nat) (file : Bytes) :
    ∃ signData, lz4SavePackage digestMethod refused file.length file =
      file ++ List.replicate signData 0 := by
  rw [lz4SavePackage]
  split
  · exact ⟨0, (List.append_nil file).symm⟩
  · exact ⟨_, by rw [fileWrite_end, List.take_replicate]⟩

variable {source : SourceStream} {content : Bytes} (reads : ReadsWhole source content)
include reads

/-- A package that begins with the magic number of blocks is loaded. -/
theorem lz4LoadPackage_written {behind : Bytes}
    (made : content = leBytes 4 lz4bMagicNumber ++ behind) :
    lz4LoadPackage source content.length =
      some (.ok (lz4DecodeHeader .lz4Block content.length 0 4)) := by
  have magic : (leBytes 4 lz4bMagicNumber).length = 4 := length_leBytes 4 _
  have piece : slice content 0 4 = leBytes 4 lz4bMagicNumber := by
    rw [slice, List.drop_zero, made, List.take_left' magic]
  have some_ : slice content 0 4 ≠ [] := by
    intro nothing
    rw [nothing] at piece
    exact absurd (congrArg List.length piece) (by rw [magic]; decide)
  have value : leValue (leBytes 4 lz4bMagicNumber) = lz4bMagicNumber := by decide
  rw [lz4LoadPackage, reads.given 0 4 some_, piece]
  dsimp only
  rw [if_neg (not_not.mpr magic), value, if_neg (by decide), if_pos rfl]

/-- Unpacking its entry gives the blocks, whatever sign data is behind their records. -/
theorem lz4Unpack_written (empty : lz4.decompress [] lz4bBlockSize = none)
    {blocks compressed : List Bytes} {signData turns : Nat}
    (decodes : List.Forall₂ (Decodes lz4) compressed blocks)
    (made : content = leBytes 4 lz4bMagicNumber ++
      (records lz4bReversedLen compressed ++ List.replicate signData 0))
    {context : PkgAlgorithmContext} (start : context.srcOffset = 4)
    (size : context.packedSize = content.length) (enough : blocks.length < turns) :
    ∃ unpacked, lz4Unpack lz4 acceptsAll turns source context = some unpacked ∧
      unpacked.ret = pkgSuccess ∧ written unpacked.log = blocks.flatten := by
  have magic : (leBytes 4 lz4bMagicNumber).length = 4 := length_leBytes 4 _
  have at_ : AtRecords source content compressed signData (lz4UnpackStart source context) := {
    src := rfl
    within := by
      change context.srcOffset ≤ _
      rw [start, made, List.length_append, magic]
      exact Nat.le_add_right _ _
    found := by
      change content.drop context.srcOffset = _
      rw [start, made, List.drop_left' magic]
    asked := by
      change context.srcOffset + context.packedSize = _
      rw [start, size, Nat.add_comm] }
  obtain ⟨last, ran, all⟩ := at_.run reads empty decodes enough
  refine ⟨last.finish context, ?_, rfl, all⟩
  rw [lz4Unpack, ran, Option.map_some]

end Package

/-- Three bytes to pack, for a package whose sign data is cut off. -/
def threeInfo : Lz4FileInfo := ⟨0, 0, 1, smallBlocks⟩

def cutPackage : MapStream := ⟨threeContainer ++ [0, 0, 0], by decide⟩

end Updater.Package
