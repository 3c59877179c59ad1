import Updater.DiffPatch.BlocksPatch
import Updater.DiffPatch.BlocksTiling

/-! Applying a patch that `MakePatch` made gives the new file back, into a buffer
and through a writer. -/

set_option autoImplicit false

namespace Updater.DiffPatch

open Updater.Base

variable {bzip2 : Bzip2} {new old : Bytes}

/-- An open reader that hands out `data`. -/
def ReaderYields (reader : Option bzip2.Reader) (data : Bytes) : Prop :=
  ∃ opened, reader = some opened ∧ bzip2.Yields opened data

theorem ReaderYields.read {reader : Option bzip2.Reader} {data rest : Bytes}
    (yields : ReaderYields reader (data ++ rest)) (nonempty : data ≠ []) :
    ∃ reader', bzip2.readFrom reader data.length = some (data, reader') ∧
      bzip2.Yields reader' rest := by
  obtain ⟨opened, same, yields⟩ := yields
  have positive : 0 < data.length := List.length_pos_iff.mpr nonempty
  obtain ⟨reader', read, later⟩ := yields.read positive (by simp)
  rw [List.take_left] at read
  rw [List.drop_left] at later
  refine ⟨reader', ?_, later⟩
  simp only [Bzip2.readFrom, same, Option.bind_some, Int.toNat_natCast]
  exact read

/-- One triple is read back from the control data. -/
theorem readControlData_yields {reader : bzip2.Reader} {ctrl : ControlData} {rest : Bytes}
    (diffSmall : ctrl.diffLength.natAbs < 2 ^ 63) (extraSmall : ctrl.extraLength.natAbs < 2 ^ 63)
    (incrementSmall : ctrl.offsetIncrement.natAbs < 2 ^ 63)
    (yields : bzip2.Yields reader (writeLE64 ctrl.diffLength ++ writeLE64 ctrl.extraLength ++
      writeLE64 ctrl.offsetIncrement ++ rest)) :
    ∃ reader', readControlData bzip2 reader = some (ctrl, reader') ∧ bzip2.Yields reader' rest := by
  have eight (value : Int) (tail : Bytes) :
      (writeLE64 value ++ tail).take 8 = writeLE64 value ∧
        (writeLE64 value ++ tail).drop 8 = tail := by
    constructor
    · exact List.take_left' (length_writeLE64 value)
    · exact List.drop_left' (length_writeLE64 value)
  simp only [List.append_assoc] at yields
  obtain ⟨first, readFirst, yields⟩ := yields.read (show 0 < 8 by decide) (by simp)
  rw [(eight _ _).1] at readFirst
  rw [(eight _ _).2] at yields
  obtain ⟨second, readSecond, yields⟩ := yields.read (show 0 < 8 by decide) (by simp)
  rw [(eight _ _).1] at readSecond
  rw [(eight _ _).2] at yields
  obtain ⟨third, readThird, yields⟩ := yields.read (show 0 < 8 by decide) (by simp)
  rw [(eight _ _).1] at readThird
  rw [(eight _ _).2] at yields
  refine ⟨third, ?_, yields⟩
  simp only [readControlData, readFirst, readSecond, readThird, Option.bind_eq_bind,
    Option.bind_some, readLE64_writeLE64 diffSmall, readLE64_writeLE64 extraSmall,
    readLE64_writeLE64 incrementSmall]
  rfl

theorem mapM_some {α β : Type} {f : α → Option β} {xs : List α} {ys : List β}
    (mapped : xs.mapM f = some ys) :
    ys.length = xs.length ∧ ∀ index : Nat, ys[index]? = xs[index]?.bind f := by
  induction xs generalizing ys with
  | nil =>
      cases mapped
      simp
  | cons x xs ih =>
      simp only [List.mapM_cons, Option.bind_eq_bind] at mapped
      obtain ⟨y, first, mapped⟩ := Option.bind_eq_some_iff.mp mapped
      obtain ⟨rest, later, mapped⟩ := Option.bind_eq_some_iff.mp mapped
      cases mapped
      obtain ⟨length, entries⟩ := ih later
      constructor
      · simp [length]
      · intro index
        cases index with
        | zero => simp [first]
        | succ index => simpa using entries index

theorem getAt_some {array : List UInt8} {start : Int} {index : Nat} (low : 0 ≤ start)
    (high : start + index < array.length) :
    ∃ byte, getAt array (start + index) = some byte ∧
      array[start.toNat + index]? = some byte := by
  have inside : start.toNat + index < array.length := by omega
  have same : (start + index).toNat = start.toNat + index := by omega
  refine ⟨array[start.toNat + index], ?_, List.getElem?_eq_getElem inside⟩
  rw [getAt, if_neg (by omega), same]
  exact List.getElem?_eq_getElem inside

/-- Adding the old bytes back to the differences gives the new bytes. -/
theorem addOldData_diffBytes {control : DiffControl} {data : Bytes}
    (newStart : 0 ≤ control.diffNewStart) (oldStart : 0 ≤ control.diffOldStart)
    (inNew : control.diffNewStart + control.ctrl.diffLength ≤ new.length)
    (inOld : control.diffOldStart + control.ctrl.diffLength ≤ old.length)
    (found : diffBytes new old control = some data) :
    data.length = control.ctrl.diffLength.toNat ∧
      addOldData old control.diffOldStart data =
        slice new control.diffNewStart.toNat control.ctrl.diffLength.toNat := by
  obtain ⟨length, entries⟩ := mapM_some found
  rw [List.length_range] at length
  refine ⟨length, ?_⟩
  apply List.ext_getElem?
  intro index
  simp only [addOldData, List.getElem?_mapIdx, getElem?_slice, entries]
  by_cases inside : index < control.ctrl.diffLength.toNat
  · obtain ⟨newByte, newAt, newEntry⟩ := getAt_some newStart
      (show control.diffNewStart + index < new.length by omega)
    obtain ⟨oldByte, oldAt, oldEntry⟩ := getAt_some oldStart
      (show control.diffOldStart + index < old.length by omega)
    have position : (control.diffOldStart + index).toNat = control.diffOldStart.toNat + index := by
      omega
    have inRange : 0 ≤ control.diffOldStart + index ∧
        control.diffOldStart.toNat + index < old.length := by omega
    have entry : (List.range control.ctrl.diffLength.toNat)[index]? = some index := by
      rw [List.getElem?_range inside]
    simp only [entry, Option.bind_some, newAt, oldAt, Option.bind_eq_bind, Option.pure_def,
      Option.map_some, position, inRange, and_self, if_true, inside, newEntry,
      List.getD_eq_getElem?_getD, oldEntry, Option.getD_some, UInt8.sub_add_cancel]
  · have entry : (List.range control.ctrl.diffLength.toNat)[index]? = none := by
      rw [List.getElem?_eq_none]
      simpa using inside
    simp only [entry, Option.bind_none, Option.map_none, inside, if_false]

theorem extraBytes_slice {control : DiffControl} {data : Bytes}
    (low : 0 ≤ control.ctrl.extraLength) (found : extraBytes new control = some data) :
    data = slice new control.extraNewStart.toNat control.ctrl.extraLength.toNat := by
  unfold extraBytes at found
  split at found
  · rename_i nothing
    cases found
    have zero : control.ctrl.extraLength = 0 := Int.le_antisymm nothing low
    simp [zero]
  · split at found
    · cases found
      rfl
    · cases found

/-- A sink that takes the new file piece by piece: `Holds sink n` says that it has
the first `n` bytes. -/
structure Takes {Sink : Type} (new : Bytes) (write : Sink → Int → Bytes → Option Sink)
    (Holds : Sink → Int → Prop) : Prop where
  write {sink : Sink} {offset length : Int} (holds : Holds sink offset) (low : 0 ≤ offset)
    (positive : 0 < length) (fits : offset + length ≤ new.length) :
    ∃ sink', write sink offset (slice new offset.toNat length.toNat) = some sink' ∧
      Holds sink' (offset + length)

def bufferWrite (newData : Bytes) (offset : Int) (data : Bytes) : Option Bytes :=
  some (writeAt newData offset.toNat data)

def BufferHolds (new newData : Bytes) (offset : Int) : Prop :=
  newData.length = new.length ∧ newData.take offset.toNat = new.take offset.toNat

theorem bufferWrite_takes (new : Bytes) : Takes new bufferWrite (BufferHolds new) := by
  constructor
  intro newData offset length holds low positive fits
  obtain ⟨sized, same⟩ := holds
  have sliced : (slice new offset.toNat length.toNat).length = length.toNat :=
    length_slice (by omega)
  have ends : (offset + length).toNat = offset.toNat + length.toNat := by omega
  refine ⟨_, rfl, ?_, ?_⟩
  · rw [length_writeAt (by omega), sized]
  · have joined := slice_append_slice new 0 offset.toNat length.toNat
    simp only [slice, List.drop_zero, Nat.zero_add] at joined
    rw [ends, ← joined, writeAt, same, List.take_append_of_le_length]
    · rw [List.take_of_length_le]
      · rfl
      · simp only [List.length_append, List.length_take, sliced]
        omega
    · simp only [List.length_append, List.length_take, sliced]
      omega

/-- A writer that keeps what it is given, call by call. -/
def collectWrite (writes : List Bytes) (_ : Int) (data : Bytes) : Option (List Bytes) :=
  some (writes ++ [data])

theorem collectWrite_takes (new : Bytes) :
    Takes new collectWrite fun writes offset => writes.flatten = new.take offset.toNat := by
  constructor
  intro writes offset length holds low positive fits
  have ends : (offset + length).toNat = offset.toNat + length.toNat := by omega
  have joined := slice_append_slice new 0 offset.toNat length.toNat
  simp only [slice, List.drop_zero, Nat.zero_add] at joined
  refine ⟨_, rfl, ?_⟩
  rw [List.flatten_append, List.flatten_singleton, holds, ends, ← joined]
  rfl

section

variable {Sink : Type} {write : Sink → Int → Bytes → Option Sink} {Holds : Sink → Int → Prop}
variable {st st' : PatchState bzip2.Reader Sink} {control : DiffControl}

/-- Members of a patch that has replayed the new file up to `scan`, with the data
of the triples still to come in its readers. -/
structure Replaying (new : Bytes) (Holds : Sink → Int → Prop) (scan pos : Int)
    (diff extra : Bytes) (st : PatchState bzip2.Reader Sink) : Prop where
  newSize : st.newSize = new.length
  newOffset : st.newOffset = scan
  oldOffset : st.oldOffset = pos
  diffReader : ReaderYields st.diffDataReader diff
  extraReader : ReaderYields st.extraDataReader extra
  sink : Holds st.sink scan

theorem streamRestoreDiffData_replays (takes : Takes new write Holds) {scan pos : Int}
    {data diff extra : Bytes} {ctrl : ControlData}
    (low : 0 ≤ scan) (positive : 0 < ctrl.diffLength) (inNew : scan + ctrl.diffLength ≤ new.length)
    (sized : data.length = ctrl.diffLength.toNat)
    (added : addOldData old pos data = slice new scan.toNat ctrl.diffLength.toNat)
    (replaying : Replaying new Holds scan pos (data ++ diff) extra st) :
    ∃ reader sink, (streamRestoreDiffData bzip2 ⟨true, old⟩ write ctrl st).result =
        some { st with diffDataReader := some reader, sink } ∧
      bzip2.Yields reader diff ∧ Holds sink (scan + ctrl.diffLength) := by
  have nonempty : data ≠ [] := by
    rintro rfl
    simp only [List.length_nil] at sized
    omega
  have length : (data.length : Int) = ctrl.diffLength := by omega
  obtain ⟨reader, read, yields⟩ := replaying.diffReader.read nonempty
  obtain ⟨sink, written, holds⟩ := takes.write replaying.sink low positive inNew
  refine ⟨reader, sink, ?_, yields, holds⟩
  rw [length] at read
  unfold streamRestoreDiffData
  rw [if_neg (Int.not_le.mpr positive)]
  simp only [Traced.result_bind, Traced.result_emit, Traced.result_ofOption, read,
    Option.bind_some, Bool.not_true, Bool.false_eq_true, if_false, replaying.newOffset,
    replaying.oldOffset, added, written, Traced.result_pure]

theorem streamRestoreExtraData_replays (takes : Takes new write Holds) {scan pos : Int}
    {diff extra : Bytes} {ctrl : ControlData}
    (low : 0 ≤ scan) (positive : 0 < ctrl.extraLength)
    (inNew : scan + ctrl.extraLength ≤ new.length)
    (replaying : Replaying new Holds scan pos diff
      (slice new scan.toNat ctrl.extraLength.toNat ++ extra) st) :
    ∃ reader sink, (streamRestoreExtraData bzip2 write ctrl st).result =
        some { st with extraDataReader := some reader, sink } ∧
      bzip2.Yields reader extra ∧ Holds sink (scan + ctrl.extraLength) := by
  have sized : (slice new scan.toNat ctrl.extraLength.toNat).length = ctrl.extraLength.toNat :=
    length_slice (by omega)
  have nonempty : slice new scan.toNat ctrl.extraLength.toNat ≠ [] := by
    intro nothing
    rw [nothing, List.length_nil] at sized
    omega
  have length : ((slice new scan.toNat ctrl.extraLength.toNat).length : Int) = ctrl.extraLength := by
    omega
  obtain ⟨reader, read, yields⟩ := replaying.extraReader.read nonempty
  obtain ⟨sink, written, holds⟩ := takes.write replaying.sink low positive inNew
  refine ⟨reader, sink, ?_, yields, holds⟩
  rw [length] at read
  unfold streamRestoreExtraData
  rw [if_neg (Int.not_le.mpr positive)]
  simp only [Traced.result_bind, Traced.result_ofOption, read, Option.bind_some,
    replaying.newOffset, written, Traced.result_pure]

/-- The diff data of a tile moves on in both files. -/
theorem applyDiff_replays (takes : Takes new write Holds) {data diff extra : Bytes}
    (oldStart : 0 ≤ control.diffOldStart) (newStart : 0 ≤ control.diffNewStart)
    (low : 0 ≤ control.ctrl.diffLength)
    (inNew : control.diffNewStart + control.ctrl.diffLength ≤ new.length)
    (inOld : control.diffOldStart + control.ctrl.diffLength ≤ old.length)
    (found : diffBytes new old control = some data)
    (replaying : Replaying new Holds control.diffNewStart control.diffOldStart (data ++ diff)
      extra st) :
    ∃ st', (applyDiff bzip2 (streamRestoreDiffData bzip2 ⟨true, old⟩ write) control.ctrl st).result =
        some st' ∧
      Replaying new Holds (control.diffNewStart + control.ctrl.diffLength)
        (control.diffOldStart + control.ctrl.diffLength) diff extra st' := by
  obtain ⟨sized, added⟩ := addOldData_diffBytes newStart oldStart inNew inOld found
  obtain ⟨newSize, newOffset, oldOffset, diffReader, extraReader, sink⟩ := replaying
  have fits : ¬ st.newOffset + control.ctrl.diffLength > st.newSize := by omega
  unfold applyDiff
  simp only [Traced.result_bind, Traced.result_emit, Option.bind_some, fits, if_false,
    Traced.result_pure]
  rcases Int.lt_or_eq_of_le low with positive | zero
  · obtain ⟨reader, sink', restored, yields, holds⟩ := streamRestoreDiffData_replays takes newStart
      positive inNew sized added ⟨newSize, newOffset, oldOffset, diffReader, extraReader, sink⟩
    rw [restored]
    refine ⟨_, rfl, newSize, ?_, ?_, ⟨reader, rfl, yields⟩, extraReader, holds⟩
    · simp only [newOffset]
    · simp only [oldOffset]
  · have nothing : data = [] := List.eq_nil_of_length_eq_zero (by omega)
    have restored : (streamRestoreDiffData bzip2 ⟨true, old⟩ write control.ctrl st).result = some st := by
      unfold streamRestoreDiffData
      rw [if_pos (Int.le_of_eq zero.symm)]
      rfl
    rw [restored]
    rw [nothing, List.nil_append] at diffReader
    refine ⟨_, rfl, newSize, ?_, ?_, diffReader, extraReader, ?_⟩
    · simp only [newOffset]
    · simp only [oldOffset]
    · simpa only [← zero, Int.add_zero] using sink

theorem applyExtra_replays (takes : Takes new write Holds) {pos : Int} {data diff extra : Bytes}
    (newStart : 0 ≤ control.extraNewStart) (low : 0 ≤ control.ctrl.extraLength)
    (inNew : control.extraNewStart + control.ctrl.extraLength ≤ new.length)
    (found : extraBytes new control = some data)
    (replaying : Replaying new Holds control.extraNewStart pos diff (data ++ extra) st) :
    ∃ st', (applyExtra bzip2 (streamRestoreExtraData bzip2 write) control.ctrl st).result =
        some st' ∧
      Replaying new Holds (control.extraNewStart + control.ctrl.extraLength)
        (pos + control.ctrl.offsetIncrement) diff extra st' := by
  have sliced := extraBytes_slice low found
  rw [sliced] at replaying
  obtain ⟨newSize, newOffset, oldOffset, diffReader, extraReader, sink⟩ := replaying
  have fits : ¬ st.newOffset + control.ctrl.extraLength > st.newSize := by omega
  unfold applyExtra
  simp only [Traced.result_bind, Traced.result_emit, Option.bind_some, fits, if_false,
    Traced.result_pure]
  rcases Int.lt_or_eq_of_le low with positive | zero
  · obtain ⟨reader, sink', restored, yields, holds⟩ := streamRestoreExtraData_replays takes newStart
      positive inNew ⟨newSize, newOffset, oldOffset, diffReader, extraReader, sink⟩
    rw [restored]
    refine ⟨_, rfl, newSize, ?_, ?_, diffReader, ⟨reader, rfl, yields⟩, holds⟩
    · simp only [newOffset]
    · simp only [oldOffset]
  · have restored : (streamRestoreExtraData bzip2 write control.ctrl st).result = some st := by
      unfold streamRestoreExtraData
      rw [if_pos (Int.le_of_eq zero.symm)]
      rfl
    rw [restored]
    simp only [← zero, Int.toNat_zero, slice_zero_length, List.nil_append] at extraReader
    refine ⟨_, rfl, newSize, ?_, ?_, diffReader, extraReader, ?_⟩
    · simp only [newOffset]
    · simp only [oldOffset]
    · simpa only [← zero, Int.add_zero] using sink

/-- The data sections of the triples still to come. -/
structure SectionsOf (new old : Bytes) (controls : List DiffControl) (diff extra : Bytes) :
    Prop where
  diff : diffSection new old controls = some diff
  extra : extraSection new controls = some extra

theorem SectionsOf.cons {rest : List DiffControl} {diff extra : Bytes}
    (sections : SectionsOf new old (control :: rest) diff extra) :
    ∃ diffData diffRest extraData extraRest,
      diffBytes new old control = some diffData ∧ extraBytes new control = some extraData ∧
      diff = diffData ++ diffRest ∧ extra = extraData ++ extraRest ∧
      SectionsOf new old rest diffRest extraRest := by
  obtain ⟨diffFound, extraFound⟩ := sections
  simp only [diffSection, extraSection, List.mapM_cons, Option.bind_eq_bind,
    Option.map_eq_some_iff] at diffFound extraFound
  obtain ⟨_, diffFound, rfl⟩ := diffFound
  obtain ⟨_, extraFound, rfl⟩ := extraFound
  obtain ⟨diffData, firstDiff, diffFound⟩ := Option.bind_eq_some_iff.mp diffFound
  obtain ⟨diffRest, laterDiff, diffFound⟩ := Option.bind_eq_some_iff.mp diffFound
  obtain ⟨extraData, firstExtra, extraFound⟩ := Option.bind_eq_some_iff.mp extraFound
  obtain ⟨extraRest, laterExtra, extraFound⟩ := Option.bind_eq_some_iff.mp extraFound
  cases diffFound
  cases extraFound
  refine ⟨diffData, diffRest.flatten, extraData, extraRest.flatten, firstDiff, firstExtra, ?_, ?_,
    ?_, ?_⟩
  · rw [List.flatten_cons]
  · rw [List.flatten_cons]
  · rw [diffSection, laterDiff]
    rfl
  · rw [extraSection, laterExtra]
    rfl

/-- Run lemma, by induction on the tiles: the loop writes the rest of the new file. -/
theorem applyLoop_replays (takes : Takes new write Holds) (oldSmall : old.length < 2 ^ 63)
    (newSmall : new.length < 2 ^ 63) {scan pos : Int} {controls : List DiffControl}
    {diff extra : Bytes} {reader : bzip2.Reader} (start : 0 ≤ scan)
    (tiles : Tiles new old scan pos controls) (sections : SectionsOf new old controls diff extra)
    (yields : bzip2.Yields reader (controlSection controls))
    (replaying : Replaying new Holds scan pos diff extra st) :
    ∃ st', (applyLoop bzip2 (streamRestoreDiffData bzip2 ⟨true, old⟩ write)
        (streamRestoreExtraData bzip2 write) reader st).result = some st' ∧
      Holds st'.sink new.length := by
  induction tiles generalizing diff extra reader st with
  | done pos =>
      have ended : ¬ st.newOffset < st.newSize := by
        rw [replaying.newOffset, replaying.newSize]
        exact Int.lt_irrefl _
      rw [applyLoop, if_neg ended]
      exact ⟨st, rfl, replaying.sink⟩
  | @step scan pos control rest diffNewStart diffOldStart extraNewStart before oldStart diffLength
      extraLength inOld inNew increment _ ih =>
      obtain ⟨diffData, diffRest, extraData, extraRest, diffFound, extraFound, rfl, rfl, later⟩ :=
        sections.cons
      have more : st.newOffset < st.newSize := by
        rw [replaying.newOffset, replaying.newSize]
        exact before
      subst diffNewStart diffOldStart
      rw [controlSection, List.flatMap_cons] at yields
      obtain ⟨reader', read, yields⟩ := readControlData_yields (by omega) (by omega) (by omega) yields
      obtain ⟨st₁, diffApplied, replaying⟩ := applyDiff_replays takes oldStart start diffLength
        (by omega) inOld diffFound replaying
      rw [← extraNewStart] at replaying
      obtain ⟨st₂, extraApplied, replaying⟩ := applyExtra_replays takes (by omega) extraLength
        (by omega) extraFound replaying
      have applied : (applyControl bzip2 (streamRestoreDiffData bzip2 ⟨true, old⟩ write)
          (streamRestoreExtraData bzip2 write) control.ctrl st).result = some st₂ := by
        rw [applyControl, Traced.result_bind, diffApplied]
        exact extraApplied
      rw [extraNewStart] at replaying
      obtain ⟨st', run, holds⟩ := ih (by omega) later yields replaying
      refine ⟨st', ?_, holds⟩
      rw [applyLoop, if_pos more]
      split
      · rename_i failed
        rw [failed] at read
        cases read
      · rename_i ctrlData control' read'
        rw [read'] at read
        cases read
        rw [Traced.result_bind, applied]
        exact run

end

/-- The header of a patch leads to its three sections, also inside a longer file; the
extra section runs to the end of that file. -/
theorem readHeader_writePatchData {sections : Sections} {newLength : Nat} (before after : Bytes)
    (stream : bzip2.compress sections.control ≠ [])
    (fileSmall : (before ++ writePatchData bzip2 sections newLength ++ after).length < 2 ^ 63)
    (newSmall : newLength < 2 ^ 63) :
    readHeader bzip2 (before ++ writePatchData bzip2 sections newLength ++ after) before.length =
      some {
        newSize := newLength
        controlDataReader := some (bzip2.decompressInit (bzip2.compress sections.control))
        diffDataReader := some (bzip2.decompressInit (bzip2.compress sections.diff))
        extraDataReader := some (bzip2.decompressInit (bzip2.compress sections.extra ++ after)) } := by
  have header : (before ++ writePatchData bzip2 sections newLength ++ after).drop before.length =
      writePatchData bzip2 sections newLength ++ after := by
    rw [List.append_assoc, List.drop_left]
  have size : (before ++ writePatchData bzip2 sections newLength ++ after).length - before.length =
      (writePatchData bzip2 sections newLength ++ after).length := by
    rw [List.append_assoc, List.length_append]
    omega
  have behind : ¬ (before ++ writePatchData bzip2 sections newLength ++ after).length <
      before.length := by
    rw [List.append_assoc, List.length_append]
    omega
  have whole : (writePatchData bzip2 sections newLength ++ after).length ≤
      (before ++ writePatchData bzip2 sections newLength ++ after).length := by
    rw [← size]
    exact Nat.sub_le _ _
  unfold readHeader
  rw [header, size]
  clear header size
  generalize (before ++ writePatchData bzip2 sections newLength ++ after).length = fileLength
    at fileSmall behind whole
  unfold writePatchData at whole ⊢
  generalize bzip2.compress sections.control = control at stream whole ⊢
  generalize bzip2.compress sections.diff = diff at whole ⊢
  generalize bzip2.compress sections.extra = extra at whole ⊢
  have magic : bsdiffMagic.length = 8 := rfl
  have positive : 0 < control.length := List.length_pos_iff.mpr stream
  simp only [List.append_assoc, List.length_append, length_writeLE64, magic] at whole ⊢
  have drop8 (tail : Bytes) : (bsdiffMagic ++ tail).drop 8 = tail := List.drop_left' magic
  have drop16 (first : Int) (tail : Bytes) :
      (bsdiffMagic ++ (writeLE64 first ++ tail)).drop 16 = tail := by
    rw [show 16 = 8 + 8 from rfl, ← List.drop_drop, drop8]
    exact List.drop_left' (length_writeLE64 first)
  have drop24 (first second : Int) (tail : Bytes) :
      (bsdiffMagic ++ (writeLE64 first ++ (writeLE64 second ++ tail))).drop 24 = tail := by
    rw [show 24 = 16 + 8 from rfl, ← List.drop_drop, drop16]
    exact List.drop_left' (length_writeLE64 second)
  have drop32 (first second third : Int) (tail : Bytes) :
      (bsdiffMagic ++ (writeLE64 first ++ (writeLE64 second ++ (writeLE64 third ++ tail)))).drop 32 =
        tail := by
    rw [show 32 = 24 + 8 from rfl, ← List.drop_drop, drop24]
    exact List.drop_left' (length_writeLE64 third)
  have field (length : Nat) (small : length < 2 ^ 63) (tail : Bytes) :
      readLE64 (writeLE64 length ++ tail) = length := by
    rw [readLE64_append (length_writeLE64 _)]
    exact readLE64_writeLE64 (by simpa using small)
  have controlSmall : control.length < 2 ^ 63 := by omega
  have diffSmall : diff.length < 2 ^ 63 := by omega
  have sum : ((diff.length : Int) + control.length).bmod (2 ^ 64) = diff.length + control.length :=
    Int.bmod_eq_of_le (by omega) (by omega)
  have diffOffset : (32 + control.length) % 2 ^ 64 = 32 + control.length :=
    Nat.mod_eq_of_lt (by omega)
  have extraOffset : (32 + control.length + diff.length) % 2 ^ 64 =
      32 + control.length + diff.length := Nat.mod_eq_of_lt (by omega)
  have extraSize : (8 + (8 + (8 + (8 + (control.length + (diff.length + (extra.length +
      after.length)))))) + 2 ^ 64 - (32 + control.length + diff.length)) % 2 ^ 64 =
        extra.length + after.length := by
    rw [show 8 + (8 + (8 + (8 + (control.length + (diff.length + (extra.length +
      after.length)))))) + 2 ^ 64 - (32 + control.length + diff.length) =
        extra.length + after.length + 2 ^ 64 by omega, Nat.add_mod_right]
    exact Nat.mod_eq_of_lt (by omega)
  have opened (first second third : Int) (start length : Nat) (piece : Bytes)
      (sliced : slice (control ++ (diff ++ (extra ++ after))) start length = piece)
      (room : start + length ≤
        control.length + diff.length + (extra.length + after.length)) :
      bzip2.openRead (bsdiffMagic ++ (writeLE64 first ++ (writeLE64 second ++ (writeLE64 third ++
        (control ++ (diff ++ (extra ++ after))))))) (32 + start) length =
          some (bzip2.decompressInit piece) := by
    rw [Bzip2.openRead, if_neg]
    · rw [slice, ← List.drop_drop, drop32]
      rw [slice] at sliced
      rw [sliced]
    · simp only [List.length_append, length_writeLE64, magic]
      omega
  have controlOpened := opened control.length diff.length newLength 0 control.length control
    (by simp [slice]) (by omega)
  have diffOpened := opened control.length diff.length newLength control.length diff.length diff
    (by simp [slice]) (by omega)
  have extraOpened := opened control.length diff.length newLength (control.length + diff.length)
    (extra.length + after.length) (extra ++ after) (by
      rw [slice, ← List.drop_drop, List.drop_left, List.drop_left]
      exact List.take_of_length_le (by rw [List.length_append])) (by omega)
  simp only [drop8, drop16, drop24, field _ controlSmall, field _ diffSmall, field _ newSmall, sum,
    diffOffset, extraOffset, extraSize, Int.toNat_natCast]
  rw [if_neg, if_neg, if_neg, if_neg, if_neg]
  · rw [show (32 : Nat) = 32 + 0 from rfl, controlOpened, Nat.add_zero, diffOpened, Nat.add_assoc,
      extraOpened]
  · omega
  · omega
  · omega
  · rw [not_ne_iff]
    exact List.take_left' magic
  · have least : patchMin = 32 := rfl
    omega

section

variable {Sink : Type} {write : Sink → Int → Bytes → Option Sink} {Holds : Sink → Int → Prop}

/-- A made patch replays the new file into any sink that takes it, wherever it stands
in a file. -/
theorem applyPatch_replays (takes : Takes new write Holds) (create : Int → Sink)
    {patch : Bytes} (before after : Bytes) (oldSmall : old.length < 2 ^ 63)
    (newSmall : new.length < 2 ^ 63) (fileSmall : (before ++ patch ++ after).length < 2 ^ 63)
    (restores : ∀ sections, makeSections new old = some sections →
      bzip2.Restores sections.control ∧ bzip2.Restores sections.diff ∧
        bzip2.RestoresBefore sections.extra after)
    (made : makePatch bzip2 new old = some patch) (created : Holds (create new.length) 0) :
    ∃ st, (applyPatch bzip2 (streamRestoreDiffData bzip2 ⟨true, old⟩ write)
        (streamRestoreExtraData bzip2 write) (before ++ patch ++ after) before.length create).result =
          some st ∧
      Holds st.sink new.length := by
  unfold makePatch at made
  obtain ⟨sections, sectionsMade, made⟩ := Option.bind_eq_some_iff.mp made
  cases made
  obtain ⟨controlRestores, diffRestores, extraRestores⟩ := restores sections sectionsMade
  have controlYields := controlRestores.yields
  have diffYields := diffRestores.yields
  rw [List.append_nil] at controlYields diffYields
  unfold makeSections at sectionsMade
  obtain ⟨suffixArray, _, sectionsMade⟩ := Option.bind_eq_some_iff.mp sectionsMade
  obtain ⟨controls, controlsFound, sectionsMade⟩ := Option.bind_eq_some_iff.mp sectionsMade
  obtain ⟨diff, diffFound, sectionsMade⟩ := Option.bind_eq_some_iff.mp sectionsMade
  obtain ⟨extra, extraFound, sectionsMade⟩ := Option.bind_eq_some_iff.mp sectionsMade
  cases sectionsMade
  unfold applyPatch
  rw [readHeader_writePatchData before after controlRestores.stream fileSmall newSmall]
  simp only
  split
  · exact applyLoop_replays takes oldSmall newSmall (Int.le_refl 0) (getCtrlDatas_tiles controlsFound)
      ⟨diffFound, extraFound⟩ controlYields
      ⟨rfl, rfl, rfl, ⟨_, rfl, diffYields⟩, ⟨_, rfl, extraRestores.yields⟩, created⟩
  · rename_i empty
    have zero : (new.length : Int) = 0 :=
      Int.le_antisymm (Int.not_lt.mp empty) (Int.natCast_nonneg _)
    refine ⟨_, rfl, ?_⟩
    rw [zero] at created ⊢
    exact created

/-- Restore functions that differ in their traces only give the same loop. -/
theorem applyLoop_congr {restoreDiffData restoreDiffData' : Restore bzip2 Sink}
    {restoreExtraData restoreExtraData' : Restore bzip2 Sink}
    (sameDiff : ∀ ctrlData st,
      (restoreDiffData ctrlData st).result = (restoreDiffData' ctrlData st).result)
    (sameExtra : ∀ ctrlData st,
      (restoreExtraData ctrlData st).result = (restoreExtraData' ctrlData st).result)
    (reader : bzip2.Reader) (st : PatchState bzip2.Reader Sink) :
    (applyLoop bzip2 restoreDiffData restoreExtraData reader st).result =
      (applyLoop bzip2 restoreDiffData' restoreExtraData' reader st).result := by
  have sameControl (ctrlData : ControlData) (st : PatchState bzip2.Reader Sink) :
      (applyControl bzip2 restoreDiffData restoreExtraData ctrlData st).result =
        (applyControl bzip2 restoreDiffData' restoreExtraData' ctrlData st).result := by
    simp only [applyControl, applyDiff, applyExtra, Traced.result_bind, apply_ite Traced.result,
      sameDiff, sameExtra]
  induction remaining : bzip2.left reader using Nat.strong_induction_on generalizing reader st with
  | _ remaining_ ih =>
      rw [applyLoop, applyLoop]
      split
      · split
        · rfl
        · rename_i ctrlData reader' read
          have used := left_readControlData bzip2 read
          rw [Traced.result_bind, Traced.result_bind, sameControl]
          congr 1
          funext st'
          exact ih _ (remaining ▸ used) reader' st' rfl
      · rfl

end

/-- The buffer patch is the stream patch on a writer that writes in place. -/
theorem bufferApplyPatch_result (patch : Bytes) (start : Nat) :
    (bufferApplyPatch bzip2 old patch start).result =
      (applyPatch bzip2 (streamRestoreDiffData bzip2 ⟨true, old⟩ bufferWrite)
        (streamRestoreExtraData bzip2 bufferWrite) patch start
        fun newSize => List.replicate newSize.toNat 0).result := by
  unfold bufferApplyPatch applyPatch
  cases readHeader bzip2 patch start with
  | none => rfl
  | some header =>
      simp only
      split
      · cases header.controlDataReader with
        | none => rfl
        | some reader =>
            apply applyLoop_congr
            · intro ctrlData st
              simp only [bufferRestoreDiffData, streamRestoreDiffData, bufferWrite]
              split
              · rfl
              · simp
            · intro ctrlData st
              simp only [bufferRestoreExtraData, streamRestoreExtraData, bufferWrite]
              split
              · rfl
              · simp
      · rfl

/-- Whatever `MakePatch` writes for two files, applying it to the old one gives
exactly the new one, in the buffer and through the writer. -/
theorem makePatch_roundTrip (bzip2 : Bzip2) {new old patch : Bytes}
    (oldSmall : old.length ≤ maxPatchLength) (newSmall : new.length < 2 ^ 63)
    (patchSmall : patch.length < 2 ^ 63)
    (restores : ∀ sections, makeSections new old = some sections →
      bzip2.Restores sections.control ∧ bzip2.Restores sections.diff ∧
        bzip2.Restores sections.extra)
    (made : makePatch bzip2 new old = some patch) :
    (∃ st, (bufferApplyPatch bzip2 old patch 0).result = some st ∧ st.sink = new) ∧
      ∃ st, (streamApplyPatch bzip2 ⟨true, old⟩ collectWrite patch 0 []).result = some st ∧
        st.sink.flatten = new := by
  have inRange : old.length < 2 ^ 63 := Nat.lt_of_le_of_lt oldSmall (by decide)
  have alone : [] ++ patch ++ [] = patch := by simp
  have fileSmall : ([] ++ patch ++ []).length < 2 ^ 63 := by
    rw [alone]
    exact patchSmall
  constructor
  · have created : BufferHolds new (List.replicate (new.length : Int).toNat 0) 0 :=
      ⟨List.length_replicate, rfl⟩
    obtain ⟨st, applied, sized, same⟩ := applyPatch_replays (bufferWrite_takes new)
      (fun newSize => List.replicate newSize.toNat 0) [] [] inRange newSmall fileSmall restores made
      created
    rw [alone] at applied
    rw [bufferApplyPatch_result]
    refine ⟨st, applied, ?_⟩
    rw [Int.toNat_natCast, List.take_of_length_le (Nat.le_of_eq sized), List.take_length] at same
    exact same
  · obtain ⟨st, applied, same⟩ := applyPatch_replays (collectWrite_takes new)
      (fun _ => []) [] [] inRange newSmall fileSmall restores made rfl
    rw [alone] at applied
    refine ⟨st, applied, ?_⟩
    rw [Int.toNat_natCast, List.take_length] at same
    exact same

/-- Compressed streams of the sections of a patch from `banana` to `bananas!`. -/
def bananaTable : List (Bytes × Bytes) :=
  [([6, 0, 0, 0, 0, 0, 0, 0, 2, 0, 0, 0, 0, 0, 0, 0, 1, 0, 0, 0, 0, 0, 0, 128],
    [66, 90, 104, 57, 49, 65, 89, 38, 83, 89, 154, 177, 145, 142, 0, 0, 8, 192, 64, 121, 0, 64,
     0, 32, 0, 33, 34, 61, 64, 192, 46, 59, 1, 44, 231, 197, 220, 145, 78, 20, 36, 38, 172, 100,
     99, 128]),
   ([0, 0, 0, 0, 0, 0],
    [66, 90, 104, 57, 49, 65, 89, 38, 83, 89, 197, 133, 67, 141, 0, 0, 0, 64, 0, 80, 0, 32, 0,
     33, 0, 130, 131, 23, 114, 69, 56, 80, 144, 197, 133, 67, 141]),
   ([115, 33],
    [66, 90, 104, 57, 49, 65, 89, 38, 83, 89, 96, 245, 174, 127, 0, 0, 0, 144, 128, 32, 0, 8, 0,
     32, 0, 33, 0, 130, 177, 119, 36, 83, 133, 9, 6, 15, 90, 231, 240])]

private theorem bananaSections : makeSections [98, 97, 110, 97, 110, 97, 115, 33]
    [98, 97, 110, 97, 110, 97] = some {
      control := [6, 0, 0, 0, 0, 0, 0, 0, 2, 0, 0, 0, 0, 0, 0, 0, 1, 0, 0, 0, 0, 0, 0, 128]
      diff := [0, 0, 0, 0, 0, 0]
      extra := [115, 33] } := by
  decide +kernel

theorem makePatch_roundTrip_banana :
    ∃ patch, makePatch (.ofTable bananaTable) [98, 97, 110, 97, 110, 97, 115, 33]
        [98, 97, 110, 97, 110, 97] = some patch ∧
      (∃ st, (bufferApplyPatch (.ofTable bananaTable) [98, 97, 110, 97, 110, 97] patch 0).result =
          some st ∧ st.sink = [98, 97, 110, 97, 110, 97, 115, 33]) ∧
        ∃ st, (streamApplyPatch (.ofTable bananaTable) ⟨true, [98, 97, 110, 97, 110, 97]⟩
            collectWrite patch 0 []).result = some st ∧
          st.sink.flatten = [98, 97, 110, 97, 110, 97, 115, 33] := by
  obtain ⟨patch, made⟩ := Option.isSome_iff_exists.mp
    (show (makePatch (.ofTable bananaTable) [98, 97, 110, 97, 110, 97, 115, 33]
      [98, 97, 110, 97, 110, 97]).isSome = true by rw [makePatch, bananaSections]; rfl)
  have small : patch.length < 2 ^ 63 := by
    rw [makePatch, bananaSections] at made
    cases made
    decide +kernel
  refine ⟨patch, made, makePatch_roundTrip (.ofTable bananaTable) (by decide) (by decide) small ?_ made⟩
  intro sections found
  rw [bananaSections] at found
  cases found
  refine ⟨⟨by decide, ?_⟩, ⟨by decide, ?_⟩, by decide, ?_⟩
  · exact Bzip2.ofTable_yields bananaTable _
  · exact Bzip2.ofTable_yields bananaTable _
  · exact Bzip2.ofTable_yields bananaTable _

end Updater.DiffPatch
