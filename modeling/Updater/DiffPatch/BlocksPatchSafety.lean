import Updater.DiffPatch.BlocksPatch

/-! Memory safety of applying an arbitrary block patch into a buffer, as a
condition on the control triples. -/

set_option autoImplicit false

namespace Updater.DiffPatch

open Updater.Base

def int64Min : Int := -(2 ^ 63)

def int64Limit : Int := 2 ^ 63

/-- The access stays inside `newData_`, the offset neither falls nor goes below
zero, the sum is a 64-bit number. -/
def PatchEvent.Safe (newSize : Int) : PatchEvent → Prop
  | .newData start length => 0 ≤ start ∧ start + length ≤ newSize
  | .newOffset before after => before ≤ after ∧ 0 ≤ after
  | .add left right => int64Min ≤ left + right ∧ left + right < int64Limit

instance (newSize : Int) (event : PatchEvent) : Decidable (event.Safe newSize) := by
  cases event <;> exact inferInstanceAs (Decidable (_ ∧ _))

section

variable (bzip2 : Bzip2) (old : Bytes)

/-- The diff data of this triple, if any, can be read. -/
def DiffReadable (ctrlData : ControlData) (st : PatchState bzip2.Reader Bytes) : Prop :=
  ctrlData.diffLength ≤ 0 ∨
    (bzip2.readFrom st.diffDataReader ctrlData.diffLength).isSome = true

def ExtraReadable (ctrlData : ControlData) (st : PatchState bzip2.Reader Bytes) : Prop :=
  ctrlData.extraLength ≤ 0 ∨
    (bzip2.readFrom st.extraDataReader ctrlData.extraLength).isSome = true

/-- The end of the diff data is a 64-bit number and, unless the triple is rejected
for running past the end or for missing data, its length is not negative. -/
def DiffInRange (ctrlData : ControlData) (st : PatchState bzip2.Reader Bytes) : Prop :=
  st.newOffset + ctrlData.diffLength < int64Limit ∧
    (st.newOffset + ctrlData.diffLength ≤ st.newSize → DiffReadable bzip2 ctrlData st →
      0 ≤ ctrlData.diffLength ∧ st.oldOffset + ctrlData.diffLength < int64Limit)

/-- The same for the extra data, and for the next position in the old file. -/
def ExtraInRange (ctrlData : ControlData) (st : PatchState bzip2.Reader Bytes) : Prop :=
  st.newOffset + ctrlData.extraLength < int64Limit ∧
    (st.newOffset + ctrlData.extraLength ≤ st.newSize → ExtraReadable bzip2 ctrlData st →
      0 ≤ ctrlData.extraLength ∧ int64Min ≤ st.oldOffset + ctrlData.offsetIncrement ∧
        st.oldOffset + ctrlData.offsetIncrement < int64Limit)

/-- The offsets behind the diff data of a triple. -/
def behindDiff (ctrlData : ControlData) (st : PatchState bzip2.Reader Bytes) :
    PatchState bzip2.Reader Bytes :=
  { st with
    newOffset := st.newOffset + ctrlData.diffLength
    oldOffset := st.oldOffset + ctrlData.diffLength }

/-- Both halves of a triple are in range, where it gets that far. -/
def ControlInRange (ctrlData : ControlData) (st : PatchState bzip2.Reader Bytes) : Prop :=
  DiffInRange bzip2 ctrlData st ∧
    (st.newOffset + ctrlData.diffLength ≤ st.newSize → DiffReadable bzip2 ctrlData st →
      ExtraInRange bzip2 ctrlData (behindDiff bzip2 ctrlData st))

/-- Members of the patch between two triples while everything was in range. -/
structure InRange (newSize : Int) (st : PatchState bzip2.Reader Bytes) : Prop where
  size : st.newSize = newSize
  small : newSize < int64Limit
  start : 0 ≤ st.newOffset
  inside : st.newOffset ≤ newSize
  oldMin : int64Min ≤ st.oldOffset
  oldLimit : st.oldOffset < int64Limit

variable {bzip2 old}
variable {ctrlData : ControlData} {st st' : PatchState bzip2.Reader Bytes} {newSize : Int}

/-- Reading diff data moves neither offset and leaves the extra data alone. -/
structure SameOffsets (st st' : PatchState bzip2.Reader Bytes) : Prop where
  newSize : st'.newSize = st.newSize
  oldOffset : st'.oldOffset = st.oldOffset
  newOffset : st'.newOffset = st.newOffset

theorem bufferRestoreDiffData_result
    (restored : (bufferRestoreDiffData bzip2 old ctrlData st).result = some st') :
    SameOffsets st st' ∧ st'.extraDataReader = st.extraDataReader ∧
      DiffReadable bzip2 ctrlData st := by
  unfold bufferRestoreDiffData at restored
  split at restored
  · rename_i nothing
    cases restored
    exact ⟨⟨rfl, rfl, rfl⟩, rfl, .inl nothing⟩
  · simp only [Traced.result_bind, Traced.result_emit, Traced.result_ofOption,
      Option.bind_some] at restored
    obtain ⟨⟨data, reader⟩, read, same⟩ := Option.bind_eq_some_iff.mp restored
    cases same
    exact ⟨⟨rfl, rfl, rfl⟩, rfl, .inr (by rw [read]; rfl)⟩

theorem bufferRestoreDiffData_readable (old : Bytes) (readable : DiffReadable bzip2 ctrlData st) :
    ∃ st', (bufferRestoreDiffData bzip2 old ctrlData st).result = some st' := by
  unfold bufferRestoreDiffData
  split
  · exact ⟨st, rfl⟩
  · rename_i positive
    rcases readable with nothing | available
    · exact absurd nothing positive
    · obtain ⟨⟨data, reader⟩, read⟩ := Option.isSome_iff_exists.mp available
      simp only [Traced.result_bind, Traced.result_emit, Traced.result_ofOption, read,
        Option.bind_some, Traced.result_pure]
      exact ⟨_, rfl⟩

theorem bufferRestoreExtraData_result
    (restored : (bufferRestoreExtraData bzip2 ctrlData st).result = some st') :
    SameOffsets st st' ∧ ExtraReadable bzip2 ctrlData st := by
  unfold bufferRestoreExtraData at restored
  split at restored
  · rename_i nothing
    cases restored
    exact ⟨⟨rfl, rfl, rfl⟩, .inl nothing⟩
  · simp only [Traced.result_bind, Traced.result_emit, Traced.result_ofOption,
      Option.bind_some] at restored
    obtain ⟨⟨data, reader⟩, read, same⟩ := Option.bind_eq_some_iff.mp restored
    cases same
    exact ⟨⟨rfl, rfl, rfl⟩, .inr (by rw [read]; rfl)⟩

theorem bufferRestoreExtraData_readable (readable : ExtraReadable bzip2 ctrlData st) :
    ∃ st', (bufferRestoreExtraData bzip2 ctrlData st).result = some st' := by
  unfold bufferRestoreExtraData
  split
  · exact ⟨st, rfl⟩
  · rename_i positive
    rcases readable with nothing | available
    · exact absurd nothing positive
    · obtain ⟨⟨data, reader⟩, read⟩ := Option.isSome_iff_exists.mp available
      simp only [Traced.result_bind, Traced.result_emit, Traced.result_ofOption, read,
        Option.bind_some, Traced.result_pure]
      exact ⟨_, rfl⟩

theorem oldPositions_safe {oldOffset length : Int} (low : int64Min ≤ oldOffset)
    (high : oldOffset + length < int64Limit) :
    ∀ event ∈ oldPositions oldOffset length, event.Safe newSize := by
  intro event member
  simp only [oldPositions, List.mem_map, List.mem_range] at member
  obtain ⟨index, inside, rfl⟩ := member
  simp only [PatchEvent.Safe]
  omega

/-- The first half of a triple, as one step. -/
theorem applyDiff_result :
    (applyDiff bzip2 (bufferRestoreDiffData bzip2 old) ctrlData st).result = some st' →
      st.newOffset + ctrlData.diffLength ≤ st.newSize ∧ DiffReadable bzip2 ctrlData st ∧
        st'.newSize = st.newSize ∧ st'.newOffset = st.newOffset + ctrlData.diffLength ∧
        st'.oldOffset = st.oldOffset + ctrlData.diffLength ∧
        st'.extraDataReader = st.extraDataReader := by
  intro applied
  unfold applyDiff at applied
  simp only [Traced.result_bind, Traced.result_emit, Option.bind_some] at applied
  split at applied
  · cases applied
  · rename_i inside
    simp only [Traced.result_bind, Traced.result_emit, Option.bind_some] at applied
    obtain ⟨middle, restored, same⟩ := Option.bind_eq_some_iff.mp applied
    obtain ⟨frame, extra, readable⟩ := bufferRestoreDiffData_result restored
    cases same
    refine ⟨by omega, readable, frame.newSize, ?_, ?_, extra⟩
    · exact congrArg (· + ctrlData.diffLength) frame.newOffset
    · exact congrArg (· + ctrlData.diffLength) frame.oldOffset

theorem applyExtra_result :
    (applyExtra bzip2 (bufferRestoreExtraData bzip2) ctrlData st).result = some st' →
      st.newOffset + ctrlData.extraLength ≤ st.newSize ∧ ExtraReadable bzip2 ctrlData st ∧
        st'.newSize = st.newSize ∧ st'.newOffset = st.newOffset + ctrlData.extraLength ∧
        st'.oldOffset = st.oldOffset + ctrlData.offsetIncrement := by
  intro applied
  unfold applyExtra at applied
  simp only [Traced.result_bind, Traced.result_emit, Option.bind_some] at applied
  split at applied
  · cases applied
  · rename_i inside
    simp only [Traced.result_bind, Traced.result_emit, Option.bind_some] at applied
    obtain ⟨middle, restored, same⟩ := Option.bind_eq_some_iff.mp applied
    obtain ⟨frame, readable⟩ := bufferRestoreExtraData_result restored
    cases same
    refine ⟨by omega, readable, frame.newSize, ?_, ?_⟩
    · exact congrArg (· + ctrlData.extraLength) frame.newOffset
    · exact congrArg (· + ctrlData.offsetIncrement) frame.oldOffset

theorem applyDiff_safe_iff (range : InRange bzip2 newSize st)
    (low : int64Min < ctrlData.diffLength) :
    (applyDiff bzip2 (bufferRestoreDiffData bzip2 old) ctrlData st).All
        (PatchEvent.Safe newSize) ↔ DiffInRange bzip2 ctrlData st := by
  have start := range.start
  have size := range.size
  have oldMin := range.oldMin
  have small := range.small
  have minimum : int64Min = -(2 ^ 63) := rfl
  have limit : int64Limit = 2 ^ 63 := rfl
  simp only [applyDiff, Traced.all_bind, Traced.all_emit, List.forall_mem_singleton, DiffInRange]
  constructor
  · intro safe
    obtain ⟨diffSum, body⟩ := safe
    refine ⟨diffSum.2, fun inside readable => ?_⟩
    have body := body () rfl
    rw [if_neg (by omega)] at body
    obtain ⟨middle, restored⟩ := bufferRestoreDiffData_readable old readable
    obtain ⟨frame, _, _⟩ := bufferRestoreDiffData_result restored
    have last := (Traced.all_bind _ _).mp ((Traced.all_bind _ _).mp body |>.2 middle restored) |>.1
    simp only [Traced.all_emit, List.forall_mem_cons, PatchEvent.Safe, frame.oldOffset,
      frame.newOffset] at last
    omega
  · rintro ⟨diffSum, good⟩
    refine ⟨⟨by omega, diffSum⟩, fun _ _ => ?_⟩
    split
    · exact Traced.all_reject
    · rename_i inside
      have fits : st.newOffset + ctrlData.diffLength ≤ st.newSize := by omega
      simp only [Traced.all_bind, Traced.all_emit, Traced.all_pure, List.forall_mem_cons]
      refine ⟨?_, fun middle restored => ?_⟩
      · unfold bufferRestoreDiffData
        split
        · exact Traced.all_pure st
        · simp only [Traced.all_bind, Traced.all_emit, Traced.all_ofOption, Traced.all_pure,
            Traced.result_ofOption, List.forall_mem_singleton]
          refine ⟨⟨start, by omega⟩, fun _ _ => ⟨trivial, fun answer read => ?_⟩⟩
          have sums := (good fits (.inr (by rw [read]; rfl))).2
          exact ⟨oldPositions_safe oldMin sums, fun _ _ => trivial⟩
      · obtain ⟨frame, _, readable⟩ := bufferRestoreDiffData_result restored
        obtain ⟨positive, oldSum⟩ := good fits readable
        rw [frame.oldOffset, frame.newOffset]
        refine ⟨⟨⟨by omega, oldSum⟩, ⟨by omega, diffSum⟩, ⟨by omega, by omega⟩, by simp⟩, ?_⟩
        exact fun _ _ => trivial

theorem applyExtra_safe_iff (size : st.newSize = newSize) (start : 0 ≤ st.newOffset)
    (low : int64Min < ctrlData.extraLength) :
    (applyExtra bzip2 (bufferRestoreExtraData bzip2) ctrlData st).All
        (PatchEvent.Safe newSize) ↔ ExtraInRange bzip2 ctrlData st := by
  have minimum : int64Min = -(2 ^ 63) := rfl
  have limit : int64Limit = 2 ^ 63 := rfl
  simp only [applyExtra, Traced.all_bind, Traced.all_emit, List.forall_mem_singleton, ExtraInRange]
  constructor
  · intro safe
    obtain ⟨extraSum, body⟩ := safe
    refine ⟨extraSum.2, fun inside readable => ?_⟩
    have body := body () rfl
    rw [if_neg (by omega)] at body
    obtain ⟨middle, restored⟩ := bufferRestoreExtraData_readable readable
    obtain ⟨frame, _⟩ := bufferRestoreExtraData_result restored
    have last := (Traced.all_bind _ _).mp ((Traced.all_bind _ _).mp body |>.2 middle restored) |>.1
    simp only [Traced.all_emit, List.forall_mem_cons, PatchEvent.Safe, frame.oldOffset,
      frame.newOffset] at last
    omega
  · rintro ⟨extraSum, good⟩
    refine ⟨⟨by omega, extraSum⟩, fun _ _ => ?_⟩
    split
    · exact Traced.all_reject
    · rename_i inside
      have fits : st.newOffset + ctrlData.extraLength ≤ st.newSize := by omega
      simp only [Traced.all_bind, Traced.all_emit, Traced.all_pure, List.forall_mem_cons]
      refine ⟨?_, fun middle restored => ?_⟩
      · unfold bufferRestoreExtraData
        split
        · exact Traced.all_pure st
        · simp only [Traced.all_bind, Traced.all_emit, Traced.all_ofOption, Traced.all_pure,
            List.forall_mem_singleton]
          exact ⟨⟨start, by omega⟩, fun _ _ => ⟨trivial, fun _ _ => trivial⟩⟩
      · obtain ⟨frame, readable⟩ := bufferRestoreExtraData_result restored
        obtain ⟨positive, oldMin, oldSum⟩ := good fits readable
        rw [frame.oldOffset, frame.newOffset]
        refine ⟨⟨⟨by omega, extraSum⟩, ⟨by omega, by omega⟩, ⟨oldMin, oldSum⟩, by simp⟩, ?_⟩
        exact fun _ _ => trivial

theorem applyDiff_some (old : Bytes)
    (inside : st.newOffset + ctrlData.diffLength ≤ st.newSize)
    (readable : DiffReadable bzip2 ctrlData st) :
    ∃ st', (applyDiff bzip2 (bufferRestoreDiffData bzip2 old) ctrlData st).result = some st' := by
  obtain ⟨middle, restored⟩ := bufferRestoreDiffData_readable old readable
  simp only [applyDiff, Traced.result_bind, Traced.result_emit, Option.bind_some]
  rw [if_neg (by omega)]
  simp only [Traced.result_bind, restored, Traced.result_emit, Option.bind_some,
    Traced.result_pure]
  exact ⟨_, rfl⟩

/-- Being in range depends on the offsets and on the extra data only. -/
theorem extraInRange_behindDiff (size : st'.newSize = st.newSize)
    (newOffset : st'.newOffset = st.newOffset + ctrlData.diffLength)
    (oldOffset : st'.oldOffset = st.oldOffset + ctrlData.diffLength)
    (extra : st'.extraDataReader = st.extraDataReader) :
    ExtraInRange bzip2 ctrlData st' ↔
      ExtraInRange bzip2 ctrlData (behindDiff bzip2 ctrlData st) := by
  rw [ExtraInRange, ExtraInRange, ExtraReadable, ExtraReadable, size, newOffset, oldOffset, extra]
  rfl

/-- One triple is applied without an unsafe event just when it is in range. -/
theorem applyControl_safe_iff (range : InRange bzip2 newSize st)
    (diffLow : int64Min < ctrlData.diffLength) (extraLow : int64Min < ctrlData.extraLength) :
    (applyControl bzip2 (bufferRestoreDiffData bzip2 old) (bufferRestoreExtraData bzip2)
        ctrlData st).All (PatchEvent.Safe newSize) ↔ ControlInRange bzip2 ctrlData st := by
  have start := range.start
  rw [applyControl, Traced.all_bind, applyDiff_safe_iff range diffLow, ControlInRange]
  constructor
  · rintro ⟨diff, extra⟩
    refine ⟨diff, fun inside readable => ?_⟩
    obtain ⟨st', applied⟩ := applyDiff_some old inside readable
    obtain ⟨_, _, size, newOffset, oldOffset, reader⟩ := applyDiff_result applied
    have positive := (diff.2 inside readable).1
    have safe := (applyExtra_safe_iff (size.trans range.size) (by omega) extraLow).mp
      (extra st' applied)
    exact (extraInRange_behindDiff size newOffset oldOffset reader).mp safe
  · rintro ⟨diff, extra⟩
    refine ⟨diff, fun st' applied => ?_⟩
    obtain ⟨inside, readable, size, newOffset, oldOffset, reader⟩ := applyDiff_result applied
    have positive := (diff.2 inside readable).1
    apply (applyExtra_safe_iff (size.trans range.size) (by omega) extraLow).mpr
    exact (extraInRange_behindDiff size newOffset oldOffset reader).mpr (extra inside readable)

/-- A triple in range leaves the offsets in range. -/
theorem InRange.applyControl (range : InRange bzip2 newSize st)
    (good : ControlInRange bzip2 ctrlData st)
    (applied : (DiffPatch.applyControl bzip2 (bufferRestoreDiffData bzip2 old)
      (bufferRestoreExtraData bzip2) ctrlData st).result = some st') :
    InRange bzip2 newSize st' := by
  have start := range.start
  have size := range.size
  rw [DiffPatch.applyControl, Traced.result_bind] at applied
  obtain ⟨middle, diffApplied, extraApplied⟩ := Option.bind_eq_some_iff.mp applied
  obtain ⟨diffInside, diffReadable, diffSize, diffNew, diffOld, reader⟩ :=
    applyDiff_result diffApplied
  obtain ⟨extraInside, extraReadable, extraSize, extraNew, extraOld⟩ :=
    applyExtra_result extraApplied
  have diffPositive := (good.1.2 diffInside diffReadable).1
  have extraGood := (extraInRange_behindDiff diffSize diffNew diffOld reader).mpr
    (good.2 diffInside diffReadable)
  obtain ⟨extraPositive, oldMin, oldLimit⟩ := extraGood.2 extraInside extraReadable
  exact ⟨by omega, range.small, by omega, by omega, by omega, by omega⟩

/-- One turn of the loop, from a control reader and a state to the next. -/
def LoopTurn (bzip2 : Bzip2) (old : Bytes)
    (before after : bzip2.Reader × PatchState bzip2.Reader Bytes) : Prop :=
  before.2.newOffset < before.2.newSize ∧
    ∃ ctrlData, readControlData bzip2 before.1 = some (ctrlData, after.1) ∧
      (applyControl bzip2 (bufferRestoreDiffData bzip2 old) (bufferRestoreExtraData bzip2)
        ctrlData before.2).result = some after.2

/-- Every triple that the loop reads, after any number of turns, is in range. -/
def ControlsInRange (bzip2 : Bzip2) (old : Bytes)
    (first : bzip2.Reader × PatchState bzip2.Reader Bytes) : Prop :=
  ∀ now, Relation.ReflTransGen (LoopTurn bzip2 old) first now → now.2.newOffset < now.2.newSize →
    ∀ ctrlData next, readControlData bzip2 now.1 = some (ctrlData, next) →
      ControlInRange bzip2 ctrlData now.2

theorem readControlData_low {reader next : bzip2.Reader}
    (read : readControlData bzip2 reader = some (ctrlData, next)) :
    int64Min < ctrlData.diffLength ∧ int64Min < ctrlData.extraLength := by
  simp only [readControlData, Option.bind_eq_bind, Option.bind_eq_some_iff] at read
  obtain ⟨_, _, _, _, _, _, same⟩ := read
  cases same
  exact ⟨(readLE64_bounds _).1, (readLE64_bounds _).1⟩

/-- Run lemma, by induction on the control data that is left. -/
theorem applyLoop_safe_iff (control : bzip2.Reader) (range : InRange bzip2 newSize st) :
    (applyLoop bzip2 (bufferRestoreDiffData bzip2 old) (bufferRestoreExtraData bzip2)
        control st).All (PatchEvent.Safe newSize) ↔ ControlsInRange bzip2 old (control, st) := by
  induction remaining : bzip2.left control using Nat.strong_induction_on generalizing control st with
  | _ remaining_ ih =>
      rw [applyLoop]
      by_cases more : st.newOffset < st.newSize
      · rw [if_pos more]
        split
        · rename_i failed
          refine ⟨fun _ now reached _ ctrlData next read => ?_, fun _ => Traced.all_reject⟩
          rcases Relation.ReflTransGen.cases_head reached with rfl | ⟨middle, turn, _⟩
          · rw [failed] at read
            cases read
          · obtain ⟨_, _, read', _⟩ := turn
            rw [failed] at read'
            cases read'
        · rename_i ctrlData control' read
          obtain ⟨diffLow, extraLow⟩ := readControlData_low read
          have used := left_readControlData bzip2 read
          rw [Traced.all_bind, applyControl_safe_iff range diffLow extraLow]
          constructor
          · rintro ⟨good, rest⟩ now reached nowMore ctrlData' next read'
            rcases Relation.ReflTransGen.cases_head reached with rfl | ⟨middle, turn, later⟩
            · rw [read] at read'
              cases read'
              exact good
            · obtain ⟨_, _, readTurn, applied⟩ := turn
              rw [read] at readTurn
              cases readTurn
              have tail := (ih _ (remaining ▸ used) middle.1 (range.applyControl good applied)
                rfl).mp (rest middle.2 applied)
              exact tail now later nowMore ctrlData' next read'
          · intro good
            have first := good (control, st) .refl more ctrlData control' read
            refine ⟨first, fun st' applied => ?_⟩
            refine (ih _ (remaining ▸ used) control' (range.applyControl first applied) rfl).mpr ?_
            intro now reached
            exact good now (.head ⟨more, ctrlData, read, applied⟩ reached)
      · rw [if_neg more]
        refine ⟨fun _ now reached nowMore => ?_, fun _ => Traced.all_pure st⟩
        rcases Relation.ReflTransGen.cases_head reached with rfl | ⟨middle, turn, _⟩
        · exact absurd nowMore more
        · exact absurd turn.1 more

/-- Where the loop starts with this patch. -/
def firstTurn (bzip2 : Bzip2) (header : PatchHeader bzip2) (control : bzip2.Reader) :
    bzip2.Reader × PatchState bzip2.Reader Bytes :=
  (control, {
    newSize := header.newSize
    oldOffset := 0
    newOffset := 0
    diffDataReader := header.diffDataReader
    extraDataReader := header.extraDataReader
    sink := List.replicate header.newSize.toNat 0 })

theorem firstTurn_inRange {header : PatchHeader bzip2} (control : bzip2.Reader)
    (positive : 0 ≤ header.newSize) (small : header.newSize < int64Limit) :
    InRange bzip2 header.newSize (firstTurn bzip2 header control).2 := by
  have low : int64Min ≤ 0 := by decide
  have high : 0 < int64Limit := by decide
  exact ⟨rfl, small, Int.le_refl 0, positive, low, high⟩

end

theorem readHeader_newSize {bzip2 : Bzip2} {patch : Bytes} {start : Nat}
    {header : PatchHeader bzip2} (read : readHeader bzip2 patch start = some header) :
    0 ≤ header.newSize ∧ header.newSize < int64Limit := by
  unfold readHeader at read
  split at read
  · cases read
  · simp only at read
    split at read
    · cases read
    · split at read
      · cases read
      · split at read
        · cases read
        · rename_i positive
          split at read
          · cases read
          · cases read
            exact ⟨Int.not_lt.mp positive, (readLE64_bounds _).2⟩

/-- No event of applying the patch is unsafe, for the size its header declares. -/
def PatchSafe (bzip2 : Bzip2) (old patch : Bytes) (start : Nat) : Prop :=
  ∀ header, readHeader bzip2 patch start = some header →
    (bufferApplyPatch bzip2 old patch start).All (PatchEvent.Safe header.newSize)

/-- Applying any patch to any old buffer is safe just when every triple it reads
is in range. -/
theorem bufferApplyPatch_safe_iff (bzip2 : Bzip2) (old patch : Bytes) (start : Nat) :
    PatchSafe bzip2 old patch start ↔
      ∀ header control, readHeader bzip2 patch start = some header →
        header.controlDataReader = some control →
        ControlsInRange bzip2 old (firstTurn bzip2 header control) := by
  constructor
  · intro safe header control read opened
    have size := readHeader_newSize read
    have applied := safe header read
    have range := firstTurn_inRange control size.1 size.2
    rw [bufferApplyPatch, applyPatch, read] at applied
    simp only [opened] at applied
    split at applied
    · exact (applyLoop_safe_iff control range).mp applied
    · rename_i empty
      intro now reached nowMore
      rcases Relation.ReflTransGen.cases_head reached with rfl | ⟨middle, turn, _⟩
      · exact absurd nowMore empty
      · exact absurd turn.1 empty
  · intro good header read
    have size := readHeader_newSize read
    rw [bufferApplyPatch, applyPatch, read]
    simp only
    split
    · cases opened : header.controlDataReader with
      | none => exact Traced.all_reject
      | some control =>
          have range := firstTurn_inRange control size.1 size.2
          exact (applyLoop_safe_iff control range).mpr (good header control read opened)
    · exact Traced.all_pure _

/-- bzip2 streams of the triples `(-8, 0, 0)` and `(4, 0, 0)`, of `ABCD`, and of nothing. -/
def negativeTable : List (Bytes × Bytes) :=
  [([8, 0, 0, 0, 0, 0, 0, 128, 0, 0, 0, 0, 0, 0, 0, 0, 0, 0, 0, 0, 0, 0, 0, 0,
      4, 0, 0, 0, 0, 0, 0, 0, 0, 0, 0, 0, 0, 0, 0, 0, 0, 0, 0, 0, 0, 0, 0, 0],
    [66, 90, 104, 57, 49, 65, 89, 38, 83, 89, 48, 56, 173, 145, 0, 0, 7, 96, 64, 84, 68, 8, 0, 64,
      0, 32, 0, 49, 12, 0, 148, 52, 122, 145, 216, 81, 206, 15, 139, 185, 34, 156, 40, 72, 24, 28,
      86, 200, 128]),
   ([65, 66, 67, 68],
    [66, 90, 104, 57, 49, 65, 89, 38, 83, 89, 84, 48, 101, 156, 0, 0, 0, 4, 0, 60, 0, 32, 0, 33,
      154, 104, 51, 77, 19, 60, 93, 201, 20, 225, 66, 65, 80, 193, 150, 112]),
   ([], [66, 90, 104, 57, 23, 114, 69, 56, 80, 144, 0, 0, 0, 0])]

/-- A patch with those sections for a new file of one byte. -/
def negativePatch : Bytes :=
  bsdiffMagic ++ writeLE64 49 ++ writeLE64 40 ++ writeLE64 1 ++
    (negativeTable.map Prod.snd).flatten

/-- Its second triple writes four bytes from eight bytes before `newData_`. -/
theorem negative_length_writes_outside :
    .newData (-8) 4 ∈ (bufferApplyPatch (Bzip2.ofTable negativeTable) [] negativePatch 0).events ∧
      ¬ PatchSafe (Bzip2.ofTable negativeTable) [] negativePatch 0 := by
  have outside : .newData (-8) 4 ∈
      (bufferApplyPatch (Bzip2.ofTable negativeTable) [] negativePatch 0).events := by
    decide +kernel
  refine ⟨outside, fun safe => ?_⟩
  cases read : readHeader (Bzip2.ofTable negativeTable) negativePatch 0 with
  | none =>
      have present : (readHeader (Bzip2.ofTable negativeTable) negativePatch 0).isSome = true := by
        decide +kernel
      rw [read] at present
      cases present
  | some header =>
      have inside := safe header read _ outside
      exact absurd inside.1 (by decide)

end Updater.DiffPatch
