import Updater.DiffPatch.BlocksDiff

/-! The control triples of `GetCtrlDatas` tile the new file, with every diff range
inside the old one. -/

set_option autoImplicit false

namespace Updater.DiffPatch

open Updater.Base

/-- The triples replay the new file from `scan` on, the old one read from `pos`. -/
inductive Tiles (new old : Bytes) : Int → Int → List DiffControl → Prop where
  | done (pos : Int) : Tiles new old new.length pos []
  | step {scan pos : Int} {control : DiffControl} {rest : List DiffControl}
      (diffNewStart : control.diffNewStart = scan)
      (diffOldStart : control.diffOldStart = pos)
      (extraNewStart : control.extraNewStart = scan + control.ctrl.diffLength)
      (before : scan < new.length)
      (oldStart : 0 ≤ pos)
      (diffLength : 0 ≤ control.ctrl.diffLength)
      (extraLength : 0 ≤ control.ctrl.extraLength)
      (inOld : pos + control.ctrl.diffLength ≤ old.length)
      (inNew : scan + control.ctrl.diffLength + control.ctrl.extraLength ≤ new.length)
      (increment : control.ctrl.offsetIncrement.natAbs ≤ old.length)
      (tiles : Tiles new old (scan + control.ctrl.diffLength + control.ctrl.extraLength)
        (pos + control.ctrl.diffLength + control.ctrl.offsetIncrement) rest) :
      Tiles new old scan pos (control :: rest)

variable {suffixArray : List Int} {new old : Bytes}

/-- A search result that lies inside both files. -/
structure Scored.Inside (new old : Bytes) (scored : Scored) : Prop where
  offset : 0 ≤ scored.currentOffset
  offsetEnd : scored.currentOffset ≤ new.length
  position : 0 ≤ scored.matchPos
  positionEnd : scored.matchPos ≤ old.length
  length : 0 ≤ scored.matchLen

/-- The search goes forwards, and where it stops early its match ends in time. -/
theorem scoreLoop_inside {lastOffset begin : Int} {scored result : Scored}
    (inside : scored.Inside new old)
    (found : scoreLoop suffixArray new old lastOffset begin scored = some result) :
    result.Inside new old ∧ scored.currentOffset ≤ result.currentOffset ∧
      (result.currentOffset < new.length →
        result.currentOffset + result.matchLen ≤ new.length) := by
  induction begin, scored using scoreLoop.induct new with
  | case1 begin scored more ih =>
      unfold scoreLoop at found
      simp only [more, if_true, Option.bind_eq_bind, Option.bind_eq_some_iff] at found
      obtain ⟨⟨matchLen, matchPos⟩, searched, ⟨begin', oldScore⟩, _, found⟩ := found
      obtain ⟨lengthBound, positionBound⟩ := SuffixArray.search_bounds searched
      have offset := inside.offset
      have matchEnd : scored.currentOffset + matchLen ≤ new.length := by
        rw [List.length_drop] at lengthBound
        omega
      split at found
      · cases found
        refine ⟨⟨offset, inside.offsetEnd, ?_, ?_, ?_⟩, Int.le_refl _, fun _ => matchEnd⟩
        · exact Int.natCast_nonneg matchPos
        · exact Int.ofNat_le.mpr positionBound
        · exact Int.natCast_nonneg matchLen
      · obtain ⟨same, _, found⟩ := Option.bind_eq_some_iff.mp found
        obtain ⟨resultInside, forwards, inTime⟩ := ih matchLen matchPos begin' oldScore same
          ⟨Int.le_add_one offset, more, Int.natCast_nonneg matchPos,
            Int.ofNat_le.mpr positionBound, Int.natCast_nonneg matchLen⟩ found
        exact ⟨resultInside, Int.le_trans (Int.le_add_one (Int.le_refl _)) forwards, inTime⟩
  | case2 begin scored done =>
      unfold scoreLoop at found
      simp only [done, if_false] at found
      cases found
      exact ⟨inside, Int.le_refl _, fun more => absurd more done⟩

/-- The front extension ends before the match and inside the old file. -/
theorem extendFront_bounds {st : DiffState} {i s tmp lengthFront result : Int}
    (low : 0 ≤ lengthFront) (kept : lengthFront ≤ i)
    (inNew : st.lastScan + i ≤ st.currentOffset) (inOld : st.lastPos + i ≤ old.length)
    (found : extendFront new old st i s tmp lengthFront = some result) :
    0 ≤ result ∧ st.lastScan + result ≤ st.currentOffset ∧
      st.lastPos + result ≤ old.length := by
  induction i, s, tmp, lengthFront using extendFront.induct old st with
  | case1 i s tmp lengthFront more taken ignored =>
      unfold extendFront at found
      simp only [more, and_self, if_true, Option.bind_eq_bind, Option.bind_eq_some_iff] at found
      obtain ⟨oldByte, _, newByte, _, found⟩ := found
      obtain ⟨moreNew, moreOld⟩ := more
      have taken := taken oldByte newByte
      have ignored := ignored oldByte newByte
      simp only [dite_eq_ite] at taken ignored
      generalize (if oldByte = newByte then s + 1 else s) = score at found taken ignored
      split at found
      · apply taken
        · omega
        · exact Int.le_refl _
        · omega
        · omega
        · exact found
      · apply ignored low
        · omega
        · omega
        · omega
        · exact found
  | case2 i s tmp lengthFront done =>
      unfold extendFront at found
      simp only [done, if_false] at found
      cases found
      refine ⟨low, ?_, ?_⟩
      · omega
      · omega

/-- The back extension ends behind the last match and inside the old file. -/
theorem extendBack_bounds {st : DiffState} {i s tmp lengthBack result : Int}
    (low : 0 ≤ lengthBack) (next : 1 ≤ i) (inNew : st.lastScan + lengthBack ≤ st.currentOffset)
    (inOld : lengthBack ≤ st.matchPos)
    (found : extendBack new old st i s tmp lengthBack = some result) :
    0 ≤ result ∧ st.lastScan + result ≤ st.currentOffset ∧ result ≤ st.matchPos := by
  induction i, s, tmp, lengthBack using extendBack.induct st with
  | case1 i s tmp lengthBack more taken ignored =>
      unfold extendBack at found
      simp only [more, and_self, if_true, Option.bind_eq_bind, Option.bind_eq_some_iff] at found
      obtain ⟨oldByte, _, newByte, _, found⟩ := found
      obtain ⟨moreNew, moreOld⟩ := more
      have taken := taken oldByte newByte
      have ignored := ignored oldByte newByte
      simp only [dite_eq_ite] at taken ignored
      generalize (if oldByte = newByte then s + 1 else s) = score at found taken ignored
      split at found
      · apply taken
        · omega
        · omega
        · exact moreNew
        · exact moreOld
        · exact found
      · apply ignored low
        · omega
        · exact inNew
        · exact inOld
        · exact found
  | case2 i s tmp lengthBack done =>
      unfold extendBack at found
      simp only [done, if_false] at found
      cases found
      exact ⟨low, inNew, inOld⟩

theorem splitOverlap_bounds {st : DiffState} {lengthFront lengthBack overlap i s tmp lens : Int}
    {result : Int} (low : 0 ≤ lens) (high : lens ≤ overlap) (next : 0 ≤ i)
    (found : splitOverlap new old st lengthFront lengthBack overlap i s tmp lens = some result) :
    0 ≤ result ∧ result ≤ overlap := by
  induction i, s, tmp, lens using splitOverlap.induct overlap with
  | case1 i s tmp lens more taken ignored =>
      unfold splitOverlap at found
      simp only [more, if_true, Option.bind_eq_bind, Option.bind_eq_some_iff] at found
      obtain ⟨frontNew, _, frontOld, _, backNew, _, backOld, _, found⟩ := found
      have taken := taken frontNew frontOld backNew backOld
      have ignored := ignored frontNew frontOld backNew backOld
      simp only [dite_eq_ite] at taken ignored
      generalize (if frontNew = frontOld then s + 1 else s) = front at found taken ignored
      generalize (if backNew = backOld then front - 1 else front) = score at found taken ignored
      split at found
      · apply taken
        · omega
        · omega
        · omega
        · exact found
      · apply ignored low high
        · omega
        · exact found
  | case2 i s tmp lens done =>
      unfold splitOverlap at found
      simp only [done, if_false] at found
      cases found
      exact ⟨low, high⟩

/-- The offsets between two triples: both files up to the last match are covered,
and the next match is inside them. -/
structure DiffState.Inside (new old : Bytes) (st : DiffState) : Prop where
  scan : 0 ≤ st.lastScan
  scanned : st.lastScan ≤ st.currentOffset
  offsetEnd : st.currentOffset ≤ new.length
  pos : 0 ≤ st.lastPos
  posEnd : st.lastPos ≤ old.length
  position : 0 ≤ st.matchPos
  positionEnd : st.matchPos ≤ old.length

/-- Both extensions fit between the last match and the new one and do not overlap;
at the end of the new file there is none backwards. -/
theorem computeLength_bounds {st : DiffState} {lenFront lenBack : Int}
    (inside : st.Inside new old) (found : computeLength new old st = some (lenFront, lenBack)) :
    0 ≤ lenFront ∧ 0 ≤ lenBack ∧ st.lastScan + lenFront ≤ st.currentOffset - lenBack ∧
      st.lastPos + lenFront ≤ old.length ∧ lenBack ≤ st.matchPos ∧
      (st.currentOffset = new.length → lenBack = 0) := by
  simp only [computeLength, Option.bind_eq_bind, Option.bind_eq_some_iff] at found
  obtain ⟨lengthFront, front, lengthBack, back, found⟩ := found
  obtain ⟨frontLow, frontNew, frontOld⟩ := extendFront_bounds (Int.le_refl 0) (Int.le_refl 0)
    (by simpa using inside.scanned) (by simpa using inside.posEnd) front
  have backBounds : 0 ≤ lengthBack ∧ st.lastScan + lengthBack ≤ st.currentOffset ∧
      lengthBack ≤ st.matchPos ∧ (st.currentOffset = new.length → lengthBack = 0) := by
    split at back
    · rename_i more
      obtain ⟨low, inNew, inOld⟩ := extendBack_bounds (Int.le_refl 0) (Int.le_refl 1)
        (by simpa using inside.scanned) inside.position back
      exact ⟨low, inNew, inOld, fun atEnd => absurd more (by omega)⟩
    · cases back
      exact ⟨Int.le_refl 0, by simpa using inside.scanned, inside.position, fun _ => rfl⟩
  obtain ⟨backLow, backNew, backOld, backEnd⟩ := backBounds
  split at found
  · rename_i overlapping
    obtain ⟨lens, split, found⟩ := Option.bind_eq_some_iff.mp found
    obtain ⟨lensLow, lensHigh⟩ := splitOverlap_bounds (Int.le_refl 0) (by omega) (Int.le_refl 0) split
    cases found
    refine ⟨?_, ?_, ?_, ?_, ?_, ?_⟩
    · omega
    · omega
    · omega
    · omega
    · omega
    · intro atEnd
      have none := backEnd atEnd
      omega
  · rename_i apart
    cases found
    exact ⟨frontLow, backLow, by omega, frontOld, backOld, backEnd⟩

/-- Step lemma: a saved triple is a tile, and the offsets behind it are inside. -/
theorem saveControl_tiles {st : DiffState} {lenFront lenBack : Int} {rest : List DiffControl}
    (inside : st.Inside new old) (before : st.lastScan < new.length)
    (found : computeLength new old st = some (lenFront, lenBack))
    (tiles : Tiles new old (saveControl st lenFront lenBack).2.lastScan
      (saveControl st lenFront lenBack).2.lastPos rest) :
    Tiles new old st.lastScan st.lastPos ((saveControl st lenFront lenBack).1 :: rest) := by
  obtain ⟨frontLow, backLow, apart, inOld, backOld, _⟩ := computeLength_bounds inside found
  obtain ⟨scan, scanned, offsetEnd, pos, posEnd, position, positionEnd⟩ := inside
  simp only [saveControl] at tiles ⊢
  apply Tiles.step
  · rfl
  · rfl
  · rfl
  · exact before
  · exact pos
  · exact frontLow
  · simp only
    omega
  · exact inOld
  · simp only
    omega
  · simp only
    omega
  · convert tiles using 1
    · simp only
      ring
    · simp only
      ring

theorem saveControl_inside {st : DiffState} {lenFront lenBack : Int}
    (inside : st.Inside new old)
    (found : computeLength new old st = some (lenFront, lenBack)) :
    (saveControl st lenFront lenBack).2.Inside new old := by
  obtain ⟨frontLow, backLow, apart, inOld, backOld, _⟩ := computeLength_bounds inside found
  obtain ⟨scan, scanned, offsetEnd, pos, posEnd, position, positionEnd⟩ := inside
  constructor
  · simp only [saveControl]
    omega
  · simp only [saveControl]
    omega
  · exact offsetEnd
  · simp only [saveControl]
    omega
  · simp only [saveControl]
    omega
  · exact position
  · exact positionEnd

theorem computeOldScore_inside {st : DiffState} {matchLen : Int} {scored : Scored}
    (inside : st.Inside new old) (lengthLow : 0 ≤ matchLen)
    (matchEnd : st.currentOffset + matchLen ≤ new.length)
    (found : computeOldScore suffixArray new old st matchLen = some scored) :
    DiffState.Inside new old
        { st with currentOffset := scored.currentOffset, matchPos := scored.matchPos } ∧
      0 ≤ scored.matchLen ∧
      (scored.currentOffset < new.length →
        scored.currentOffset + scored.matchLen ≤ new.length) := by
  obtain ⟨scan, scanned, offsetEnd, pos, posEnd, position, positionEnd⟩ := inside
  simp only [computeOldScore] at found
  obtain ⟨scoredInside, forwards, inTime⟩ := scoreLoop_inside (by
    constructor
    · simp only
      omega
    · exact matchEnd
    · exact position
    · exact positionEnd
    · exact lengthLow) found
  simp only at forwards
  refine ⟨?_, scoredInside.length, inTime⟩
  constructor
  · exact scan
  · simp only
    omega
  · exact scoredInside.offsetEnd
  · exact pos
  · exact posEnd
  · exact scoredInside.position
  · exact scoredInside.positionEnd

/-- Run lemma, by induction on the turns that are left. -/
theorem ctrlLoop_tiles {fuel : Nat} {st : DiffState} {matchLen : Int} {controls : List DiffControl}
    (inside : st.Inside new old) (lengthLow : 0 ≤ matchLen)
    (matchEnd : st.currentOffset < new.length → st.currentOffset + matchLen ≤ new.length)
    (atEnd : st.currentOffset = new.length → st.lastScan = new.length)
    (found : ctrlLoop suffixArray new old fuel st matchLen = some controls) :
    Tiles new old st.lastScan st.lastPos controls := by
  induction fuel generalizing st matchLen controls with
  | zero => cases found
  | succ fuel ih =>
      unfold ctrlLoop at found
      split at found
      · rename_i more
        simp only [Option.bind_eq_bind] at found
        obtain ⟨scored, score, found⟩ := Option.bind_eq_some_iff.mp found
        obtain ⟨nextInside, nextLow, nextEnd⟩ :=
          computeOldScore_inside inside lengthLow (matchEnd more) score
        split at found
        · rename_i continued
          have tiles := ih nextInside nextLow nextEnd (fun ended => absurd ended continued.2) found
          exact tiles
        · obtain ⟨⟨lenFront, lenBack⟩, lengths, found⟩ := Option.bind_eq_some_iff.mp found
          obtain ⟨rest, restFound, found⟩ := Option.bind_eq_some_iff.mp found
          cases found
          have before : st.lastScan < new.length := Int.lt_of_le_of_lt inside.scanned more
          apply saveControl_tiles nextInside before lengths
          apply ih (saveControl_inside nextInside lengths) nextLow nextEnd
          · intro ended
            have noBack : lenBack = 0 := (computeLength_bounds nextInside lengths).2.2.2.2.2 ended
            simp only [saveControl] at ended ⊢
            omega
          · exact restFound
      · rename_i done
        cases found
        have ended : st.currentOffset = new.length :=
          Int.le_antisymm inside.offsetEnd (Int.not_lt.mp done)
        rw [atEnd ended]
        exact Tiles.done st.lastPos

/-- Whatever the suffix array holds, the triples tile the new file. -/
theorem getCtrlDatas_tiles {controls : List DiffControl}
    (found : getCtrlDatas suffixArray new old = some controls) : Tiles new old 0 0 controls := by
  have start : DiffState.Inside new old
      { matchPos := 0, currentOffset := 0, lastOffset := 0, lastScan := 0, lastPos := 0 } := by
    constructor <;> simp
  exact ctrlLoop_tiles start (Int.le_refl 0) (fun more => by simp)
    (fun ended => ended) found

end Updater.DiffPatch
