import Updater.DiffPatch.BlocksTiling
import Updater.DiffPatch.MatchSearch
import Updater.DiffPatch.SuffixSorted

/-! `MakePatch` comes to an end for every two files, and touches no byte outside them. -/

set_option autoImplicit false

namespace Updater.DiffPatch

open Updater.Base

theorem getAt_inside {α : Type} {array : List α} {index : Int} (low : 0 ≤ index)
    (high : index < array.length) : ∃ value, getAt array index = some value := by
  have inside : index.toNat < array.length := by omega
  refine ⟨array[index.toNat], ?_⟩
  rw [getAt, if_neg (Int.not_lt.mpr low), List.getElem?_eq_getElem inside]

theorem exists_mapM {α β : Type} {read : α → Option β} {items : List α}
    (all : ∀ item ∈ items, ∃ value, read item = some value) :
    ∃ values, items.mapM read = some values := by
  induction items with
  | nil => exact ⟨[], rfl⟩
  | cons item items ih =>
      obtain ⟨value, found⟩ := all item List.mem_cons_self
      obtain ⟨values, rest⟩ := ih fun other member => all other (List.mem_cons_of_mem _ member)
      refine ⟨value :: values, ?_⟩
      rw [List.mapM_cons, found, rest]
      rfl

variable {suffixArray : List Int} {new old : Bytes} {st : DiffState}

section Score

theorem sameByte_total {oldIndex newIndex : Int} (oldLow : 0 ≤ oldIndex) (newLow : 0 ≤ newIndex)
    (newHigh : newIndex < new.length) : ∃ same, sameByte old new oldIndex newIndex = some same := by
  rw [sameByte]
  split
  · rename_i oldHigh
    obtain ⟨oldByte, oldRead⟩ := getAt_inside oldLow oldHigh
    obtain ⟨newByte, newRead⟩ := getAt_inside newLow newHigh
    rw [oldRead, newRead]
    exact ⟨_, rfl⟩
  · exact ⟨false, rfl⟩

/-- Only bytes inside the files are compared, and the score does not fall. -/
theorem addScore_total {lastOffset limit begin oldScore : Int} (low : 0 ≤ begin)
    (lowOld : 0 ≤ begin + lastOffset) (high : limit ≤ new.length) :
    ∃ begin' score, addScore old new lastOffset limit begin oldScore = some (begin', score) ∧
      begin ≤ begin' ∧ oldScore ≤ score := by
  induction begin, oldScore using addScore.induct limit with
  | case1 begin oldScore more ih =>
      obtain ⟨same, compared⟩ := @sameByte_total new old (begin + lastOffset) begin lowOld low
        (by omega)
      obtain ⟨begin', score, counted, forwards, higher⟩ := ih same (by omega) (by omega)
      refine ⟨begin', score, ?_, by omega, ?_⟩
      · rw [addScore, if_pos more, compared]
        exact counted
      · have step : oldScore ≤ if same = true then oldScore + 1 else oldScore := by
          split
          · omega
          · exact Int.le_refl _
        exact Int.le_trans step higher
  | case2 begin oldScore done =>
      refine ⟨begin, oldScore, ?_, Int.le_refl _, Int.le_refl _⟩
      rw [addScore, if_neg done]
      rfl

/-- What `Search` says at a position of the new file. -/
def SearchAt (suffixArray : List Int) (new old : Bytes) (offset matchLen : Int) : Prop :=
  ∃ length position : Nat, matchLen = length ∧
    SuffixArray.search suffixArray (new.drop offset.toNat) old 0 old.length = some (length, position)

theorem search_total (isSorted : IsSuffixArray old suffixArray) (new : Bytes) :
    ∃ length position, SuffixArray.search suffixArray new old 0 old.length =
      some (length, position) ∧ length ≤ new.length := by
  obtain ⟨position, -, found, -⟩ :=
    @search_eq_bisect old new suffixArray isSorted 0 old.length (Nat.zero_le _) (Nat.le_refl _) _ _ rfl
  exact ⟨_, position, found, matchLength_le _ _⟩

/-- The offsets at which the loop of `ComputeOldScore` compares bytes. -/
structure Compares (lastOffset begin : Int) (scored : Scored) : Prop where
  offset : 0 ≤ scored.currentOffset
  offsetOld : 0 ≤ scored.currentOffset + lastOffset
  begin_ : 0 ≤ begin
  beginOld : 0 ≤ begin + lastOffset

theorem scoreLoop_total (isSorted : IsSuffixArray old suffixArray) {lastOffset begin : Int}
    {scored : Scored} (compares : Compares lastOffset begin scored) :
    ∃ result, scoreLoop suffixArray new old lastOffset begin scored = some result ∧
      scored.currentOffset ≤ result.currentOffset ∧
      (result.currentOffset < new.length →
        SearchAt suffixArray new old result.currentOffset result.matchLen) ∧
      (0 ≤ scored.oldScore → SearchAt suffixArray new old scored.currentOffset 0 →
        scored.currentOffset < new.length → scored.currentOffset < result.currentOffset) := by
  induction begin, scored using scoreLoop.induct new with
  | case1 begin scored more ih =>
      obtain ⟨length, position, searched, short⟩ :=
        search_total isSorted (new.drop scored.currentOffset.toNat)
      have offset := compares.offset
      have offsetOld := compares.offsetOld
      rw [List.length_drop] at short
      obtain ⟨begin', oldScore, counted, forwards, higher⟩ :=
        @addScore_total new old lastOffset (scored.currentOffset + length) begin scored.oldScore
          compares.begin_ compares.beginOld (by omega)
      by_cases found : ((length : Int) = oldScore ∧ length ≠ 0) ∨ (length : Int) > oldScore + blockScore
      · refine ⟨{ scored with matchPos := position, oldScore := oldScore, matchLen := length }, ?_,
          Int.le_refl _, fun _ => ⟨length, position, rfl, searched⟩, fun positive at_ _ => ?_⟩
        · rw [scoreLoop, if_pos more]
          simp only [searched, counted, Option.bind_eq_bind, Option.bind_some, if_pos found]
          rfl
        · obtain ⟨length', position', none, same⟩ := at_
          rw [searched, Option.some_inj, Prod.mk.injEq] at same
          have score : blockScore = 8 := rfl
          omega
      · obtain ⟨same, compared⟩ := @sameByte_total new old (scored.currentOffset + lastOffset)
          scored.currentOffset offsetOld offset more
        obtain ⟨result, looped, later, result_, -⟩ := ih length position begin' oldScore same
          ⟨by simp only; omega, by simp only; omega, by have := compares.begin_; omega,
            by have := compares.beginOld; omega⟩
        simp only at later
        refine ⟨result, ?_, by omega, result_, fun _ _ _ => by omega⟩
        rw [scoreLoop, if_pos more]
        simp only [searched, counted, compared, Option.bind_eq_bind, Option.bind_some, if_neg found]
        exact looped
  | case2 begin scored done =>
      refine ⟨scored, ?_, Int.le_refl _, fun more => absurd more done, fun _ _ more =>
        absurd more done⟩
      rw [scoreLoop, if_neg done]
      rfl

end Score

section Length

theorem extendFront_total {i s tmp lengthFront : Int} (inside : st.Inside new old) (low : 0 ≤ i) :
    ∃ result, extendFront new old st i s tmp lengthFront = some result := by
  have scan := inside.scan
  have pos := inside.pos
  have offsetEnd := inside.offsetEnd
  induction i, s, tmp, lengthFront using extendFront.induct old st with
  | case1 i s tmp lengthFront more taken ignored =>
      obtain ⟨moreNew, moreOld⟩ := id more
      obtain ⟨oldByte, oldRead⟩ := getAt_inside (by omega : 0 ≤ st.lastPos + i) moreOld
      obtain ⟨newByte, newRead⟩ := @getAt_inside UInt8 new (st.lastScan + i) (by omega) (by omega)
      have taken := taken oldByte newByte
      have ignored := ignored oldByte newByte
      simp only [dite_eq_ite] at taken ignored
      rw [extendFront, if_pos more, oldRead, newRead]
      simp only [Option.bind_eq_bind, Option.bind_some]
      generalize (if oldByte = newByte then s + 1 else s) = score at taken ignored ⊢
      split
      · exact taken (by omega)
      · exact ignored (by omega)
  | case2 i s tmp lengthFront done =>
      refine ⟨lengthFront, ?_⟩
      rw [extendFront, if_neg done]
      rfl

theorem extendBack_total {i s tmp lengthBack : Int} (inside : st.Inside new old) (next : 1 ≤ i) :
    ∃ result, extendBack new old st i s tmp lengthBack = some result := by
  have scan := inside.scan
  have positionEnd := inside.positionEnd
  have offsetEnd := inside.offsetEnd
  induction i, s, tmp, lengthBack using extendBack.induct st with
  | case1 i s tmp lengthBack more taken ignored =>
      obtain ⟨moreNew, moreOld⟩ := id more
      obtain ⟨oldByte, oldRead⟩ := @getAt_inside UInt8 old (st.matchPos - i) (by omega) (by omega)
      obtain ⟨newByte, newRead⟩ := @getAt_inside UInt8 new (st.currentOffset - i) (by omega) (by omega)
      have taken := taken oldByte newByte
      have ignored := ignored oldByte newByte
      simp only [dite_eq_ite] at taken ignored
      rw [extendBack, if_pos more, oldRead, newRead]
      simp only [Option.bind_eq_bind, Option.bind_some]
      generalize (if oldByte = newByte then s + 1 else s) = score at taken ignored ⊢
      split
      · exact taken (by omega)
      · exact ignored (by omega)
  | case2 i s tmp lengthBack done =>
      refine ⟨lengthBack, ?_⟩
      rw [extendBack, if_neg done]
      rfl

/-- The overlap of the two extensions is inside both files, where each of them reads it. -/
structure OverlapInside (new old : Bytes) (st : DiffState) (lengthFront lengthBack overlap : Int) :
    Prop where
  frontNew : 0 ≤ st.lastScan + lengthFront - overlap ∧ st.lastScan + lengthFront ≤ new.length
  frontOld : 0 ≤ st.lastPos + lengthFront - overlap ∧ st.lastPos + lengthFront ≤ old.length
  backNew : 0 ≤ st.currentOffset - lengthBack ∧
    st.currentOffset - lengthBack + overlap ≤ new.length
  backOld : 0 ≤ st.matchPos - lengthBack ∧ st.matchPos - lengthBack + overlap ≤ old.length

theorem splitOverlap_total {lengthFront lengthBack overlap i s tmp lens : Int}
    (inside : OverlapInside new old st lengthFront lengthBack overlap) (low : 0 ≤ i) :
    ∃ result, splitOverlap new old st lengthFront lengthBack overlap i s tmp lens = some result := by
  obtain ⟨frontNew, frontOld, backNew, backOld⟩ := id inside
  induction i, s, tmp, lens using splitOverlap.induct overlap with
  | case1 i s tmp lens more taken ignored =>
      obtain ⟨first, firstRead⟩ := @getAt_inside UInt8 new
        (st.lastScan + lengthFront - overlap + i) (by omega) (by omega)
      obtain ⟨second, secondRead⟩ := @getAt_inside UInt8 old
        (st.lastPos + lengthFront - overlap + i) (by omega) (by omega)
      obtain ⟨third, thirdRead⟩ := @getAt_inside UInt8 new
        (st.currentOffset - lengthBack + i) (by omega) (by omega)
      obtain ⟨fourth, fourthRead⟩ := @getAt_inside UInt8 old
        (st.matchPos - lengthBack + i) (by omega) (by omega)
      have taken := taken first second third fourth
      have ignored := ignored first second third fourth
      simp only [dite_eq_ite] at taken ignored
      rw [splitOverlap, if_pos more, firstRead, secondRead, thirdRead, fourthRead]
      simp only [Option.bind_eq_bind, Option.bind_some]
      generalize (if first = second then s + 1 else s) = front at taken ignored ⊢
      generalize (if third = fourth then front - 1 else front) = score at taken ignored ⊢
      split
      · exact taken (by omega)
      · exact ignored (by omega)
  | case2 i s tmp lens done =>
      refine ⟨lens, ?_⟩
      rw [splitOverlap, if_neg done]
      rfl

theorem computeLength_total (inside : st.Inside new old) :
    ∃ lenFront lenBack, computeLength new old st = some (lenFront, lenBack) := by
  obtain ⟨lengthFront, front⟩ := @extendFront_total new old st 0 0 0 0 inside (Int.le_refl 0)
  obtain ⟨frontLow, frontNew, frontOld⟩ := extendFront_bounds (Int.le_refl 0) (Int.le_refl 0)
    (by simpa using inside.scanned) (by simpa using inside.posEnd) front
  have back : ∃ lengthBack, (if st.currentOffset < new.length then
      extendBack new old st 1 0 0 0 else pure 0) = some lengthBack ∧
      0 ≤ lengthBack ∧ st.lastScan + lengthBack ≤ st.currentOffset ∧ lengthBack ≤ st.matchPos := by
    split
    · obtain ⟨lengthBack, back⟩ := @extendBack_total new old st 1 0 0 0 inside (Int.le_refl 1)
      exact ⟨lengthBack, back, extendBack_bounds (Int.le_refl 0) (Int.le_refl 1)
        (by simpa using inside.scanned) inside.position back⟩
    · exact ⟨0, rfl, Int.le_refl 0, by simpa using inside.scanned, inside.position⟩
  obtain ⟨lengthBack, back, backLow, backNew, backOld⟩ := back
  rw [computeLength, front, back]
  simp only [Option.bind_eq_bind, Option.bind_some]
  split
  · rename_i overlapping
    obtain ⟨scan, scanned, offsetEnd, pos, posEnd, position, positionEnd⟩ := inside
    obtain ⟨lens, split⟩ := @splitOverlap_total new old st lengthFront lengthBack
      (st.lastScan + lengthFront - (st.currentOffset - lengthBack)) 0 0 0 0
      ⟨by omega, by omega, by omega, by omega⟩ (Int.le_refl 0)
    rw [split]
    exact ⟨_, _, rfl⟩
  · exact ⟨_, _, rfl⟩

end Length

/-- Run lemma, by induction on the turns that are left: each one but the first moves on. -/
theorem ctrlLoop_total (isSorted : IsSuffixArray old suffixArray) :
    ∀ (fuel : Nat) (st : DiffState) (matchLen : Int), st.Inside new old → 0 ≤ matchLen →
      (st.currentOffset < new.length → st.currentOffset + matchLen ≤ new.length) →
      0 ≤ st.currentOffset + st.lastOffset →
      (st.currentOffset < new.length → SearchAt suffixArray new old st.currentOffset matchLen) ∧
          new.length < st.currentOffset + fuel ∨ new.length + 1 < st.currentOffset + fuel →
      ∃ controls, ctrlLoop suffixArray new old fuel st matchLen = some controls := by
  intro fuel
  induction fuel with
  | zero =>
      intro st matchLen inside _ _ _ enough
      have := inside.offsetEnd
      omega
  | succ fuel hypothesis =>
      intro st matchLen inside lengthLow matchEnd offsetOld enough
      rw [ctrlLoop]
      by_cases more : st.currentOffset < new.length
      · rw [if_pos more]
        have low := inside.scan
        have scanned := inside.scanned
        obtain ⟨scored, score, forwards, found, moves⟩ :=
          @scoreLoop_total suffixArray new old isSorted st.lastOffset (st.currentOffset + matchLen)
            { currentOffset := st.currentOffset + matchLen, matchPos := st.matchPos, oldScore := 0,
              matchLen := matchLen }
            ⟨by simp only; omega, by simp only; omega, by omega, by omega⟩
        have scored_ : computeOldScore suffixArray new old st matchLen = some scored := score
        obtain ⟨nextInside, nextLow, nextEnd⟩ :=
          computeOldScore_inside inside lengthLow (matchEnd more) scored_
        simp only at forwards moves
        have next : (scored.currentOffset < new.length →
            SearchAt suffixArray new old scored.currentOffset scored.matchLen) ∧
            new.length < scored.currentOffset + fuel := by
          refine ⟨found, ?_⟩
          have late := nextInside.offsetEnd
          simp only at late
          rcases enough with ⟨at_, enough⟩ | enough
          · by_cases none : matchLen = 0
            · subst none
              rw [Int.add_zero] at moves
              have := moves (Int.le_refl 0) (at_ more) more
              omega
            · omega
          · omega
        rw [scored_]
        simp only [Option.bind_eq_bind, Option.bind_some]
        by_cases continued : scored.matchLen = scored.oldScore ∧
            scored.currentOffset ≠ (new.length : Int)
        · rw [if_pos continued]
          exact hypothesis _ _ nextInside nextLow nextEnd (by simp only; omega) (.inl next)
        · rw [if_neg continued]
          obtain ⟨lenFront, lenBack, lengths⟩ := computeLength_total nextInside
          have position := nextInside.position
          obtain ⟨rest, restFound⟩ := hypothesis
            (saveControl { st with
              currentOffset := scored.currentOffset, matchPos := scored.matchPos } lenFront lenBack).2
            scored.matchLen (saveControl_inside nextInside lengths) nextLow nextEnd
            (by simp only [saveControl]; simp only at position; omega) (.inl next)
          rw [lengths]
          simp only [Option.bind_some, restFound]
          exact ⟨_, rfl⟩
      · rw [if_neg more]
        exact ⟨[], rfl⟩

theorem getCtrlDatas_total (isSorted : IsSuffixArray old suffixArray) (new : Bytes) :
    ∃ controls, getCtrlDatas suffixArray new old = some controls := by
  refine ctrlLoop_total isSorted _ _ _ ?_ (Int.le_refl 0) (fun more => ?_) (Int.le_refl 0) (.inr ?_)
  · constructor <;> simp
  · simp
  · simp only
    omega

/-- The triples name bytes of both files only. -/
theorem Tiles.sections {scan pos : Int} {controls : List DiffControl}
    (tiles : Tiles new old scan pos controls) (low : 0 ≤ scan) :
    ∀ control ∈ controls, (∃ data, diffBytes new old control = some data) ∧
      ∃ data, extraBytes new control = some data := by
  induction tiles with
  | done pos => exact fun control member => by cases member
  | step diffNewStart diffOldStart extraNewStart before oldStart diffLength extraLength inOld inNew
      increment tiles ih =>
      rename_i scan pos first rest
      intro control member
      rcases List.mem_cons.mp member with rfl | later
      · refine ⟨exists_mapM fun index within => ?_, ?_⟩
        · have short := List.mem_range.mp within
          obtain ⟨newByte, newRead⟩ := @getAt_inside UInt8 new (control.diffNewStart + index)
            (by omega) (by omega)
          obtain ⟨oldByte, oldRead⟩ := @getAt_inside UInt8 old (control.diffOldStart + index)
            (by omega) (by omega)
          rw [newRead, oldRead]
          exact ⟨_, rfl⟩
        · rw [extraBytes]
          split
          · exact ⟨_, rfl⟩
          · rw [if_pos ⟨by omega, by omega⟩]
            exact ⟨_, rfl⟩
      · exact ih (by omega) control later

end Updater.DiffPatch
