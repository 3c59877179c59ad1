import Updater.Base.ThreeWay
import Updater.DiffPatch.SuffixCells

/-! The loops of `Split`: the counted keys cut the range in three parts, and the entries are swapped
to theirs. -/

set_option autoImplicit false

namespace Updater.DiffPatch

open Updater.Base

namespace SortState

variable {st st' : SortState} {count h start below equal finish : Nat} {x : Int}

def keyAt (st : SortState) (h p : Nat) : Int :=
  st.keyOf h (st.entry p)

theorem card_filter_Ico_succ (holds : Nat → Prop) [DecidablePred holds] (start number : Nat) :
    ((Finset.Ico start (start + (number + 1))).filter holds).card =
      ((Finset.Ico start (start + number)).filter holds).card +
        if holds (start + number) then 1 else 0 := by
  have parts : Finset.Ico start (start + (number + 1)) =
      insert (start + number) (Finset.Ico start (start + number)) := by
    ext p
    rw [Finset.mem_insert, Finset.mem_Ico, Finset.mem_Ico]
    omega
  have fresh : start + number ∉ (Finset.Ico start (start + number)).filter holds := by
    rw [Finset.mem_filter, Finset.mem_Ico]
    omega
  rw [parts, Finset.filter_insert]
  split
  · rw [Finset.card_insert_of_notMem fresh]
  · rfl

/-- How many keys there are below `x`. -/
def countBelow (st : SortState) (h start finish : Nat) (x : Int) : Nat :=
  ((Finset.Ico start finish).filter fun p => st.keyAt h p < x).card

def countEqual (st : SortState) (h start finish : Nat) (x : Int) : Nat :=
  ((Finset.Ico start finish).filter fun p => st.keyAt h p = x).card

theorem countRanks_spec (sized : st.Sized count) :
    ∀ number : Nat, start + number ≤ count →
      (∀ p ∈ Set.Ico start (start + number), Reads count h (st.entry p)) →
      countRanks h start x number st = some ((st.countBelow h start (start + number) x : Int),
        (st.countEqual h start (start + number) x : Int)) := by
  intro number
  induction number with
  | zero =>
      intro _ _
      rw [countBelow, countEqual, Nat.add_zero, Finset.Ico_self, countRanks]
      rfl
  | succ number hypothesis =>
      intro within reads
      have counted := hypothesis (by omega)
        fun p inside => reads p ⟨inside.1, by have := inside.2; omega⟩
      have ranked := rank_eq sized (by omega : start + number < count)
        (reads _ ⟨by omega, by omega⟩)
      rw [countBelow, countEqual, card_filter_Ico_succ, card_filter_Ico_succ]
      rw [countRanks, counted, Option.bind_eq_bind, Option.bind_some,
        show ((start : Int) + (number : Int)) = ((start + number : Nat) : Int) from rfl, ranked]
      change some _ = some _
      congr 2
      · rw [keyAt]
        split
        · rfl
        · rfl
      · rw [keyAt]
        split
        · rfl
        · rfl

theorem Moved.keyAt (moved : Moved start finish st st') (h : Nat) :
    Rearranged start finish (st.keyAt h) (st'.keyAt h) := by
  obtain ⟨σ, fixed, same⟩ := moved.entries
  refine ⟨σ, fixed, fun p => ?_⟩
  rw [SortState.keyAt, moved.keyOf, same]
  rfl

/-- Moving entries leaves the numbers of keys as they are. -/
theorem Moved.cut (moved : Moved start finish st st')
    (cut : Cut (st.keyAt h) x start below equal finish) :
    Cut (st'.keyAt h) x start below equal finish :=
  ⟨cut.first, cut.second, cut.third,
    ((moved.keyAt h).card_filter (· < x)).trans cut.countBelow,
    ((moved.keyAt h).card_filter (· = x)).trans cut.countEqual⟩

theorem keyAt_swap {array : List Int} {i j : Nat}
    (entries : ∀ p, SortState.entry { st with suffixArray := array } p =
      st.entry (Equiv.swap i j p)) (p : Nat) :
    SortState.keyAt { st with suffixArray := array } h p = st.keyAt h (Equiv.swap i j p) :=
  congrArg (st.keyOf h) (entries p)

variable {i j k : Nat}

/-- A key equal to the pivot is swapped behind the ones of the second part. -/
theorem arranged_swap_equal {array : List Int} (cut : Cut (st.keyAt h) x start below equal finish)
    (arranged : Arranged (st.keyAt h) x start below equal i j k) (low : i < below)
    (room : below + j < equal) (key : st.keyAt h i = x)
    (entries : ∀ p, SortState.entry { st with suffixArray := array } p =
      st.entry (Equiv.swap i (below + j) p)) :
    Arranged (SortState.keyAt { st with suffixArray := array } h) x start below equal i (j + 1)
      k := by
  have third := cut.third
  refine ⟨fun p inside => ?_, fun p inside => ?_, fun p inside => ?_⟩
  · obtain ⟨least, most⟩ := inside
    rw [keyAt_swap entries, Equiv.swap_apply_of_ne_of_ne (by omega) (by omega)]
    exact arranged.low p ⟨least, most⟩
  · obtain ⟨least, most⟩ := inside
    rw [keyAt_swap entries]
    by_cases last : p = below + j
    · rw [last, Equiv.swap_apply_right, key]
    · rw [Equiv.swap_apply_of_ne_of_ne (by omega) last]
      exact arranged.middle p ⟨least, by omega⟩
  · obtain ⟨least, most⟩ := inside
    rw [keyAt_swap entries, Equiv.swap_apply_of_ne_of_ne (by omega) (by omega)]
    exact arranged.high p ⟨least, most⟩

/-- A key above the pivot, which stands before the third part, is swapped into it. -/
theorem arranged_swap_above {array : List Int} {position : Nat}
    (cut : Cut (st.keyAt h) x start below equal finish)
    (arranged : Arranged (st.keyAt h) x start below equal i j k) (before : position < equal)
    (outside : position ∉ Set.Ico start i ∧ position ∉ Set.Ico below (below + j))
    (low : i ≤ below) (middle : below + j ≤ equal) (key : x < st.keyAt h position)
    (entries : ∀ p, SortState.entry { st with suffixArray := array } p =
      st.entry (Equiv.swap position (equal + k) p)) :
    Arranged (SortState.keyAt { st with suffixArray := array } h) x start below equal i j
      (k + 1) := by
  have second := cut.second
  refine ⟨fun p inside => ?_, fun p inside => ?_, fun p inside => ?_⟩
  · have other : p ≠ position := fun same => outside.1 (same ▸ inside)
    obtain ⟨least, most⟩ := id inside
    rw [keyAt_swap entries, Equiv.swap_apply_of_ne_of_ne other (by omega)]
    exact arranged.low p inside
  · have other : p ≠ position := fun same => outside.2 (same ▸ inside)
    obtain ⟨least, most⟩ := id inside
    rw [keyAt_swap entries, Equiv.swap_apply_of_ne_of_ne other (by omega)]
    exact arranged.middle p inside
  · obtain ⟨least, most⟩ := inside
    rw [keyAt_swap entries]
    by_cases last : p = equal + k
    · rw [last, Equiv.swap_apply_right]
      exact key
    · rw [Equiv.swap_apply_of_ne_of_ne (by omega) last]
      exact arranged.high p ⟨least, by omega⟩

/-- The first loop of `Split`: the first part is filled with the keys below the pivot. -/
theorem splitBelow_spec (within : finish ≤ count) :
    ∀ (fuel i j k : Nat) (st : SortState), st.Sized count →
      (∀ p ∈ Set.Ico start finish, Reads count h (st.entry p)) →
      Cut (st.keyAt h) x start below equal finish →
      Arranged (st.keyAt h) x start below equal i j k →
      start ≤ i → i ≤ below → below + j ≤ equal → equal + k ≤ finish →
      finish < i + j + k + fuel →
      ∃ (j' k' : Nat) (st' : SortState),
        splitBelow h x below equal fuel i j k st = some ((j' : Int), (k' : Int), st') ∧
          Moved start finish st st' ∧ Arranged (st'.keyAt h) x start below equal below j' k' ∧
          below + j' ≤ equal ∧ equal + k' ≤ finish := by
  intro fuel
  induction fuel with
  | zero =>
      intro i j k st _ _ _ _ _ high roomEqual roomAbove enough
      exact absurd enough (by omega)
  | succ fuel hypothesis =>
      intro i j k st sized reads cut arranged low high roomEqual roomAbove enough
      have first := cut.first
      have second := cut.second
      have third := cut.third
      rw [splitBelow]
      by_cases more : i < below
      · have inside : i ∈ Set.Ico start finish := ⟨low, by omega⟩
        have ranked := rank_eq sized (Nat.lt_of_lt_of_le inside.2 within) (reads i inside)
        rw [if_pos (by omega), ranked, Option.bind_eq_bind, Option.bind_some]
        change ∃ (j' k' : Nat) (st' : SortState),
          (if st.keyAt h i < x then _ else if st.keyAt h i = x then _ else _) = _ ∧ _
        have notLow : i ∉ Set.Ico start i := fun held => Nat.lt_irrefl i held.2
        have notMiddle : i ∉ Set.Ico below (below + j) := fun held => by
          have := held.1
          omega
        by_cases less : st.keyAt h i < x
        · rw [if_pos less]
          refine hypothesis (i + 1) j k st sized reads cut ⟨fun p held => ?_, arranged.middle,
            arranged.high⟩ (by omega) (by omega) roomEqual roomAbove (by omega)
          by_cases last : p = i
          · exact last ▸ less
          · exact arranged.low p ⟨held.1, by have := held.2; omega⟩
        · rw [if_neg less]
          by_cases same : st.keyAt h i = x
          · rw [if_pos same]
            have room := Cut.room ⟨by omega, by omega⟩ arranged.middle inside same notMiddle
            rw [cut.countEqual] at room
            obtain ⟨array, swapped, moved, entries⟩ := @swap_moved st count start finish i
              (below + j) sized within inside ⟨by omega, by omega⟩
            have reads' : ∀ p ∈ Set.Ico start finish,
                Reads count h (SortState.entry { st with suffixArray := array } p) :=
              moved.entries.forall_mem reads
            obtain ⟨j', k', st', done, moved', rest⟩ := hypothesis i (j + 1) k _
              (moved.sized sized) reads' (moved.cut cut)
              (arranged_swap_equal cut arranged more (by omega) same entries) low high (by omega)
              roomAbove (by omega)
            refine ⟨j', k', st', ?_, moved.trans moved', rest⟩
            rw [show ((below : Int) + j) = ((below + j : Nat) : Int) from rfl, swapped]
            exact done
          · rw [if_neg same]
            have greater : x < st.keyAt h i := by omega
            have notHigh : i ∉ Set.Ico equal (equal + k) := fun held => by
              have := held.1
              omega
            have room := Cut.room ⟨by omega, by omega⟩ arranged.high inside greater notHigh
            rw [cut.countAbove] at room
            obtain ⟨array, swapped, moved, entries⟩ := @swap_moved st count start finish i
              (equal + k) sized within inside ⟨by omega, by omega⟩
            have reads' : ∀ p ∈ Set.Ico start finish,
                Reads count h (SortState.entry { st with suffixArray := array } p) :=
              moved.entries.forall_mem reads
            obtain ⟨j', k', st', done, moved', rest⟩ := hypothesis i j (k + 1) _
              (moved.sized sized) reads' (moved.cut cut)
              (arranged_swap_above cut arranged (by omega) ⟨notLow, notMiddle⟩ high roomEqual
                greater entries) low high roomEqual (by omega) (by omega)
            refine ⟨j', k', st', ?_, moved.trans moved', rest⟩
            rw [show ((equal : Int) + k) = ((equal + k : Nat) : Int) from rfl, swapped]
            exact done
      · have end_ : i = below := by omega
        rw [if_neg (by omega)]
        exact ⟨j, k, st, rfl, .refl _ _ _, end_ ▸ arranged, roomEqual, roomAbove⟩

/-- The second loop: the second part is filled with the keys equal to the pivot. -/
theorem splitEqual_spec (within : finish ≤ count) :
    ∀ (fuel j k : Nat) (st : SortState), st.Sized count →
      (∀ p ∈ Set.Ico start finish, Reads count h (st.entry p)) →
      Cut (st.keyAt h) x start below equal finish →
      Arranged (st.keyAt h) x start below equal below j k →
      below + j ≤ equal → equal + k ≤ finish → finish < below + j + k + fuel →
      ∃ (k' : Nat) (st' : SortState),
        splitEqual h x below equal fuel j k st = some st' ∧ Moved start finish st st' ∧
          Arranged (st'.keyAt h) x start below equal below (equal - below) k' := by
  intro fuel
  induction fuel with
  | zero =>
      intro j k st _ _ _ _ roomEqual roomAbove enough
      exact absurd enough (by omega)
  | succ fuel hypothesis =>
      intro j k st sized reads cut arranged roomEqual roomAbove enough
      have first := cut.first
      have second := cut.second
      have third := cut.third
      rw [splitEqual]
      by_cases more : below + j < equal
      · have inside : below + j ∈ Set.Ico start finish := ⟨by omega, by omega⟩
        have ranked := rank_eq sized (Nat.lt_of_lt_of_le inside.2 within) (reads _ inside)
        have next : ((below : Int) + (j : Int)) = ((below + j : Nat) : Int) := rfl
        have notLow : below + j ∉ Set.Ico start below := fun held => by
          have := held.2
          omega
        have notMiddle : below + j ∉ Set.Ico below (below + j) := fun held =>
          Nat.lt_irrefl _ held.2
        rw [if_pos (by omega), next, ranked, Option.bind_eq_bind, Option.bind_some]
        change ∃ (k' : Nat) (st' : SortState), (if st.keyAt h (below + j) = x then _ else _) = _ ∧ _
        by_cases same : st.keyAt h (below + j) = x
        · rw [if_pos same]
          refine hypothesis (j + 1) k st sized reads cut ⟨arranged.low, fun p held => ?_,
            arranged.high⟩ (by omega) roomAbove (by omega)
          by_cases last : p = below + j
          · exact last ▸ same
          · exact arranged.middle p ⟨held.1, by have := held.2; omega⟩
        · rw [if_neg same]
          -- all keys below the pivot are in the first part
          have notLess : ¬ st.keyAt h (below + j) < x := fun less =>
            notLow (Cut.rest ⟨Nat.le_refl _, by omega⟩ arranged.low cut.countBelow inside less)
          have greater : x < st.keyAt h (below + j) := by omega
          have notHigh : below + j ∉ Set.Ico equal (equal + k) := fun held => by
            have := held.1
            omega
          have room := Cut.room ⟨by omega, by omega⟩ arranged.high inside greater notHigh
          rw [cut.countAbove] at room
          obtain ⟨array, swapped, moved, entries⟩ := @swap_moved st count start finish (below + j)
            (equal + k) sized within inside ⟨by omega, by omega⟩
          have reads' : ∀ p ∈ Set.Ico start finish,
              Reads count h (SortState.entry { st with suffixArray := array } p) :=
            moved.entries.forall_mem reads
          obtain ⟨k', st', done, moved', rest⟩ := hypothesis j (k + 1) _ (moved.sized sized) reads'
            (moved.cut cut) (arranged_swap_above cut arranged more ⟨notLow, notMiddle⟩
              (Nat.le_refl _) roomEqual greater entries) roomEqual (by omega) (by omega)
          refine ⟨k', st', ?_, moved.trans moved', rest⟩
          rw [show ((equal : Int) + k) = ((equal + k : Nat) : Int) from rfl, swapped]
          exact done
      · have end_ : j = equal - below := by omega
        rw [if_neg (by omega)]
        exact ⟨k, st, rfl, .refl _ _ _, end_ ▸ arranged⟩

end SortState

end Updater.DiffPatch
