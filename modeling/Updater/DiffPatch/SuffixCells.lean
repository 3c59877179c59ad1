import Updater.Base.Rearrangement
import Updater.DiffPatch.SuffixArray

/-! The arrays of `SuffixArray` by their entries, and what the loops that move entries do to
them. -/

set_option autoImplicit false

namespace Updater.DiffPatch

open Updater.Base

section Access

variable {array : List Int} {p q : Nat} {value : Int}

theorem getAt_natCast (inside : p < array.length) :
    getAt array (p : Int) = some (array.getD p 0) := by
  rw [getAt, if_neg (by omega), Int.toNat_natCast, List.getD_eq_getElem?_getD,
    List.getElem?_eq_getElem inside, Option.getD_some]

theorem setAt_natCast (inside : p < array.length) (value : Int) :
    setAt array (p : Int) value = some (array.set p value) := by
  rw [setAt, if_pos ⟨Int.natCast_nonneg p, by rwa [Int.toNat_natCast]⟩, Int.toNat_natCast]

theorem getD_set (inside : p < array.length) (value : Int) (q : Nat) :
    (array.set p value).getD q 0 = if q = p then value else array.getD q 0 := by
  rw [List.getD_eq_getElem?_getD, List.getD_eq_getElem?_getD, List.getElem?_set]
  by_cases same : p = q
  · rw [if_pos same, if_pos inside, if_pos same.symm, Option.getD_some]
  · rw [if_neg same, if_neg (Ne.symm same)]

theorem swapAt_natCast (first : p < array.length) (second : q < array.length) :
    ∃ array', swapAt array p q = some array' ∧ array'.length = array.length ∧
      ∀ r, array'.getD r 0 = array.getD (Equiv.swap p q r) 0 := by
  have length : q < (array.set p (array.getD q 0)).length := by rwa [List.length_set]
  refine ⟨(array.set p (array.getD q 0)).set q (array.getD p 0), ?_, ?_, fun r => ?_⟩
  · rw [swapAt, getAt_natCast first, getAt_natCast second]
    exact (congrArg (Option.bind · _) (setAt_natCast first _)).trans (setAt_natCast length _)
  · rw [List.length_set, List.length_set]
  · rw [getD_set length, getD_set first, Equiv.swap_apply_def]
    split
    · rename_i same
      by_cases equal : r = p
      · rw [if_pos equal, ← same, equal]
      · rw [if_neg equal]
    · rename_i other
      by_cases equal : r = p
      · rw [if_pos equal, if_pos equal]
      · rw [if_neg equal, if_neg equal]

end Access

namespace SortState

variable {st st' st'' : SortState} {count h : Nat}

def entry (st : SortState) (p : Nat) : Int :=
  st.suffixArray.getD p 0

/-- The group of a suffix: the last position that it may take. -/
def place (st : SortState) (suffix : Nat) : Int :=
  st.suffixArrayTemp.getD suffix 0

/-- The group of the suffix behind the first `h` bytes of the one that stands in an entry. -/
def keyOf (st : SortState) (h : Nat) (value : Int) : Int :=
  st.place (value.toNat + h)

structure Sized (count : Nat) (st : SortState) : Prop where
  entries : st.suffixArray.length = count
  places : st.suffixArrayTemp.length = count

/-- An entry is a suffix with `h` bytes at least. -/
def Reads (count h : Nat) (value : Int) : Prop :=
  0 ≤ value ∧ value.toNat + h < count

theorem rank_eq {p : Nat} (sized : st.Sized count) (inside : p < count)
    (reads : Reads count h (st.entry p)) :
    rank st (h : Int) (p : Int) = some (st.keyOf h (st.entry p)) := by
  have position : p < st.suffixArray.length := sized.entries.symm ▸ inside
  have suffix : st.entry p + (h : Int) = (((st.entry p).toNat + h : Nat) : Int) := by
    have := reads.1
    omega
  have behind : (st.entry p).toNat + h < st.suffixArrayTemp.length := sized.places.symm ▸ reads.2
  rw [rank, getAt_natCast position, Option.bind_eq_bind, Option.bind_some,
    show st.suffixArray.getD p 0 = st.entry p from rfl, suffix, getAt_natCast behind]
  rfl

/-- Only entries from `start` to before `finish` are moved, among each other. -/
structure Moved (start finish : Nat) (st st' : SortState) : Prop where
  places : st'.suffixArrayTemp = st.suffixArrayTemp
  length : st'.suffixArray.length = st.suffixArray.length
  entries : Rearranged start finish st.entry st'.entry

namespace Moved

variable {start finish : Nat}

theorem refl (start finish : Nat) (st : SortState) : Moved start finish st st :=
  ⟨rfl, rfl, .refl _ _ _⟩

theorem trans (first : Moved start finish st st') (second : Moved start finish st' st'') :
    Moved start finish st st'' :=
  ⟨second.places.trans first.places, second.length.trans first.length,
    first.entries.trans second.entries⟩

theorem widen {start' finish' : Nat} (moved : Moved start finish st st') (low : start' ≤ start)
    (high : finish ≤ finish') : Moved start' finish' st st' :=
  ⟨moved.places, moved.length, moved.entries.widen low high⟩

theorem sized (moved : Moved start finish st st') (sized : st.Sized count) : st'.Sized count :=
  ⟨moved.length.trans sized.entries, (congrArg List.length moved.places).trans sized.places⟩

theorem place (moved : Moved start finish st st') : st'.place = st.place :=
  funext fun suffix => congrArg (List.getD · suffix 0) moved.places

theorem keyOf (moved : Moved start finish st st') (h : Nat) : st'.keyOf h = st.keyOf h :=
  funext fun _ => congrFun moved.place _

end Moved

theorem swap_moved {start finish i j : Nat} (sized : st.Sized count) (within : finish ≤ count)
    (first : i ∈ Set.Ico start finish) (second : j ∈ Set.Ico start finish) :
    ∃ array, swapAt st.suffixArray i j = some array ∧
      Moved start finish st { st with suffixArray := array } ∧
      ∀ p, SortState.entry { st with suffixArray := array } p = st.entry (Equiv.swap i j p) := by
  have inside : i < st.suffixArray.length :=
    sized.entries.symm ▸ Nat.lt_of_lt_of_le first.2 within
  have inside' : j < st.suffixArray.length :=
    sized.entries.symm ▸ Nat.lt_of_lt_of_le second.2 within
  obtain ⟨array, swapped, length, entries⟩ := swapAt_natCast inside inside'
  exact ⟨array, swapped, ⟨rfl, length, .swap first second entries⟩, entries⟩

/-- Among the entries from `k` to before `k + i`, the first `j` have the least key, `x`. -/
structure Collected (st : SortState) (h k i j : Nat) (x : Int) : Prop where
  few : j ≤ i
  least : ∀ p ∈ Set.Ico k (k + j), st.keyOf h (st.entry p) = x
  above : ∀ p ∈ Set.Ico (k + j) (k + i), x < st.keyOf h (st.entry p)

namespace Collected

variable {st : SortState} {h k i j : Nat} {x : Int}

/-- An entry below all of them is about to be the only one. -/
theorem reset {value : Int} (collected : Collected st h k i j x) (below : value < x) :
    Collected st h k i 0 value := by
  refine ⟨Nat.zero_le i, fun p inside => ?_, fun p inside => ?_⟩
  · exact absurd inside.2 (Nat.not_lt.mpr inside.1)
  · by_cases early : p < k + j
    · exact (collected.least p ⟨inside.1, early⟩).symm ▸ below
    · exact Int.lt_trans below (collected.above p ⟨Nat.not_lt.mp early, inside.2⟩)

theorem skip (collected : Collected st h k i j x)
    (larger : x < st.keyOf h (st.entry (k + i))) : Collected st h k (i + 1) j x := by
  refine ⟨Nat.le_succ_of_le collected.few, collected.least, fun p inside => ?_⟩
  by_cases last : p = k + i
  · exact last ▸ larger
  · have high := inside.2
    exact collected.above p ⟨inside.1, by omega⟩

/-- One more of the least entries is swapped behind the others. -/
theorem take {array : List Int} (collected : Collected st h k i j x)
    (equal : st.keyOf h (st.entry (k + i)) = x)
    (entries : ∀ p, SortState.entry { st with suffixArray := array } p =
      st.entry (Equiv.swap (k + j) (k + i) p)) :
    Collected { st with suffixArray := array } h k (i + 1) (j + 1) x := by
  have few := collected.few
  have key : ∀ value, SortState.keyOf { st with suffixArray := array } h value =
      st.keyOf h value := fun _ => rfl
  refine ⟨by omega, fun p inside => ?_, fun p inside => ?_⟩
  · obtain ⟨low, high⟩ := inside
    rw [key, entries]
    by_cases last : p = k + j
    · rw [last, Equiv.swap_apply_left, equal]
    · rw [Equiv.swap_apply_of_ne_of_ne last (by omega)]
      exact collected.least p ⟨low, by omega⟩
  · obtain ⟨low, high⟩ := inside
    rw [key, entries]
    by_cases last : p = k + i
    · rw [last, Equiv.swap_apply_right]
      exact collected.above (k + j) ⟨Nat.le_refl _, by omega⟩
    · rw [Equiv.swap_apply_of_ne_of_ne (by omega) last]
      exact collected.above p ⟨by omega, by omega⟩

end Collected

/-- The entries of the least key are collected in front of the others. -/
theorem collectLeast_spec {count h k finish : Nat} (within : finish ≤ count) :
    ∀ (fuel i j : Nat) (x : Int) (st : SortState), st.Sized count →
      (∀ p ∈ Set.Ico k finish, Reads count h (st.entry p)) → 0 < j → k + i ≤ finish →
      finish < k + i + fuel → Collected st h k i j x →
      ∃ (j' : Nat) (x' : Int) (st' : SortState),
        collectLeast h k finish fuel i j x st = some ((j' : Int), st') ∧ 0 < j' ∧
          Moved k finish st st' ∧ Collected st' h k (finish - k) j' x' := by
  intro fuel
  induction fuel with
  | zero =>
      intro i j x st _ _ _ low high
      exact absurd low (by omega)
  | succ fuel hypothesis =>
      intro i j x st sized reads some_ low high collected
      rw [collectLeast]
      by_cases more : k + i < finish
      · have next : ((k : Int) + (i : Int)) = ((k + i : Nat) : Int) := by omega
        have inside : k + i ∈ Set.Ico k finish := ⟨Nat.le_add_right k i, more⟩
        have ranked := rank_eq sized (Nat.lt_of_lt_of_le more within) (reads _ inside)
        rw [if_pos (by omega), next, ranked, Option.bind_eq_bind, Option.bind_some]
        have succ : ((i : Int) + 1) = ((i + 1 : Nat) : Int) := rfl
        -- the entry is the least one so far, for some new collection
        have taking : ∀ (j : Nat) (x : Int), Collected st h k i j x →
            st.keyOf h (st.entry (k + i)) = x → ∃ (j' : Nat) (x' : Int) (st' : SortState),
              ((swapAt st.suffixArray ((k : Int) + j) ((k + i : Nat) : Int)).bind fun array =>
                collectLeast h k finish fuel ((i : Int) + 1) ((j : Int) + 1) x
                  { st with suffixArray := array }) = some ((j' : Int), st') ∧ 0 < j' ∧
              Moved k finish st st' ∧ Collected st' h k (finish - k) j' x' := by
          intro j x collected equal
          have few := collected.few
          obtain ⟨array, swapped, moved, entries⟩ := @swap_moved st count k finish (k + j) (k + i)
            sized within ⟨Nat.le_add_right k j, by omega⟩ inside
          have reads' : ∀ p ∈ Set.Ico k finish,
              Reads count h (SortState.entry { st with suffixArray := array } p) :=
            moved.entries.forall_mem reads
          obtain ⟨j', x', st', done, some_', moved', collected'⟩ :=
            hypothesis (i + 1) (j + 1) x _ (moved.sized sized) reads' (Nat.succ_pos j) (by omega)
              (by omega) (collected.take equal entries)
          refine ⟨j', x', st', ?_, some_', moved.trans moved', collected'⟩
          rw [show ((k : Int) + j) = ((k + j : Nat) : Int) by omega, swapped]
          exact done
        by_cases below : st.keyOf h (st.entry (k + i)) < x
        · simp only [if_pos below, if_true]
          exact taking 0 _ (collected.reset below) rfl
        · simp only [if_neg below]
          by_cases equal : st.keyOf h (st.entry (k + i)) = x
          · rw [if_pos equal]
            exact taking j x collected equal
          · rw [if_neg equal]
            exact hypothesis (i + 1) j x st sized reads some_ (by omega) (by omega)
              (collected.skip (by omega))
      · have end_ : i = finish - k := by omega
        rw [if_neg (by omega)]
        exact ⟨j, x, st, rfl, some_, .refl _ _ _, end_ ▸ collected⟩

/-- The suffixes of the entries from `start` on take the place `value`, all others stay. -/
theorem assignRank_spec {count start : Nat} {value : Int} :
    ∀ (number : Nat) (st : SortState), st.Sized count → start + number ≤ count →
      (∀ p ∈ Set.Ico start (start + number), Reads count 0 (st.entry p)) →
      ∃ st', assignRank start value number st = some st' ∧
        st'.suffixArray = st.suffixArray ∧ st'.Sized count ∧
        (∀ p ∈ Set.Ico start (start + number), st'.place (st.entry p).toNat = value) ∧
        ∀ suffix, (∀ p ∈ Set.Ico start (start + number), (st.entry p).toNat ≠ suffix) →
          st'.place suffix = st.place suffix := by
  intro number
  induction number with
  | zero =>
      intro st sized _ _
      exact ⟨st, rfl, rfl, sized, fun p inside => absurd inside.2 (Nat.not_lt.mpr inside.1),
        fun _ _ => rfl⟩
  | succ number hypothesis =>
      intro st sized within reads
      obtain ⟨st', assigned, entries, sized', own, others⟩ := hypothesis st sized (by omega)
        fun p inside => reads p ⟨inside.1, by have := inside.2; omega⟩
      have last : start + number ∈ Set.Ico start (start + (number + 1)) := ⟨by omega, by omega⟩
      obtain ⟨positive, reach⟩ := reads _ last
      have position : start + number < st'.suffixArray.length := by
        rw [sized'.entries]
        omega
      obtain ⟨target, entry_⟩ := Int.eq_ofNat_of_zero_le positive
      have entry' : st'.suffixArray.getD (start + number) 0 = (target : Int) := by
        rw [entries]
        exact entry_
      rw [entry_, Int.toNat_natCast] at reach
      have inside : target < st'.suffixArrayTemp.length := sized'.places.symm ▸ reach
      have placed := getD_set inside value
      refine ⟨{ st' with suffixArrayTemp := st'.suffixArrayTemp.set target value }, ?_, entries,
        ⟨sized'.entries, ?_⟩, fun p inside => ?_, fun suffix other => ?_⟩
      · rw [assignRank, assigned, Option.bind_eq_bind, Option.bind_some,
          show ((start : Int) + (number : Int)) = ((start + number : Nat) : Int) from rfl,
          getAt_natCast position, entry', Option.bind_eq_bind, Option.bind_some,
          setAt_natCast inside]
        rfl
      · rw [List.length_set, sized'.places]
      · refine (placed _).trans ?_
        split
        · rfl
        · rename_i other
          have early : p ≠ start + number := fun same => other (by rw [same, entry_]; rfl)
          exact own p ⟨inside.1, by have := inside.2; omega⟩
      · have differs : suffix ≠ target := fun same => other _ last (by rw [entry_, same]; rfl)
        refine (placed suffix).trans ((if_neg differs).trans ?_)
        exact others suffix fun p inside =>
          other p ⟨inside.1, by have := inside.2; omega⟩

end SortState

end Updater.DiffPatch
