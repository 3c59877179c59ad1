import Updater.DiffPatch.SuffixBuckets
import Updater.DiffPatch.SuffixRounds

/-! The end of `SuffixArray::Init`: behind the rounds every position is the place of one suffix, and
the array is the inverse of the places. -/

set_option autoImplicit false

namespace Updater.DiffPatch

open Updater.Base

/-- Each index is stored at its place. -/
theorem storeIndices_spec (places : List Int) :
    ∀ (first : Nat) (array : List Int), places.Nodup →
      (∀ place ∈ places, 0 ≤ place ∧ place < array.length) →
      ∃ result, (places.zipIdx first).foldlM (fun suffixArray (place, index) =>
          setAt suffixArray place (index : Int)) array = some result ∧
        result.length = array.length ∧
        (∀ place : Nat, (place : Int) ∉ places → result.getD place 0 = array.getD place 0) ∧
        ∀ (i place : Nat), places[i]? = some (place : Int) →
          result.getD place 0 = ((first + i : Nat) : Int) := by
  induction places with
  | nil =>
      intro first array _ _
      exact ⟨array, rfl, rfl, fun _ _ => rfl, fun i place found => by cases found⟩
  | cons head rest hypothesis =>
      intro first array distinct bounded
      obtain ⟨low, high⟩ := bounded head List.mem_cons_self
      obtain ⟨place, rfl⟩ := Int.eq_ofNat_of_zero_le low
      obtain ⟨fresh, distinct⟩ := List.nodup_cons.mp distinct
      have inside : place < array.length := Int.ofNat_lt.mp high
      have written := setAt_natCast inside ((first : Nat) : Int)
      obtain ⟨result, run, length, kept, stored⟩ :=
        hypothesis (first + 1) (array.set place (first : Int)) distinct (fun other held => by
          rw [List.length_set]
          exact bounded other (List.mem_cons_of_mem _ held))
      refine ⟨result, ?_, length.trans List.length_set, fun other absent => ?_,
        fun i other found => ?_⟩
      · rw [List.zipIdx_cons, List.foldlM_cons]
        exact (congrArg (Option.bind · _) written).trans run
      · have differs : other ≠ place := fun same =>
          absent (same ▸ List.mem_cons_self)
        rw [kept other fun held => absent (List.mem_cons_of_mem _ held), getD_set inside,
          if_neg differs]
      · cases i with
        | zero =>
            rw [List.getElem?_cons_zero, Option.some_inj, Int.ofNat_inj] at found
            subst found
            rw [kept place fresh, getD_set inside, if_pos rfl]
            rfl
        | succ i =>
            rw [List.getElem?_cons_succ] at found
            rw [stored i other found]
            omega

namespace SortState

variable {old : Bytes} {h : Nat} {st : SortState} {result : List Int}

/-- The array behind the last loop: each suffix is at its place. -/
structure Stored (old : Bytes) (st : SortState) (result : List Int) : Prop where
  entries : result.length = old.length + 1
  stored {a p : Nat} : a ≤ old.length → st.place a = (p : Int) → result.getD p 0 = (a : Int)

/-- The suffixes are at different places. -/
theorem Sorting.places_injective (sorting : Sorting old h st)
    (single : ∀ p, p < old.length + 1 → Single (old.length + 1) st.place p) {a b : Nat}
    (inside : a ≤ old.length) (inside' : b ≤ old.length) (same : st.place a = st.place b) :
    a = b := by
  obtain ⟨low, high⟩ := sorting.bounded inside
  obtain ⟨p, place⟩ := Int.eq_ofNat_of_zero_le low
  obtain ⟨c, -, only⟩ := single p (by omega)
  have first := (only a (by omega)).mp place
  have second := (only b (by omega)).mp (same ▸ place)
  exact first.trans second.symm

theorem getElem_temp {a : Nat} (inside : a < st.suffixArrayTemp.length) :
    st.suffixArrayTemp[a] = st.place a := by
  rw [place, List.getD_eq_getElem?_getD, List.getElem?_eq_getElem inside, Option.getD_some]

theorem Sorting.storeIndices (sorting : Sorting old h st)
    (single : ∀ p, p < old.length + 1 → Single (old.length + 1) st.place p) :
    ∃ result, st.suffixArrayTemp.zipIdx.foldlM (fun suffixArray (place, index) =>
        setAt suffixArray place (index : Int)) st.suffixArray = some result ∧
      Stored old st result := by
  have places := sorting.sized.places
  have distinct : st.suffixArrayTemp.Nodup := by
    rw [List.nodup_iff_injective_get]
    intro a b same
    rw [List.get_eq_getElem, List.get_eq_getElem, getElem_temp, getElem_temp] at same
    have := a.isLt
    have := b.isLt
    exact Fin.ext (sorting.places_injective single (by omega) (by omega) same)
  have bounded : ∀ place ∈ st.suffixArrayTemp, 0 ≤ place ∧ place < st.suffixArray.length := by
    intro place held
    obtain ⟨a, inside, rfl⟩ := List.getElem_of_mem held
    rw [getElem_temp, sorting.sized.entries]
    have := @Sorting.bounded old h st sorting a (by omega)
    omega
  obtain ⟨result, run, length, -, stored⟩ :=
    storeIndices_spec st.suffixArrayTemp 0 st.suffixArray distinct bounded
  refine ⟨result, run, length.trans sorting.sized.entries, fun {a p} inside place => ?_⟩
  have position : a < st.suffixArrayTemp.length := by omega
  have found := stored a p (by
    rw [List.getElem?_eq_getElem position, getElem_temp, place])
  rw [found, Nat.zero_add]

/-- Places with one suffix each, in the order of the suffixes, give the suffix array. -/
theorem Stored.isSuffixArray (stored : Stored old st result) (orders : Orders old h st.place)
    (single : ∀ p, p < old.length + 1 → Single (old.length + 1) st.place p) :
    IsSuffixArray old result := by
  have named : ∀ {p : Nat} (inside : p < result.length), ∃ a : Nat, a ≤ old.length ∧
      st.place a = (p : Int) ∧ result[p] = (a : Int) := by
    intro p inside
    obtain ⟨a, held, only⟩ := single p (stored.entries ▸ inside)
    have place := (only a held).mpr rfl
    have entry := stored.stored (Nat.le_of_lt_succ held) place
    rw [List.getD_eq_getElem?_getD, List.getElem?_eq_getElem inside, Option.getD_some] at entry
    exact ⟨a, Nat.le_of_lt_succ held, place, entry⟩
  have distinct : result.Nodup := by
    rw [List.nodup_iff_injective_get]
    intro p q same
    obtain ⟨a, -, place, entry⟩ := named p.isLt
    obtain ⟨b, -, place', entry'⟩ := named q.isLt
    rw [List.get_eq_getElem, List.get_eq_getElem, entry, entry', Int.ofNat_inj] at same
    rw [same, place', Int.ofNat_inj] at place
    exact Fin.ext place.symm
  refine ⟨?_, ?_⟩
  · refine (List.subperm_of_subset distinct fun value held => ?_).perm_of_length_le ?_
    · obtain ⟨p, inside, rfl⟩ := List.getElem_of_mem held
      obtain ⟨a, le, -, entry⟩ := named inside
      rw [entry]
      exact List.mem_map.mpr ⟨a, List.mem_range.mpr (Nat.lt_succ_of_le le), rfl⟩
    · rw [List.length_map, List.length_range, stored.entries]
  · rw [List.pairwise_iff_getElem]
    intro p q inside inside' less
    obtain ⟨a, le, place, entry⟩ := named inside
    obtain ⟨b, le', place', entry'⟩ := named inside'
    rw [entry, entry']
    refine orders.before (a := a) (b := b) le le' ?_
    rw [place, place']
    exact Int.ofNat_lt.mpr less

end SortState

/-- The run of `Init`, which ends with each suffix at a place of its own. -/
theorem SuffixArray.init_run (old : Bytes) :
    ∃ h st result, SuffixArray.init old = some result ∧ SortState.Sorting old h st ∧
      (∀ p, p < old.length + 1 → Single (old.length + 1) st.place p) ∧
      SortState.Stored old st result := by
  obtain ⟨st₀, begun, sorting₀⟩ := initBuckets_sorting old
  obtain ⟨h, st, rounds, sorting, joined⟩ := SortState.sortRounds_spec old (old.length + 2) 1 st₀
    sorting₀ Nat.one_pos (.inr ⟨by omega, by omega⟩)
  have single := sorting.single joined
  obtain ⟨result, run, stored⟩ := sorting.storeIndices single
  refine ⟨h, st, result, ?_, sorting, single, stored⟩
  calc SuffixArray.init old
      = (sortRounds (old.length + 1 : Nat) (old.length + 2) 1 st₀).bind (fun st =>
          st.suffixArrayTemp.zipIdx.foldlM (fun suffixArray (place, index) =>
            setAt suffixArray place (index : Int)) st.suffixArray) :=
        congrArg (Option.bind · _) begun
    _ = st.suffixArrayTemp.zipIdx.foldlM (fun suffixArray (place, index) =>
          setAt suffixArray place (index : Int)) st.suffixArray :=
        congrArg (Option.bind · _) rounds
    _ = some result := run

/-- `Init` ends for every file, inside its arrays, with its suffixes in increasing order. -/
theorem SuffixArray.init_sorted (old : Bytes) :
    ∃ result, SuffixArray.init old = some result ∧ IsSuffixArray old result := by
  obtain ⟨h, st, result, run, sorting, single, stored⟩ := SuffixArray.init_run old
  exact ⟨result, run, stored.isSuffixArray sorting.orders single⟩

end Updater.DiffPatch
