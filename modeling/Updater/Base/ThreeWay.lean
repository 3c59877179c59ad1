import Mathlib.Data.Finset.Card
import Mathlib.Order.Interval.Finset.Nat
import Mathlib.Tactic.Common

/-! A range of positions that is cut in three by the number of keys below a pivot and equal to it,
while the entries are swapped to their parts. -/

set_option autoImplicit false

namespace Updater.Base

variable {key : Nat → Int} {pivot : Int} {start below equal finish : Nat}

/-- The first part has as many positions as there are keys below the pivot, and the second one as
there are keys equal to it. -/
structure Cut (key : Nat → Int) (pivot : Int) (start below equal finish : Nat) : Prop where
  first : start ≤ below
  second : below ≤ equal
  third : equal ≤ finish
  countBelow : ((Finset.Ico start finish).filter fun p => key p < pivot).card = below - start
  countEqual : ((Finset.Ico start finish).filter fun p => key p = pivot).card = equal - below

/-- The keys that stand in their parts so far: in the first part all before `i`, in the others the
first `j` and `k`. -/
structure Arranged (key : Nat → Int) (pivot : Int) (start below equal i j k : Nat) : Prop where
  low : ∀ p ∈ Set.Ico start i, key p < pivot
  middle : ∀ p ∈ Set.Ico below (below + j), key p = pivot
  high : ∀ p ∈ Set.Ico equal (equal + k), pivot < key p

/-- Every key is below the pivot, equal to it or above it. -/
theorem card_three (key : Nat → Int) (pivot : Int) (start finish : Nat) :
    ((Finset.Ico start finish).filter fun p => key p < pivot).card +
        (((Finset.Ico start finish).filter fun p => key p = pivot).card +
          ((Finset.Ico start finish).filter fun p => pivot < key p).card) = finish - start := by
  have total := (Finset.Ico start finish).card_filter_add_card_filter_not fun p => key p < pivot
  have rest := ((Finset.Ico start finish).filter fun p => ¬ key p < pivot)
    |>.card_filter_add_card_filter_not fun p => key p = pivot
  rw [Finset.filter_filter, Finset.filter_filter] at rest
  have same : ((Finset.Ico start finish).filter fun p => ¬ key p < pivot ∧ key p = pivot) =
      (Finset.Ico start finish).filter fun p => key p = pivot :=
    Finset.filter_congr fun p _ => by omega
  have same' : ((Finset.Ico start finish).filter fun p => ¬ key p < pivot ∧ ¬ key p = pivot) =
      (Finset.Ico start finish).filter fun p => pivot < key p :=
    Finset.filter_congr fun p _ => by omega
  rw [same, same'] at rest
  rw [rest, total, Nat.card_Ico]

namespace Cut

variable {i j k : Nat}

/-- The cut that the numbers of keys make. -/
theorem of_counts (key : Nat → Int) (pivot : Int) (le : start ≤ finish)
    (count : ((Finset.Ico start finish).filter fun p => key p < pivot).card = below)
    (count' : ((Finset.Ico start finish).filter fun p => key p = pivot).card = equal) :
    Cut key pivot start (start + below) (start + below + equal) finish := by
  have three := card_three key pivot start finish
  rw [count, count'] at three
  exact ⟨by omega, by omega, by omega, by omega, by omega⟩

theorem countAbove (cut : Cut key pivot start below equal finish) :
    ((Finset.Ico start finish).filter fun p => pivot < key p).card = finish - equal := by
  have three := card_three key pivot start finish
  rw [cut.countBelow, cut.countEqual] at three
  have := cut.first
  have := cut.second
  have := cut.third
  omega

/-- A key outside a part that belongs to it leaves room for one more. -/
theorem room {holds : Nat → Prop} [DecidablePred holds] {part size position : Nat}
    (inside : start ≤ part ∧ part + size ≤ finish) (own : ∀ p ∈ Set.Ico part (part + size), holds p)
    (other : position ∈ Set.Ico start finish) (holds_ : holds position)
    (outside : position ∉ Set.Ico part (part + size)) :
    size < ((Finset.Ico start finish).filter holds).card := by
  have within : insert position (Finset.Ico part (part + size)) ⊆
      (Finset.Ico start finish).filter holds := by
    intro p held
    rw [Finset.mem_insert, Finset.mem_Ico] at held
    rw [Finset.mem_filter, Finset.mem_Ico]
    rcases held with rfl | held
    · exact ⟨other, holds_⟩
    · exact ⟨⟨by omega, by omega⟩, own p held⟩
  have notMem : position ∉ Finset.Ico part (part + size) := fun held =>
    outside (Finset.mem_Ico.mp held)
  have card := Finset.card_le_card within
  rw [Finset.card_insert_of_notMem notMem, Nat.card_Ico] at card
  omega

/-- Where a whole part holds as many keys as there are, the others are outside. -/
theorem rest {holds : Nat → Prop} [DecidablePred holds] {part finish' : Nat}
    (inside : start ≤ part ∧ finish' ≤ finish) (own : ∀ p ∈ Set.Ico part finish', holds p)
    (count : ((Finset.Ico start finish).filter holds).card = finish' - part) {p : Nat}
    (other : p ∈ Set.Ico start finish) (holds_ : holds p) : p ∈ Set.Ico part finish' := by
  have within : Finset.Ico part finish' ⊆ (Finset.Ico start finish).filter holds := by
    intro q held
    rw [Finset.mem_Ico] at held
    rw [Finset.mem_filter, Finset.mem_Ico]
    exact ⟨⟨by omega, by omega⟩, own q held⟩
  have same := Finset.eq_of_subset_of_card_le within (by rw [count, Nat.card_Ico])
  have held : p ∈ (Finset.Ico start finish).filter holds :=
    Finset.mem_filter.mpr ⟨Finset.mem_Ico.mpr other, holds_⟩
  rw [← same] at held
  exact Finset.mem_Ico.mp held

/-- With the first two parts filled, only keys above the pivot are left for the third one. -/
theorem above (cut : Cut key pivot start below equal finish)
    (arranged : Arranged key pivot start below equal below (equal - below) k) :
    ∀ p ∈ Set.Ico equal finish, pivot < key p := by
  intro p inside
  obtain ⟨low, high⟩ := inside
  have first := cut.first
  have second := cut.second
  have third := cut.third
  have whole : p ∈ Set.Ico start finish := ⟨by omega, high⟩
  have notLess : ¬ key p < pivot := fun less => by
    have early := (rest ⟨Nat.le_refl _, by omega⟩ arranged.low cut.countBelow whole less).2
    omega
  have middle : ∀ q ∈ Set.Ico below equal, key q = pivot := fun q held =>
    arranged.middle q ⟨held.1, by have := held.2; omega⟩
  have notEqual : key p ≠ pivot := fun same => by
    have early := (rest ⟨first, third⟩ middle cut.countEqual whole same).2
    omega
  omega

end Cut

end Updater.Base
