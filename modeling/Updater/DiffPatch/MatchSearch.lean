import Mathlib.Data.Finset.Lattice.Fold
import Mathlib.Data.Finset.Range
import Mathlib.Order.Lattice.Nat
import Updater.Base.Bisection
import Updater.Base.CommonPrefix
import Updater.DiffPatch.SuffixArray

/-! When `Search` finds the longest match. Its `memcmp` takes a suffix that is a proper
prefix of the new data for equal to it, and looks for longer matches on the wrong side. -/

set_option autoImplicit false

namespace Updater.DiffPatch

open Updater.Base

/-- The suffix of entry `index`. -/
def suffixOf (suffixArray : List Int) (old : Bytes) (index : Nat) : Bytes :=
  old.drop (suffixArray.getD index 0).toNat

/-- The longest match of the new data, over all positions of the old. -/
def longestMatch (old new : Bytes) : Nat :=
  (Finset.range (old.length + 1)).sup fun position => matchLength (old.drop position) new

/-- A match as long as any, with its position. -/
structure IsLongestMatch (old new : Bytes) (length position : Nat) : Prop where
  inside : position ≤ old.length
  attained : matchLength (old.drop position) new = length
  longest : ∀ other ≤ old.length, matchLength (old.drop other) new ≤ length

/-- A suffix that ends before the longest match does, and agrees so far. -/
def EndsEarly (old new suffix : Bytes) : Prop :=
  suffix <+: new ∧ suffix.length < longestMatch old new

/-- The way to a longest match: right of suffixes below the new data, except for one that is
itself all of a longest match. -/
def towardsMatch (suffixArray : List Int) (old new : Bytes) (index : Nat) : Bool :=
  decide (List.Lex (· < ·) (suffixOf suffixArray old index) new) &&
    decide (suffixOf suffixArray old index ≠ new.take (longestMatch old new))

/-- The bisection toward a longest match looks at no suffix that ends early. -/
def SearchSees (suffixArray : List Int) (old new : Bytes) : Prop :=
  ∀ middle ∈ midpoints (towardsMatch suffixArray old new) 0 old.length,
    ¬ EndsEarly old new (suffixOf suffixArray old middle)

theorem matchLength_eq_commonPrefix (old new : Bytes) :
    matchLength old new = commonPrefix old new := by
  induction old, new using matchLength.induct with
  | case1 old new byte ih =>
      rw [matchLength, if_pos rfl, commonPrefix_cons_self, ih]
  | case2 oldByte old newByte new different =>
      rw [matchLength, if_neg different, commonPrefix_cons_of_ne different]
  | case3 old new shape =>
      cases old with
      | nil => rfl
      | cons oldByte old =>
          cases new with
          | nil => rfl
          | cons newByte new => exact (shape oldByte old newByte new rfl rfl).elim

/-- `memcmp` over the shorter length sees less than the order of the whole strings. -/
theorem memcmpLess_iff (old new : Bytes) :
    memcmpLess old new = true ↔ List.Lex (· < ·) old new ∧ ¬ old <+: new := by
  induction old generalizing new with
  | nil => simp [memcmpLess]
  | cons oldByte old ih =>
      cases new with
      | nil =>
          refine iff_of_false Bool.false_ne_true ?_
          rintro ⟨lower, -⟩
          cases lower
      | cons newByte new =>
          rw [memcmpLess, List.cons_prefix_cons]
          split
          · rename_i lower
            refine iff_of_true rfl ⟨.rel lower, ?_⟩
            rintro ⟨rfl, -⟩
            exact UInt8.lt_irrefl _ lower
          · rename_i notLower
            split
            · rename_i higher
              refine iff_of_false Bool.false_ne_true ?_
              rintro ⟨lower, -⟩
              cases lower with
              | rel lower => exact notLower lower
              | cons _ => exact UInt8.lt_irrefl _ higher
            · rename_i notHigher
              have same : oldByte = newByte :=
                UInt8.le_antisymm (UInt8.not_lt.mp notHigher) (UInt8.not_lt.mp notLower)
              subst same
              rw [ih]
              constructor
              · rintro ⟨lower, notPrefix⟩
                exact ⟨.cons lower, fun isPrefix => notPrefix isPrefix.2⟩
              · rintro ⟨lower, notPrefix⟩
                cases lower with
                | rel lower => exact absurd lower notLower
                | cons lower => exact ⟨lower, fun isPrefix => notPrefix ⟨rfl, isPrefix⟩⟩

section

variable {old new : Bytes}

theorem matchLength_le_longestMatch {position : Nat} (inside : position ≤ old.length) :
    matchLength (old.drop position) new ≤ longestMatch old new :=
  @Finset.le_sup _ _ _ _ _ (fun position => matchLength (old.drop position) new) _
    (Finset.mem_range.mpr (Nat.lt_succ_of_le inside))

/-- Some position has a longest match. -/
theorem exists_longestMatch (old new : Bytes) :
    ∃ position ≤ old.length, matchLength (old.drop position) new = longestMatch old new := by
  obtain ⟨position, inRange, reached⟩ :=
    Finset.exists_mem_eq_sup (Finset.range (old.length + 1)) ⟨0, Finset.mem_range.mpr (by omega)⟩
      fun position => matchLength (old.drop position) new
  exact ⟨position, Nat.le_of_lt_succ (Finset.mem_range.mp inRange), reached.symm⟩

theorem isLongestMatch_iff {length position : Nat} (inside : position ≤ old.length)
    (attained : matchLength (old.drop position) new = length) :
    IsLongestMatch old new length position ↔ longestMatch old new ≤ length := by
  constructor
  · intro isLongest
    obtain ⟨other, otherInside, longest⟩ := exists_longestMatch old new
    rw [← longest]
    exact isLongest.longest other otherInside
  · intro reached
    exact ⟨inside, attained, fun other otherInside =>
      (matchLength_le_longestMatch otherInside).trans reached⟩

end

section

variable {old new : Bytes} {suffixArray : List Int}

theorem IsSuffixArray.length_eq (isSorted : IsSuffixArray old suffixArray) :
    suffixArray.length = old.length + 1 := by
  rw [isSorted.perm.length_eq, List.length_map, List.length_range]

/-- Every entry is a position of the old data. -/
theorem IsSuffixArray.entry (isSorted : IsSuffixArray old suffixArray) {index : Nat}
    (inside : index ≤ old.length) :
    ∃ position ≤ old.length, suffixArray[index]? = some (position : Int) := by
  have bound : index < suffixArray.length := by
    rw [isSorted.length_eq]
    exact Nat.lt_succ_of_le inside
  have member := isSorted.perm.mem_iff.mp (List.getElem_mem bound)
  obtain ⟨position, inRange, entry⟩ := List.mem_map.mp member
  refine ⟨position, Nat.le_of_lt_succ (List.mem_range.mp inRange), ?_⟩
  rw [List.getElem?_eq_getElem bound, ← entry]
  rfl

/-- Every position of the old data has its entry. -/
theorem IsSuffixArray.index (isSorted : IsSuffixArray old suffixArray) {position : Nat}
    (inside : position ≤ old.length) :
    ∃ index ≤ old.length, suffixArray[index]? = some (position : Int) := by
  have member : (position : Int) ∈ suffixArray :=
    isSorted.perm.mem_iff.mpr
      (List.mem_map_of_mem (List.mem_range.mpr (Nat.lt_succ_of_le inside)))
  obtain ⟨index, bound, entry⟩ := List.mem_iff_getElem.mp member
  refine ⟨index, ?_, ?_⟩
  · rw [isSorted.length_eq] at bound
    exact Nat.le_of_lt_succ bound
  · rw [List.getElem?_eq_getElem bound, entry]

theorem suffixOf_eq {index position : Nat} (entry : suffixArray[index]? = some (position : Int)) :
    suffixOf suffixArray old index = old.drop position := by
  rw [suffixOf, List.getD_eq_getElem?_getD, entry, Option.getD_some, Int.toNat_natCast]

theorem suffixAt_eq {index position : Nat} (entry : suffixArray[index]? = some (position : Int))
    (inside : position ≤ old.length) :
    suffixAt suffixArray old index = some (position, old.drop position) := by
  have within : (0 : Int) ≤ position ∧ (position : Int) ≤ old.length :=
    ⟨Int.natCast_nonneg _, Int.ofNat_le.mpr inside⟩
  rw [suffixAt, entry]
  simp only [if_pos within, Int.toNat_natCast]

/-- Later entries have larger suffixes. -/
theorem IsSuffixArray.lex (isSorted : IsSuffixArray old suffixArray) {left right : Nat}
    (before : left < right) (inside : right ≤ old.length) :
    List.Lex (· < ·) (suffixOf suffixArray old left) (suffixOf suffixArray old right) := by
  have bound : right < suffixArray.length := by
    rw [isSorted.length_eq]
    exact Nat.lt_succ_of_le inside
  have ordered := List.pairwise_iff_getElem.mp isSorted.sorted left right (by omega) bound before
  rw [suffixOf, suffixOf, List.getD_eq_getElem?_getD, List.getD_eq_getElem?_getD,
    List.getElem?_eq_getElem bound, List.getElem?_eq_getElem (before.trans bound)]
  exact ordered

/-- `Search` is a bisection by `memcmp`, which ends with the longer of two matches. -/
theorem search_eq_bisect (isSorted : IsSuffixArray old suffixArray) {start finish : Nat}
    (ordered : start ≤ finish) (inside : finish ≤ old.length) {low high : Nat}
    (ends : bisect (fun index => memcmpLess (suffixOf suffixArray old index) new) start finish =
      (low, high)) :
    ∃ position ≤ old.length,
      SuffixArray.search suffixArray new old start finish =
        some (matchLength (old.drop position) new, position) ∧
      matchLength (old.drop position) new =
        max (matchLength (suffixOf suffixArray old low) new)
          (matchLength (suffixOf suffixArray old high) new) := by
  induction start, finish using bisect.induct
      (fun index => memcmpLess (suffixOf suffixArray old index) new) with
  | case1 start finish few =>
      rw [bisect, dif_pos few] at ends
      obtain ⟨rfl, rfl⟩ := Prod.mk.inj ends
      obtain ⟨startPosition, startInside, startEntry⟩ := isSorted.entry (ordered.trans inside)
      obtain ⟨endPosition, endInside, endEntry⟩ := isSorted.entry inside
      have small : finish - start < multipleTwo := few
      rw [SuffixArray.search, dif_pos small, suffixAt_eq startEntry startInside,
        suffixAt_eq endEntry endInside, suffixOf_eq startEntry, suffixOf_eq endEntry]
      simp only [Option.bind_eq_bind, Option.bind_some]
      split
      · rename_i longer
        exact ⟨startPosition, startInside, rfl, (max_eq_left (le_of_lt longer)).symm⟩
      · rename_i notLonger
        exact ⟨endPosition, endInside, rfl, (max_eq_right (not_lt.mp notLonger)).symm⟩
  | case2 start finish many up ih =>
      obtain ⟨position, positionInside, entry⟩ :=
        isSorted.entry (show start + (finish - start) / 2 ≤ old.length by omega)
      rw [bisect, dif_neg many, if_pos up] at ends
      rw [suffixOf_eq entry] at up
      have large : ¬ finish - start < multipleTwo := many
      rw [SuffixArray.search, dif_neg large]
      simp only [multipleTwo, suffixAt_eq entry positionInside, up, if_true]
      exact ih (by omega) inside ends
  | case3 start finish many down ih =>
      obtain ⟨position, positionInside, entry⟩ :=
        isSorted.entry (show start + (finish - start) / 2 ≤ old.length by omega)
      rw [bisect, dif_neg many, if_neg down] at ends
      rw [suffixOf_eq entry] at down
      have large : ¬ finish - start < multipleTwo := many
      rw [SuffixArray.search, dif_neg large]
      simp only [multipleTwo, suffixAt_eq entry positionInside, down]
      exact ih (by omega) (by omega) ends

/-- Up to the new data, a later suffix agrees with it at least as far. -/
theorem IsSuffixArray.match_le_of_below (isSorted : IsSuffixArray old suffixArray)
    {left right : Nat} (before : left ≤ right) (inside : right ≤ old.length)
    (below : List.Lex (· < ·) (suffixOf suffixArray old right) new) :
    matchLength (suffixOf suffixArray old left) new ≤
      matchLength (suffixOf suffixArray old right) new := by
  rcases Nat.lt_or_eq_of_le before with less | rfl
  · have ordered := isSorted.lex less inside
    have notAfter : ¬ List.Lex (· < ·) (suffixOf suffixArray old right)
        (suffixOf suffixArray old left) := asymm ordered
    have notBelow : ¬ List.Lex (· < ·) new (suffixOf suffixArray old right) := asymm below
    rw [matchLength_eq_commonPrefix, matchLength_eq_commonPrefix]
    exact (commonPrefix_between notAfter notBelow).2
  · exact Nat.le_refl _

/-- From the new data on, an earlier suffix agrees with it at least as far. -/
theorem IsSuffixArray.match_le_of_above (isSorted : IsSuffixArray old suffixArray)
    {left right : Nat} (before : left ≤ right) (inside : right ≤ old.length)
    (above : ¬ List.Lex (· < ·) (suffixOf suffixArray old left) new) :
    matchLength (suffixOf suffixArray old right) new ≤
      matchLength (suffixOf suffixArray old left) new := by
  rcases Nat.lt_or_eq_of_le before with less | rfl
  · have ordered := isSorted.lex less inside
    have notAfter : ¬ List.Lex (· < ·) (suffixOf suffixArray old right)
        (suffixOf suffixArray old left) := asymm ordered
    rw [matchLength_eq_commonPrefix, matchLength_eq_commonPrefix, commonPrefix_comm _ new,
      commonPrefix_comm _ new]
    exact (commonPrefix_between above notAfter).1
  · exact Nat.le_refl _

theorem matchLength_of_front {suffix : Bytes} (isPrefix : suffix <+: new) :
    matchLength suffix new = suffix.length := by
  rw [matchLength_eq_commonPrefix, commonPrefix_eq_length_iff]
  exact isPrefix

theorem IsSuffixArray.match_le (isSorted : IsSuffixArray old suffixArray) {index : Nat}
    (inside : index ≤ old.length) :
    matchLength (suffixOf suffixArray old index) new ≤ longestMatch old new := by
  obtain ⟨position, positionInside, entry⟩ := isSorted.entry inside
  rw [suffixOf_eq entry]
  exact matchLength_le_longestMatch positionInside

/-- `memcmp` decides as the way to a longest match does, except for suffixes that end early. -/
theorem memcmpLess_eq_towardsMatch (isSorted : IsSuffixArray old suffixArray) {index : Nat}
    (inside : index ≤ old.length)
    (seen : ¬ EndsEarly old new (suffixOf suffixArray old index)) :
    memcmpLess (suffixOf suffixArray old index) new = towardsMatch suffixArray old new index := by
  rw [Bool.eq_iff_iff, memcmpLess_iff, towardsMatch, Bool.and_eq_true, decide_eq_true_iff,
    decide_eq_true_iff]
  refine and_congr_right fun lower => not_congr ⟨?_, ?_⟩
  · intro isPrefix
    have reached : longestMatch old new ≤ (suffixOf suffixArray old index).length :=
      Nat.not_lt.mp fun early => seen ⟨isPrefix, early⟩
    have bound : matchLength (suffixOf suffixArray old index) new ≤ longestMatch old new :=
      isSorted.match_le inside
    rw [matchLength_of_front isPrefix] at bound
    rw [List.prefix_iff_eq_take.mp isPrefix, Nat.le_antisymm bound reached]
  · intro same
    rw [same]
    exact List.take_prefix _ _

theorem memcmpLess_of_endsEarly {suffix : Bytes} (early : EndsEarly old new suffix) :
    memcmpLess suffix new = false := by
  rw [Bool.eq_false_iff, Ne, memcmpLess_iff]
  exact fun less => less.2 early.1

theorem lex_of_front {left right : Bytes} (isPrefix : left <+: right)
    (shorter : left.length < right.length) : List.Lex (· < ·) left right := by
  obtain ⟨rest, rfl⟩ := isPrefix
  cases rest with
  | nil => exact absurd shorter (by simp)
  | cons byte rest =>
      have more : List.Lex (· < ·) (left ++ []) (left ++ byte :: rest) :=
        List.Lex.append_left _ .nil left
      rwa [List.append_nil] at more

theorem longestMatch_le (old new : Bytes) : longestMatch old new ≤ new.length := by
  obtain ⟨position, -, reached⟩ := exists_longestMatch old new
  rw [← reached]
  exact matchLength_le _ _

theorem EndsEarly.lex {suffix : Bytes} (early : EndsEarly old new suffix) :
    List.Lex (· < ·) suffix new :=
  lex_of_front early.1 (early.2.trans_le (longestMatch_le old new))

theorem towardsMatch_of_endsEarly {index : Nat}
    (early : EndsEarly old new (suffixOf suffixArray old index)) :
    towardsMatch suffixArray old new index = true := by
  rw [towardsMatch, Bool.and_eq_true, decide_eq_true_iff, decide_eq_true_iff]
  refine ⟨early.lex, fun same => ?_⟩
  have short := early.2
  rw [same, List.length_take, min_eq_left (longestMatch_le old new)] at short
  exact Nat.lt_irrefl _ short

/-- The way to a longest match keeps one between the two ends. -/
theorem towardsMatch_keeps (isSorted : IsSuffixArray old suffixArray) {low high : Nat}
    (ends : bisect (towardsMatch suffixArray old new) 0 old.length = (low, high)) :
    high ≤ old.length ∧ ∃ index, low ≤ index ∧ index ≤ high ∧
      matchLength (suffixOf suffixArray old index) new = longestMatch old new := by
  have kept := bisect_keeps (towardsMatch suffixArray old new)
    (fun low high => high ≤ old.length ∧ ∃ index, low ≤ index ∧ index ≤ high ∧
      matchLength (suffixOf suffixArray old index) new = longestMatch old new) ?_ ?_ 0 old.length ?_
  · rw [ends] at kept
    exact kept
  · rintro start middle finish - below up ⟨inside, index, -, indexBelow, longest⟩
    refine ⟨inside, ?_⟩
    rw [towardsMatch, Bool.and_eq_true, decide_eq_true_iff] at up
    rcases Nat.le_total middle index with later | earlier
    · exact ⟨index, later, indexBelow, longest⟩
    · have reached := isSorted.match_le_of_below earlier (by omega) up.1
      exact ⟨middle, Nat.le_refl _, by omega,
        Nat.le_antisymm (isSorted.match_le (by omega)) (longest ▸ reached)⟩
  · rintro start middle finish above below down ⟨inside, index, indexAbove, indexBelow, longest⟩
    refine ⟨by omega, ?_⟩
    rw [towardsMatch, Bool.and_eq_false_iff, decide_eq_false_iff_not, decide_eq_false_iff_not,
      not_not] at down
    rcases Nat.le_total index middle with earlier | later
    · exact ⟨index, indexAbove, earlier, longest⟩
    · refine ⟨middle, by omega, Nat.le_refl _, ?_⟩
      rcases down with notBelow | whole
      · have reached := isSorted.match_le_of_above later (by omega) notBelow
        exact Nat.le_antisymm (isSorted.match_le (by omega)) (longest ▸ reached)
      · rw [whole, matchLength_of_front (List.take_prefix _ _), List.length_take,
          min_eq_left (longestMatch_le old new)]
  · obtain ⟨position, inside, longest⟩ := exists_longestMatch old new
    obtain ⟨index, indexInside, entry⟩ := isSorted.index inside
    refine ⟨Nat.le_refl _, index, Nat.zero_le _, indexInside, ?_⟩
    rw [suffixOf_eq entry, longest]

/-- A bisection that saw a suffix ending early has left the longest matches behind. -/
theorem match_lt_of_endsEarly (isSorted : IsSuffixArray old suffixArray)
    (hidden : ¬ SearchSees suffixArray old new) {low high : Nat}
    (ends : bisect (fun index => memcmpLess (suffixOf suffixArray old index) new) 0 old.length =
      (low, high)) :
    max (matchLength (suffixOf suffixArray old low) new)
      (matchLength (suffixOf suffixArray old high) new) < longestMatch old new := by
  have early : ∀ index ≤ old.length,
      memcmpLess (suffixOf suffixArray old index) new ≠ towardsMatch suffixArray old new index →
      EndsEarly old new (suffixOf suffixArray old index) := fun index inside differs =>
    Classical.byContradiction fun seen =>
      differs (memcmpLess_eq_towardsMatch isSorted inside seen)
  have differs : ∃ middle ∈ midpoints (towardsMatch suffixArray old new) 0 old.length,
      memcmpLess (suffixOf suffixArray old middle) new ≠
        towardsMatch suffixArray old new middle := by
    rw [SearchSees] at hidden
    push Not at hidden
    obtain ⟨middle, member, endsEarly⟩ := hidden
    refine ⟨middle, member, ?_⟩
    rw [memcmpLess_of_endsEarly endsEarly, towardsMatch_of_endsEarly endsEarly]
    exact Bool.false_ne_true
  obtain ⟨middle, below, notSame, last⟩ :=
    bisect_left_of_differs (Nat.zero_le _) differs fun index inside notSame =>
      memcmpLess_of_endsEarly (early index inside.le notSame)
  have endsEarly := early middle below.le notSame
  have ordered := (bisect_inside
    (fun index => memcmpLess (suffixOf suffixArray old index) new) (Nat.zero_le old.length)).2.1
  rw [ends] at last ordered
  have bound : ∀ index ≤ middle,
      matchLength (suffixOf suffixArray old index) new < longestMatch old new := by
    intro index before
    have least := isSorted.match_le_of_below before below.le endsEarly.lex
    rw [matchLength_of_front endsEarly.1] at least
    exact least.trans_lt endsEarly.2
  exact max_lt (bound low (ordered.trans last)) (bound high last)

/-- A bisection that sees none has a longest match at one of its ends. -/
theorem longestMatch_le_of_searchSees (isSorted : IsSuffixArray old suffixArray)
    (sees : SearchSees suffixArray old new) {low high : Nat}
    (ends : bisect (fun index => memcmpLess (suffixOf suffixArray old index) new) 0 old.length =
      (low, high)) :
    longestMatch old new ≤ max (matchLength (suffixOf suffixArray old low) new)
      (matchLength (suffixOf suffixArray old high) new) := by
  have same : bisect (fun index => memcmpLess (suffixOf suffixArray old index) new) 0 old.length =
      bisect (towardsMatch suffixArray old new) 0 old.length :=
    bisect_congr fun middle member =>
      memcmpLess_eq_towardsMatch isSorted (lt_of_mem_midpoints member).le (sees middle member)
  have few := bisect_few (towardsMatch suffixArray old new) 0 old.length
  rw [← same, ends] at few
  obtain ⟨-, index, above, below, longest⟩ := towardsMatch_keeps isSorted (same ▸ ends)
  rw [← longest]
  have oneOf : index = low ∨ index = high := by
    simp only at few
    omega
  rcases oneOf with rfl | rfl
  · exact le_max_left _ _
  · exact le_max_right _ _

end

/-- `Search` returns a longest match exactly where its bisection sees no suffix that ends
early: a proper prefix of the new data that is shorter than the longest match. -/
theorem SuffixArray.search_longest_iff (suffixArray : List Int) (new old : Bytes)
    (isSorted : IsSuffixArray old suffixArray) :
    (∃ length position, SuffixArray.search suffixArray new old 0 old.length =
        some (length, position) ∧ IsLongestMatch old new length position) ↔
      SearchSees suffixArray old new := by
  cases ends : bisect (fun index => memcmpLess (suffixOf suffixArray old index) new) 0
      old.length with
  | mk low high =>
      obtain ⟨position, inside, found, reached⟩ :=
        search_eq_bisect isSorted (Nat.zero_le _) (Nat.le_refl _) ends
      constructor
      · rintro ⟨length, other, same, isLongest⟩
        rw [found] at same
        cases same
        have atLeast := (isLongestMatch_iff inside rfl).mp isLongest
        rw [reached] at atLeast
        by_contra hidden
        exact absurd (match_lt_of_endsEarly isSorted hidden ends) (Nat.not_lt.mpr atLeast)
      · intro sees
        refine ⟨_, position, found, (isLongestMatch_iff inside rfl).mpr ?_⟩
        rw [reached]
        exact longestMatch_le_of_searchSees isSorted sees ends

theorem isSuffixArray_double : IsSuffixArray [97, 97] [2, 1, 0] where
  perm := by decide
  sorted := by
    simp only [List.pairwise_cons]
    decide

/-- The suffix `a` in the middle is a prefix of `aab`, and hides the match `aa` behind it. -/
theorem SuffixArray.search_misses :
    IsSuffixArray [97, 97] [2, 1, 0] ∧
      SuffixArray.search [2, 1, 0] [97, 97, 98] [97, 97] 0 2 = some (1, 1) ∧
      ¬ IsLongestMatch [97, 97] [97, 97, 98] 1 1 := by
  refine ⟨isSuffixArray_double, by decide +kernel, fun isLongest => ?_⟩
  exact absurd (isLongest.longest 0 (Nat.zero_le _)) (by decide)

theorem SuffixArray.search_longest_double :
    (∃ length position, SuffixArray.search [2, 1, 0] [98] [97, 97] 0 2 =
        some (length, position) ∧ IsLongestMatch [97, 97] [98] length position) ↔
      SearchSees [2, 1, 0] [97, 97] [98] :=
  SuffixArray.search_longest_iff [2, 1, 0] [98] [97, 97] isSuffixArray_double

end Updater.DiffPatch
