import Updater.DiffPatch.SuffixBlocks
import Updater.DiffPatch.SuffixPartition

/-! `Split`: the suffixes of a group, which begin with the same `h` bytes, are sorted by the places
of the suffixes behind these. -/

set_option autoImplicit false

namespace Updater.DiffPatch

open Updater.Base

namespace SortState

/-- The suffix that stands in an entry. -/
def suffix (st : SortState) (p : Nat) : Nat :=
  (st.entry p).toNat

/-- The entries may be sorted: they begin with the same bytes, have their places above all of these
positions or at the last one, and the other suffixes are on either side of them. -/
structure Ready (old : Bytes) (h start finish : Nat) (st : SortState) : Prop where
  sized : st.Sized (old.length + 1)
  within : finish ≤ old.length + 1
  named : ∀ p ∈ Set.Ico start finish, 0 ≤ st.entry p
  distinct : Set.InjOn st.suffix (Set.Ico start finish)
  alike : ∀ p ∈ Set.Ico start finish, ∀ q ∈ Set.Ico start finish,
    SamePrefix old h (st.suffix p) (st.suffix q)
  orders : Orders old h st.place
  apart {b : Nat} : b ≤ old.length → (∀ p ∈ Set.Ico start finish, st.suffix p ≠ b) →
    st.place b < start ∧ (∀ p ∈ Set.Ico start finish, Before old b (st.suffix p)) ∨
      finish ≤ st.place b ∧ ∀ p ∈ Set.Ico start finish, Before old (st.suffix p) b
  last : ∀ p ∈ Set.Ico start finish, finish ≤ st.place (st.suffix p) + 1

/-- The entries have been sorted by twice as many bytes. -/
structure Refined (old : Bytes) (h start finish : Nat) (st st' : SortState) : Prop where
  sized : st'.Sized (old.length + 1)
  entries : ∀ p, p ∉ Set.Ico start finish → st'.entry p = st.entry p
  places {b : Nat} : (∀ p ∈ Set.Ico start finish, st.suffix p ≠ b) → st'.place b = st.place b
  inside : ∀ p ∈ Set.Ico start finish,
    start ≤ st'.place (st.suffix p) ∧ st'.place (st.suffix p) < finish
  orders : Orders old h st'.place
  finer {p q : Nat} : p ∈ Set.Ico start finish → q ∈ Set.Ico start finish → p ≠ q →
    st'.place (st.suffix p) = st'.place (st.suffix q) →
    SamePrefix old (h + h) (st.suffix p) (st.suffix q)
  blocks : Blocks (old.length + 1) (h + h) st'.entry st'.place start finish

variable {old : Bytes} {h start middle finish : Nat} {st st' st'' : SortState}

namespace Ready

theorem reads (ready : Ready old h start finish st) :
    ∀ p ∈ Set.Ico start finish, Reads (old.length + 1) h (st.entry p) := fun p inside =>
  ⟨ready.named p inside, Nat.lt_succ_of_le (ready.alike p inside p inside).left⟩

theorem suffix_le (ready : Ready old h start finish st) {p : Nat}
    (inside : p ∈ Set.Ico start finish) : st.suffix p ≤ old.length :=
  Nat.le_of_add_right_le (ready.alike p inside p inside).left

/-- A smaller key is that of a smaller suffix. -/
theorem before (ready : Ready old h start finish st) {p q : Nat} (inside : p ∈ Set.Ico start finish)
    (inside' : q ∈ Set.Ico start finish) (less : st.keyAt h p < st.keyAt h q) :
    Before old (st.suffix p) (st.suffix q) := by
  have alike := ready.alike p inside q inside'
  exact alike.before (ready.orders.before alike.left alike.right less)

/-- Equal keys are those of suffixes with the same bytes further on. -/
theorem alike_double (ready : Ready old h start finish st) {p q : Nat}
    (inside : p ∈ Set.Ico start finish) (inside' : q ∈ Set.Ico start finish) (other : p ≠ q)
    (same : st.keyAt h p = st.keyAt h q) :
    SamePrefix old (h + h) (st.suffix p) (st.suffix q) := by
  have alike := ready.alike p inside q inside'
  have differs : st.suffix p + h ≠ st.suffix q + h := fun equal =>
    other (ready.distinct inside inside' (Nat.add_right_cancel equal))
  exact alike.extend (ready.orders.alike alike.left alike.right differs same)

theorem moved (ready : Ready old h start finish st) (moved : Moved start finish st st') :
    Ready old h start finish st' := by
  have suffixes : Rearranged start finish st.suffix st'.suffix := by
    obtain ⟨σ, fixed, same⟩ := moved.entries
    exact ⟨σ, fixed, fun p => congrArg Int.toNat (same p)⟩
  have back := suffixes.symm
  refine ⟨moved.sized ready.sized, ready.within, moved.entries.forall_mem ready.named,
    suffixes.injOn ready.distinct, ?_, moved.place.symm ▸ ready.orders, fun {b} le other => ?_, ?_⟩
  · intro p inside
    obtain ⟨p', inside', same⟩ := suffixes.exists_mem inside
    rw [same]
    exact suffixes.forall_mem (ready.alike p' inside')
  · rw [moved.place]
    have other' := @Rearranged.forall_mem _ _ _ _ _ back (· ≠ b) other
    rcases ready.apart le other' with ⟨low, all⟩ | ⟨high, all⟩
    · exact .inl ⟨low, suffixes.forall_mem all⟩
    · exact .inr ⟨high, @Rearranged.forall_mem _ _ _ _ _ suffixes (Before old · b) all⟩
  · rw [moved.place]
    exact @Rearranged.forall_mem _ _ _ _ _ suffixes (finish ≤ st.place · + 1) ready.last

theorem suffix_ne (ready : Ready old h start finish st) {p q : Nat}
    (inside : p ∈ Set.Ico start middle) (inside' : q ∈ Set.Ico middle finish) :
    st.suffix p ≠ st.suffix q := fun same => by
  obtain ⟨low, high⟩ := inside
  obtain ⟨low', high'⟩ := inside'
  have equal := ready.distinct ⟨low, by omega⟩ ⟨by omega, high'⟩ same
  omega

/-- The first part of the entries, where the others come behind it. -/
theorem left (ready : Ready old h start finish st) (high : middle ≤ finish)
    (less : ∀ p ∈ Set.Ico start middle, ∀ q ∈ Set.Ico middle finish,
      Before old (st.suffix p) (st.suffix q)) : Ready old h start middle st := by
  have wide : ∀ p ∈ Set.Ico start middle, p ∈ Set.Ico start finish := fun p inside =>
    ⟨inside.1, Nat.lt_of_lt_of_le inside.2 high⟩
  refine ⟨ready.sized, Nat.le_trans high ready.within, fun p inside => ready.named p (wide p inside),
    fun p inside q inside' => ready.distinct (wide p inside) (wide q inside'),
    fun p inside q inside' => ready.alike p (wide p inside) q (wide q inside'), ready.orders,
    fun {b} le other => ?_, fun p inside => ?_⟩
  · by_cases found : ∃ q ∈ Set.Ico start finish, st.suffix q = b
    · obtain ⟨q, inside, same⟩ := found
      have late : middle ≤ q := by
        by_contra early
        exact other q ⟨inside.1, Nat.not_le.mp early⟩ same
      have last := ready.last q inside
      rw [same] at last
      have := inside.2
      exact .inr ⟨by omega, fun p inside' => same ▸ less p inside' q ⟨late, inside.2⟩⟩
    · rcases ready.apart le fun p inside same => found ⟨p, inside, same⟩ with
        ⟨below, all⟩ | ⟨above, all⟩
      · exact .inl ⟨below, fun p inside => all p (wide p inside)⟩
      · exact .inr ⟨by omega, fun p inside => all p (wide p inside)⟩
  · have last := ready.last p (wide p inside)
    omega

end Ready

namespace Refined

theorem suffix_eq (refined : Refined old h start middle st st') {p : Nat}
    (inside : p ∈ Set.Ico middle finish) : st'.suffix p = st.suffix p :=
  congrArg Int.toNat (refined.entries p fun held =>
    Nat.lt_irrefl p (Nat.lt_of_lt_of_le held.2 inside.1))

theorem place_eq (refined : Refined old h start middle st st')
    (ready : Ready old h start finish st) {q : Nat} (inside : q ∈ Set.Ico middle finish) :
    st'.place (st.suffix q) = st.place (st.suffix q) :=
  refined.places fun _ inside' => ready.suffix_ne inside' inside

/-- The part of the entries that is left when a first part has been sorted. -/
theorem right (refined : Refined old h start middle st st')
    (ready : Ready old h start finish st) (low : start ≤ middle)
    (less : ∀ p ∈ Set.Ico start middle, ∀ q ∈ Set.Ico middle finish,
      Before old (st.suffix p) (st.suffix q)) : Ready old h middle finish st' := by
  have wide : ∀ p ∈ Set.Ico middle finish, p ∈ Set.Ico start finish := fun p inside =>
    ⟨Nat.le_trans low inside.1, inside.2⟩
  refine ⟨refined.sized, ready.within, fun p inside => ?_, fun p inside q inside' same => ?_,
    fun p inside q inside' => ?_, refined.orders, fun {b} le other => ?_, fun p inside => ?_⟩
  · rw [refined.entries p fun held => Nat.lt_irrefl p (Nat.lt_of_lt_of_le held.2 inside.1)]
    exact ready.named p (wide p inside)
  · rw [refined.suffix_eq inside, refined.suffix_eq inside'] at same
    exact ready.distinct (wide p inside) (wide q inside') same
  · rw [refined.suffix_eq inside, refined.suffix_eq inside']
    exact ready.alike p (wide p inside) q (wide q inside')
  · by_cases found : ∃ q ∈ Set.Ico start middle, st.suffix q = b
    · obtain ⟨q, inside, same⟩ := found
      have sorted := (refined.inside q inside).2
      rw [same] at sorted
      exact .inl ⟨sorted, fun p inside' => by
        rw [refined.suffix_eq inside', ← same]
        exact less q inside p inside'⟩
    · have early : ∀ p ∈ Set.Ico start middle, st.suffix p ≠ b := fun p inside same =>
        found ⟨p, inside, same⟩
      have outside : ∀ p ∈ Set.Ico start finish, st.suffix p ≠ b := by
        intro p inside
        by_cases first : p < middle
        · exact early p ⟨inside.1, first⟩
        · have late : p ∈ Set.Ico middle finish := ⟨Nat.not_lt.mp first, inside.2⟩
          exact refined.suffix_eq late ▸ other p late
      rw [refined.places early]
      rcases ready.apart le outside with ⟨below, all⟩ | ⟨above, all⟩
      · exact .inl ⟨by omega, fun p inside => refined.suffix_eq inside ▸ all p (wide p inside)⟩
      · exact .inr ⟨above, fun p inside => refined.suffix_eq inside ▸ all p (wide p inside)⟩
  · rw [refined.suffix_eq inside, refined.place_eq ready inside]
    exact ready.last p (wide p inside)

/-- Two parts that are sorted one behind the other. -/
theorem append (refined : Refined old h start middle st st')
    (behind : Refined old h middle finish st' st'') (ready : Ready old h start finish st)
    (low : start ≤ middle) (high : middle ≤ finish) : Refined old h start finish st st'' := by
  -- the places of the first part are left as they are
  have kept : ∀ p ∈ Set.Ico start middle, st''.place (st.suffix p) = st'.place (st.suffix p) := by
    intro p inside
    refine behind.places fun q inside' same => ?_
    rw [refined.suffix_eq inside'] at same
    exact ready.suffix_ne inside inside' same.symm
  have sorted : ∀ p ∈ Set.Ico middle finish,
      middle ≤ st''.place (st.suffix p) ∧ st''.place (st.suffix p) < finish := by
    intro p inside
    rw [← refined.suffix_eq inside]
    exact behind.inside p inside
  have part : ∀ p ∈ Set.Ico start finish, p ∈ Set.Ico start middle ∨ p ∈ Set.Ico middle finish := by
    intro p inside
    by_cases first : p < middle
    · exact .inl ⟨inside.1, first⟩
    · exact .inr ⟨Nat.not_lt.mp first, inside.2⟩
  refine ⟨behind.sized, fun p outside => ?_, fun {b} other => ?_, fun p inside => ?_,
    behind.orders, fun {p q} inside inside' differs same => ?_, ?_⟩
  · rw [behind.entries p fun held => outside ⟨Nat.le_trans low held.1, held.2⟩,
      refined.entries p fun held => outside ⟨held.1, Nat.lt_of_lt_of_le held.2 high⟩]
  · have others : ∀ p ∈ Set.Ico middle finish, st'.suffix p ≠ b := fun p inside =>
      refined.suffix_eq inside ▸ other p ⟨Nat.le_trans low inside.1, inside.2⟩
    rw [behind.places others, refined.places fun p inside =>
      other p ⟨inside.1, Nat.lt_of_lt_of_le inside.2 high⟩]
  · rcases part p inside with first | second
    · have own := refined.inside p first
      rw [kept p first]
      omega
    · have own := sorted p second
      omega
  · rcases part p inside with first | second <;> rcases part q inside' with first' | second'
    · rw [kept p first, kept q first'] at same
      exact refined.finer first first' differs same
    · have own := refined.inside p first
      have other := sorted q second'
      rw [kept p first] at same
      omega
    · have own := refined.inside q first'
      have other := sorted p second
      rw [kept q first'] at same
      omega
    · rw [← refined.suffix_eq second, ← refined.suffix_eq second'] at same ⊢
      exact behind.finer second second' differs same
  · refine (refined.blocks.apart (fun p inside => ?_) fun a _ => ?_).append behind.blocks
    · exact behind.entries p fun held => Nat.lt_irrefl p (Nat.lt_of_lt_of_le inside.2 held.1)
    · by_cases found : ∃ q ∈ Set.Ico middle finish, st.suffix q = a
      · obtain ⟨q, inside, rfl⟩ := found
        have own := sorted q inside
        have last := ready.last q ⟨Nat.le_trans low inside.1, inside.2⟩
        have := inside.1
        have := inside.2
        rw [refined.place_eq ready inside]
        exact .inr ⟨by omega, by omega⟩
      · exact .inl (behind.places fun q inside same =>
          found ⟨q, inside, refined.suffix_eq inside ▸ same⟩)

end Refined

section Assign

/-- A part of one entry is marked as sorted. -/
def markSingle (start finish : Nat) (st : SortState) : SortState :=
  if finish = start + 1 then { st with suffixArray := st.suffixArray.set start (-1) } else st

theorem temp_markSingle (start finish : Nat) (st : SortState) :
    (markSingle start finish st).suffixArrayTemp = st.suffixArrayTemp := by
  rw [markSingle]
  split
  · rfl
  · rfl

theorem place_markSingle (start finish : Nat) (st : SortState) :
    (markSingle start finish st).place = st.place :=
  funext fun suffix => congrArg (List.getD · suffix 0) (temp_markSingle start finish st)

theorem entry_markSingle (inside : start < st.suffixArray.length) (p : Nat) :
    (markSingle start finish st).entry p =
      if finish = start + 1 ∧ p = start then -1 else st.entry p := by
  rw [markSingle]
  by_cases single : finish = start + 1
  · rw [if_pos single]
    simp only [single, true_and]
    exact getD_set inside (-1) p
  · rw [if_neg single, if_neg fun held => single held.1]

/-- The orders of the other suffixes stay when the entries move to the last of their positions. -/
theorem Ready.orders_of_last (ready : Ready old h start finish st) (some_ : start < finish)
    {place' : Nat → Int} (own : ∀ p ∈ Set.Ico start finish, place' (st.suffix p) + 1 = finish)
    (others : ∀ b, (∀ p ∈ Set.Ico start finish, st.suffix p ≠ b) → place' b = st.place b) :
    Orders old h place' := by
  have cases_ : ∀ a, a ≤ old.length →
      (∃ p ∈ Set.Ico start finish, st.suffix p = a) ∨
        place' a = st.place a ∧ ∀ p ∈ Set.Ico start finish, st.suffix p ≠ a := by
    intro a _
    by_cases found : ∃ p ∈ Set.Ico start finish, st.suffix p = a
    · exact .inl found
    · have outside : ∀ p ∈ Set.Ico start finish, st.suffix p ≠ a := fun p inside same =>
        found ⟨p, inside, same⟩
      exact .inr ⟨others a outside, outside⟩
  refine ⟨fun {a b} le le' less => ?_, fun {a b} le le' differs same => ?_⟩
  · rcases cases_ a le with ⟨p, inside, rfl⟩ | ⟨place, outside⟩ <;>
      rcases cases_ b le' with ⟨q, inside', rfl⟩ | ⟨place', outside'⟩
    · have := own p inside
      have := own q inside'
      omega
    · have := own p inside
      rcases ready.apart le' outside' with ⟨low, -⟩ | ⟨high, all⟩
      · omega
      · exact all p inside
    · have := own q inside'
      rcases ready.apart le outside with ⟨low, all⟩ | ⟨high, -⟩
      · exact all q inside'
      · omega
    · exact ready.orders.before le le' (by omega)
  · rcases cases_ a le with ⟨p, inside, rfl⟩ | ⟨place, outside⟩ <;>
      rcases cases_ b le' with ⟨q, inside', rfl⟩ | ⟨place', outside'⟩
    · exact ready.alike p inside q inside'
    · have := own p inside
      rcases ready.apart le' outside' with ⟨low, -⟩ | ⟨high, -⟩
      · omega
      · omega
    · have := own q inside'
      rcases ready.apart le outside with ⟨low, -⟩ | ⟨high, -⟩
      · omega
      · omega
    · exact ready.orders.alike le le' differs (by omega)

/-- Entries that begin with the same bytes twice as far become a group, or a sorted suffix. -/
theorem Ready.assigned (ready : Ready old h start finish st) (some_ : start < finish)
    (equal : ∀ p ∈ Set.Ico start finish, ∀ q ∈ Set.Ico start finish, p ≠ q →
      SamePrefix old (h + h) (st.suffix p) (st.suffix q)) :
    ∃ st', assignRank start ((finish : Int) - 1) (finish - start) st = some st' ∧
      st'.Sized (old.length + 1) ∧ Refined old h start finish st (markSingle start finish st') := by
  have whole : start + (finish - start) = finish := by omega
  have reads : ∀ p ∈ Set.Ico start (start + (finish - start)),
      Reads (old.length + 1) 0 (st.entry p) := by
    rw [whole]
    exact fun p inside => ⟨ready.named p inside, Nat.lt_succ_of_le (ready.suffix_le inside)⟩
  have within := ready.within
  obtain ⟨st', assigned, entries, sized, own, others⟩ := @assignRank_spec (old.length + 1) start
    ((finish : Int) - 1) (finish - start) st ready.sized (by omega) reads
  rw [whole] at own others
  have position : start < st'.suffixArray.length := by
    rw [sized.entries]
    omega
  have entry_ : ∀ p, st'.entry p = st.entry p := fun p => congrArg (List.getD · p 0) entries
  have own' : ∀ p ∈ Set.Ico start finish, st'.place (st.suffix p) + 1 = finish := by
    intro p inside
    exact (congrArg (· + 1) (own p inside)).trans (Int.sub_add_cancel _ _)
  have outside : ∀ b, b < old.length + 1 → start ≤ st'.place b → st'.place b < finish →
      ∃ p ∈ Set.Ico start finish, st.suffix p = b := by
    intro b inside low high
    by_contra none_
    have other : ∀ p ∈ Set.Ico start finish, st.suffix p ≠ b := fun p inside same =>
      none_ ⟨p, inside, same⟩
    rw [others b other] at low high
    rcases ready.apart (Nat.le_of_lt_succ inside) other with ⟨below, -⟩ | ⟨above, -⟩
    · omega
    · omega
  refine ⟨st', assigned, sized, ?_⟩
  refine ⟨?_, fun p other => ?_, fun {b} other => ?_, fun p inside => ?_, ?_,
    fun {p q} inside inside' differs _ => equal p inside q inside' differs, ?_⟩
  · rw [markSingle]
    split
    · exact ⟨by rw [List.length_set, sized.entries], sized.places⟩
    · exact sized
  · have differs : p ≠ start := fun same => by
      rw [same] at other
      exact other ⟨Nat.le_refl _, some_⟩
    rw [entry_markSingle position, if_neg fun held => differs held.2, entry_]
  · rw [place_markSingle, others b other]
  · rw [place_markSingle]
    have := own' p inside
    omega
  · rw [place_markSingle]
    exact ready.orders_of_last some_ own' others
  · rw [place_markSingle]
    by_cases one : finish = start + 1
    · subst one
      have inside : start ∈ Set.Ico start (start + 1) := ⟨Nat.le_refl _, Nat.lt_succ_self _⟩
      refine .run 1 Nat.one_pos ?_ (fun p held => ?_) (.nil _)
      · rw [entry_markSingle position, if_pos ⟨rfl, rfl⟩]
        rfl
      · obtain ⟨low, high⟩ := held
        have only : p = start := by omega
        subst only
        refine ⟨st.suffix p, Nat.lt_succ_of_le (ready.suffix_le inside), fun b held => ?_⟩
        constructor
        · intro same
          obtain ⟨q, ⟨low', high'⟩, equal⟩ := outside b held (by omega) (by omega)
          have first : q = p := by omega
          rw [← equal, first]
        · rintro rfl
          have := own' p inside
          omega
    · have entries' : (markSingle start finish st').entry = st.entry := by
        funext p
        rw [entry_markSingle position, if_neg fun held => one held.1, entry_]
      rw [entries']
      refine .group (finish - start) (by omega) ?_ (whole.symm ▸ .nil _)
      rw [whole]
      refine ⟨fun p inside => ⟨ready.named p inside, ?_⟩, ready.distinct,
        fun {a} held low high => outside a held low high, own'⟩
      -- there is another entry with the same bytes
      obtain ⟨q, inside', differs⟩ : ∃ q ∈ Set.Ico start finish, p ≠ q := by
        by_cases first : p = start
        · exact ⟨start + 1, ⟨by omega, by omega⟩, by omega⟩
        · exact ⟨start, ⟨Nat.le_refl _, some_⟩, first⟩
      exact Nat.lt_succ_of_le (equal p inside q inside' differs).left

end Assign

theorem Refined.of_moved (moved : Moved start finish st st') (ready : Ready old h start finish st)
    (refined : Refined old h start finish st' st'') : Refined old h start finish st st'' := by
  have suffixes : Rearranged start finish st'.suffix st.suffix := by
    obtain ⟨σ, fixed, same⟩ := moved.entries.symm
    exact ⟨σ, fixed, fun p => congrArg Int.toNat (same p)⟩
  refine ⟨refined.sized, fun p outside => ?_, fun {b} other => ?_, fun p inside => ?_,
    refined.orders, fun {p q} inside inside' differs same => ?_, refined.blocks⟩
  · rw [refined.entries p outside, moved.entries.outside outside]
  · rw [refined.places (@Rearranged.forall_mem _ _ _ _ _ suffixes.symm (· ≠ b) other), moved.place]
  · obtain ⟨p', inside', equal⟩ := suffixes.exists_mem inside
    rw [equal]
    exact refined.inside p' inside'
  · obtain ⟨p', held, equal⟩ := suffixes.exists_mem inside
    obtain ⟨q', held', equal'⟩ := suffixes.exists_mem inside'
    have differs' : p' ≠ q' := fun also =>
      differs (ready.distinct inside inside' (equal.trans (also ▸ equal'.symm)))
    rw [equal, equal'] at same ⊢
    exact refined.finer held held' differs' same

theorem Ready.refined_empty (ready : Ready old h start start st) :
    Refined old h start start st st := by
  have none_ : ∀ p, p ∉ Set.Ico start start := fun p inside =>
    Nat.lt_irrefl p (Nat.lt_of_lt_of_le inside.2 inside.1)
  exact ⟨ready.sized, fun _ _ => rfl, fun _ => rfl, fun p inside => absurd inside (none_ p),
    ready.orders, fun inside => absurd inside (none_ _), .nil start⟩

/-- `SplitForLess` sorts the entries. -/
theorem splitForLess_spec (h finish : Nat) :
    ∀ (fuel start : Nat) (st : SortState), Ready old h start finish st → start ≤ finish →
      finish < start + fuel →
      ∃ st', splitForLess h finish fuel start st = some st' ∧ Refined old h start finish st st' := by
  intro fuel
  induction fuel with
  | zero =>
      intro start st _ le enough
      exact absurd enough (by omega)
  | succ fuel hypothesis =>
      intro start st ready le enough
      rw [splitForLess]
      by_cases more : start < finish
      · have inside : start ∈ Set.Ico start finish := ⟨Nat.le_refl _, more⟩
        have ranked := rank_eq ready.sized (Nat.lt_of_lt_of_le more ready.within)
          (ready.reads start inside)
        have begun : Collected st h start 1 1 (st.keyOf h (st.entry start)) := by
          refine ⟨Nat.le_refl 1, fun p held => ?_, fun p held => ?_⟩
          · have only : p = start := Nat.le_antisymm (Nat.le_of_lt_succ held.2) held.1
            rw [only]
          · exact absurd held.2 (Nat.not_lt.mpr held.1)
        obtain ⟨j, x, st₁, collected, some_, moved, least⟩ := collectLeast_spec ready.within
          (finish - start) 1 1 _ st ready.sized ready.reads Nat.one_pos (by omega) (by omega) begun
        have few := least.few
        have ready₁ := ready.moved moved
        have less : ∀ p ∈ Set.Ico start (start + j), ∀ q ∈ Set.Ico (start + j) finish,
            Before old (st₁.suffix p) (st₁.suffix q) := by
          intro p held q held'
          refine ready₁.before ⟨held.1, by have := held.2; omega⟩
            ⟨by have := held'.1; omega, held'.2⟩ ?_
          have low : st₁.keyAt h p = x := least.least p held
          rw [low]
          exact least.above q ⟨held'.1, by have := held'.2; omega⟩
        have equal : ∀ p ∈ Set.Ico start (start + j), ∀ q ∈ Set.Ico start (start + j), p ≠ q →
            SamePrefix old (h + h) (st₁.suffix p) (st₁.suffix q) := fun p held q held' differs =>
          ready₁.alike_double ⟨held.1, by have := held.2; omega⟩ ⟨held'.1, by have := held'.2; omega⟩
            differs ((least.least p held).trans (least.least q held').symm)
        obtain ⟨st₂, assigned, sized₂, refined⟩ :=
          (ready₁.left (by omega) less).assigned (by omega) equal
        obtain ⟨st₃, sorted, behind⟩ := hypothesis (start + j) _
          (refined.right ready₁ (by omega) less) (by omega) (by omega)
        refine ⟨st₃, ?_, .of_moved moved ready (refined.append behind ready₁ (by omega) (by omega))⟩
        have left : ((finish : Int) - (start : Int)).toNat = finish - start := by omega
        have number : (j : Int).toNat = start + j - start := by omega
        have position : start < st₂.suffixArray.length := by
          rw [sized₂.entries]
          have := ready.within
          omega
        have collected' : collectLeast h start finish ((finish : Int) - (start : Int)).toNat 1 1
            (st.keyOf h (st.entry start)) st = some ((j : Int), st₁) := left.symm ▸ collected
        have assigned' : assignRank start ((start : Int) + (j : Int) - 1) (j : Int).toNat st₁ =
            some st₂ := number.symm ▸ assigned
        rw [if_pos (by omega), ranked, Option.bind_eq_bind, Option.bind_some, collected',
          Option.bind_eq_bind, Option.bind_some]
        simp only [assigned', Option.bind_eq_bind, Option.bind_some]
        by_cases one : j = 1
        · subst one
          rw [markSingle, if_pos rfl] at sorted
          rw [if_pos Nat.cast_one, setAt_natCast position]
          exact sorted
        · rw [markSingle, if_neg (by omega)] at sorted
          rw [if_neg (by omega)]
          exact sorted
      · have same : start = finish := by omega
        subst same
        rw [if_neg (by omega)]
        exact ⟨st, rfl, ready.refined_empty⟩

/-- A part that may be empty is split. -/
theorem split_optional (h fuel : Nat)
    (sorts : ∀ (start finish : Nat) (st : SortState), Ready old h start finish st → start < finish →
      finish - start < fuel →
      ∃ st', split h fuel start ((finish - start : Nat) : Int) st = some st' ∧
        Refined old h start finish st st')
    (start finish : Nat) (st : SortState) (ready : Ready old h start finish st)
    (le : start ≤ finish) (enough : finish - start < fuel) :
    ∃ st', (if (finish : Int) > start then split h fuel start ((finish : Int) - start) st
        else pure st) = some st' ∧ Refined old h start finish st st' := by
  by_cases some_ : start < finish
  · rw [if_pos (by omega), show ((finish : Int) - start) = ((finish - start : Nat) : Int) by omega]
    exact sorts start finish st ready some_ enough
  · have same : start = finish := by omega
    subst same
    rw [if_neg (Int.lt_irrefl _)]
    exact ⟨st, rfl, ready.refined_empty⟩

/-- The entries are counted and swapped to the part of their keys. -/
theorem partition_spec {x : Int} {pivot : Nat} (ready : Ready old h start finish st)
    (inside : pivot ∈ Set.Ico start finish) (key : st.keyAt h pivot = x) :
    ∃ (below equal j k : Nat) (st₁ st₂ : SortState),
      countRanks h start x (finish - start) st = some ((below : Int), (equal : Int)) ∧ 0 < equal ∧
      start + below + equal ≤ finish ∧
      splitBelow h x (start + below : Nat) (start + below + equal : Nat) (finish - start + 1) start
        0 0 st = some ((j : Int), (k : Int), st₁) ∧
      splitEqual h x (start + below : Nat) (start + below + equal : Nat) (finish - start + 1) j k
        st₁ = some st₂ ∧
      Moved start finish st st₂ ∧ (∀ p ∈ Set.Ico start (start + below), st₂.keyAt h p < x) ∧
      (∀ p ∈ Set.Ico (start + below) (start + below + equal), st₂.keyAt h p = x) ∧
      ∀ p ∈ Set.Ico (start + below + equal) finish, x < st₂.keyAt h p := by
  have within := ready.within
  have whole : start + (finish - start) = finish := by
    have := inside.1
    have := inside.2
    omega
  have counted := @countRanks_spec st (old.length + 1) h start x ready.sized (finish - start)
    (by omega) (whole.symm ▸ ready.reads)
  rw [whole] at counted
  have cut := Cut.of_counts (st.keyAt h) x (by omega : start ≤ finish)
    (rfl : _ = st.countBelow h start finish x) (rfl : _ = st.countEqual h start finish x)
  have some_ : 0 < st.countEqual h start finish x := by
    refine Finset.card_pos.mpr ⟨pivot, ?_⟩
    rw [Finset.mem_filter, Finset.mem_Ico]
    exact ⟨inside, key⟩
  generalize st.countBelow h start finish x = below at counted cut
  generalize st.countEqual h start finish x = equal at counted cut some_
  have none_ : ∀ part p, p ∉ Set.Ico part (part + 0) := fun part p held =>
    Nat.lt_irrefl p (Nat.lt_of_lt_of_le held.2 held.1)
  have begun : Arranged (st.keyAt h) x start (start + below) (start + below + equal) start 0 0 :=
    ⟨fun p held => absurd held (none_ _ p), fun p held => absurd held (none_ _ p),
      fun p held => absurd held (none_ _ p)⟩
  have third := cut.third
  obtain ⟨j, k, st₁, first, moved, arranged, roomEqual, roomAbove⟩ := splitBelow_spec within
    (finish - start + 1) start 0 0 st ready.sized ready.reads cut begun (Nat.le_refl _) (by omega)
    (by omega) (by omega) (by omega)
  obtain ⟨k', st₂, second, moved', arranged'⟩ := splitEqual_spec within (finish - start + 1) j k st₁
    (moved.sized ready.sized) (moved.entries.forall_mem ready.reads) (moved.cut cut) arranged
    roomEqual roomAbove (by omega)
  have above := ((moved.trans moved').cut cut).above arranged'
  refine ⟨below, equal, j, k, st₁, st₂, counted, some_, third, first, second, moved.trans moved',
    arranged'.low, fun p held => ?_, above⟩
  exact arranged'.middle p ⟨held.1, by have := held.2; omega⟩

/-- The three parts are sorted one after the other. -/
theorem parts_refined {x : Int} {below equal fuel : Nat} (ready : Ready old h start finish st)
    (sorts : ∀ (start finish : Nat) (st : SortState), Ready old h start finish st → start < finish →
      finish - start < fuel →
      ∃ st', split h fuel start ((finish - start : Nat) : Int) st = some st' ∧
        Refined old h start finish st st')
    (low : start ≤ below) (some_ : below < equal) (high : equal ≤ finish)
    (enough : finish - start < fuel + 1)
    (keysBelow : ∀ p ∈ Set.Ico start below, st.keyAt h p < x)
    (keysEqual : ∀ p ∈ Set.Ico below equal, st.keyAt h p = x)
    (keysAbove : ∀ p ∈ Set.Ico equal finish, x < st.keyAt h p) :
    ∃ st₁ st₂ st₃, (if (below : Int) > start then split h fuel start ((below : Int) - start) st
        else pure st) = some st₁ ∧
      assignRank below ((equal : Int) - 1) (equal - below) st₁ = some st₂ ∧
      st₂.Sized (old.length + 1) ∧
      (if (finish : Int) > equal then
          split h fuel equal ((finish : Int) - equal) (markSingle below equal st₂)
        else pure (markSingle below equal st₂)) = some st₃ ∧
      Refined old h start finish st st₃ := by
  have part : ∀ p ∈ Set.Ico below finish, p ∈ Set.Ico below equal ∨ p ∈ Set.Ico equal finish := by
    intro p inside
    by_cases first : p < equal
    · exact .inl ⟨inside.1, first⟩
    · exact .inr ⟨Nat.not_lt.mp first, inside.2⟩
  have less : ∀ p ∈ Set.Ico start below, ∀ q ∈ Set.Ico below finish,
      Before old (st.suffix p) (st.suffix q) := by
    intro p inside q inside'
    refine ready.before ⟨inside.1, by have := inside.2; omega⟩
      ⟨by have := inside'.1; omega, inside'.2⟩ ?_
    have first := keysBelow p inside
    rcases part q inside' with second | third
    · have := keysEqual q second
      omega
    · have := keysAbove q third
      omega
  obtain ⟨st₁, sorted, refined⟩ := split_optional h fuel sorts start below st
    (ready.left (by omega) less) low (by omega)
  have ready₁ := refined.right ready low less
  have middle : ∀ p ∈ Set.Ico below equal, p ∈ Set.Ico below finish := fun p inside =>
    ⟨inside.1, by have := inside.2; omega⟩
  have late : ∀ p ∈ Set.Ico equal finish, p ∈ Set.Ico below finish := fun p inside =>
    ⟨by have := inside.1; omega, inside.2⟩
  have whole : ∀ p ∈ Set.Ico below finish, p ∈ Set.Ico start finish := fun p inside =>
    ⟨by have := inside.1; omega, inside.2⟩
  -- the keys were compared before the first part was sorted
  have less₁ : ∀ p ∈ Set.Ico below equal, ∀ q ∈ Set.Ico equal finish,
      Before old (st₁.suffix p) (st₁.suffix q) := by
    intro p inside q inside'
    rw [refined.suffix_eq (middle p inside), refined.suffix_eq (late q inside')]
    refine ready.before (whole p (middle p inside)) (whole q (late q inside')) ?_
    have := keysEqual p inside
    have := keysAbove q inside'
    omega
  have same : ∀ p ∈ Set.Ico below equal, ∀ q ∈ Set.Ico below equal, p ≠ q →
      SamePrefix old (h + h) (st₁.suffix p) (st₁.suffix q) := by
    intro p inside q inside' differs
    rw [refined.suffix_eq (middle p inside), refined.suffix_eq (middle q inside')]
    exact ready.alike_double (whole p (middle p inside)) (whole q (middle q inside')) differs
      ((keysEqual p inside).trans (keysEqual q inside').symm)
  obtain ⟨st₂, assigned, sized, refined₂⟩ := (ready₁.left high less₁).assigned some_ same
  obtain ⟨st₃, sorted₃, refined₃⟩ := split_optional h fuel sorts equal finish _
    (refined₂.right ready₁ (by omega) less₁) high (by omega)
  exact ⟨st₁, st₂, st₃, sorted, assigned, sized, sorted₃,
    refined.append (refined₂.append refined₃ ready₁ (by omega) high) ready low (by omega)⟩

theorem ite_bind {α β : Type} (condition : Prop) [Decidable condition] (first second : Option α)
    (next : α → Option β) : (if condition then first.bind next else second.bind next) =
      (if condition then first else second).bind next := by
  split
  · rfl
  · rfl

theorem setAt_markSingle (inside : start < st.suffixArray.length) :
    (if (start : Int) = (finish : Int) - 1 then setAt st.suffixArray start (-1)
      else pure st.suffixArray) = some (markSingle start finish st).suffixArray := by
  rw [markSingle]
  by_cases single : finish = start + 1
  · rw [if_pos single, if_pos (by omega), setAt_natCast inside]
  · rw [if_neg single, if_neg (by omega)]
    rfl

/-- `Split` sorts the entries. -/
theorem split_spec (h : Nat) :
    ∀ (fuel start finish : Nat) (st : SortState), Ready old h start finish st → start < finish →
      finish - start < fuel →
      ∃ st', split h fuel start ((finish - start : Nat) : Int) st = some st' ∧
        Refined old h start finish st st' := by
  intro fuel
  induction fuel with
  | zero =>
      intro start finish st _ _ enough
      exact absurd enough (by omega)
  | succ fuel hypothesis =>
      intro start finish st ready some_ enough
      have end_ : (start : Int) + ((finish - start : Nat) : Int) = (finish : Int) := by omega
      have number : ((finish - start : Nat) : Int).toNat = finish - start := Int.toNat_natCast _
      rw [split, end_, number]
      by_cases few : ((finish - start : Nat) : Int) < minLength
      · rw [if_pos few]
        exact splitForLess_spec h finish (finish - start + 1) start st ready (by omega) (by omega)
      · rw [if_neg few]
        -- the pivot is the key in the middle
        have middle : (start : Int) + ((finish - start : Nat) : Int) / (multipleTwo : Int) =
            ((start + (finish - start) / 2 : Nat) : Int) := rfl
        have pivot : start + (finish - start) / 2 ∈ Set.Ico start finish := ⟨by omega, by omega⟩
        have within := ready.within
        have ranked := rank_eq ready.sized (Nat.lt_of_lt_of_le pivot.2 within)
          (ready.reads _ pivot)
        obtain ⟨below, equal, j, k, st₁, st₂, counted, positive, high, first, second, moved,
          keysBelow, keysEqual, keysAbove⟩ := partition_spec ready pivot rfl
        have ready₂ := ready.moved moved
        obtain ⟨st₃, st₄, st₅, sorted, assigned, sized, sorted', refined⟩ :=
          parts_refined ready₂ hypothesis (by omega) (by omega) high (by omega) keysBelow keysEqual
            keysAbove
        refine ⟨st₅, ?_, .of_moved moved ready refined⟩
        have key : st.keyOf h (st.entry (start + (finish - start) / 2)) =
          st.keyAt h (start + (finish - start) / 2) := rfl
        have jj : (start : Int) + (below : Int) = ((start + below : Nat) : Int) := rfl
        have kk : ((start + below : Nat) : Int) + (equal : Int) =
          ((start + below + equal : Nat) : Int) := rfl
        have size : (((start + below + equal : Nat) : Int) - ((start + below : Nat) : Int)).toNat =
          start + below + equal - (start + below) := by omega
        have position : start + below < st₄.suffixArray.length := by
          rw [sized.entries]
          omega
        rw [middle, ranked, Option.bind_eq_bind, Option.bind_some, key, counted]
        simp only [Option.bind_eq_bind, Option.bind_some, jj, kk, first, second, size]
        rw [ite_bind, sorted, Option.bind_some, assigned, Option.bind_some, ite_bind,
          setAt_markSingle position, Option.bind_some,
          ← temp_markSingle (start + below) (start + below + equal) st₄]
        exact sorted'

end SortState

end Updater.DiffPatch
