import Updater.DiffPatch.SuffixSplit

/-! The rounds of `SuffixArray::Init`: each one sorts the suffixes by twice as many bytes, until all
of them are one sorted run. -/

set_option autoImplicit false

namespace Updater.DiffPatch

open Updater.Base

namespace SortState

/-- The suffixes are sorted by their first `h` bytes. -/
structure Sorting (old : Bytes) (h : Nat) (st : SortState) : Prop where
  sized : st.Sized (old.length + 1)
  bounded {a : Nat} : a ≤ old.length → 0 ≤ st.place a ∧ st.place a < old.length + 1
  orders : Orders old h st.place
  blocks : Blocks (old.length + 1) h st.entry st.place 0 (old.length + 1)

/-- A round has come to position `i`. Before `opened` the blocks are those of the next round, and up
to `i` there are sorted suffixes whose run is not marked yet. -/
structure RoundAt (old : Bytes) (h opened i : Nat) (st : SortState) : Prop where
  sized : st.Sized (old.length + 1)
  bounded {a : Nat} : a ≤ old.length → 0 ≤ st.place a ∧ st.place a < old.length + 1
  orders : Orders old h st.place
  le : opened ≤ i
  done : Blocks (old.length + 1) (h + h) st.entry st.place 0 opened
  single : ∀ p ∈ Set.Ico opened i, Single (old.length + 1) st.place p
  ahead : Blocks (old.length + 1) h st.entry st.place i (old.length + 1)
  finer {a b : Nat} : a ≤ old.length → b ≤ old.length → a ≠ b → st.place a = st.place b →
    st.place a < i → SamePrefix old (h + h) a b

/-- The run before `i` is marked with its length. -/
def closeRun (opened i : Nat) (st : SortState) : SortState :=
  if opened < i then { st with suffixArray := st.suffixArray.set opened (-((i - opened : Nat) : Int)) }
  else st

variable {old : Bytes} {h opened i : Nat} {st st' : SortState}

theorem temp_closeRun (opened i : Nat) (st : SortState) :
    (closeRun opened i st).suffixArrayTemp = st.suffixArrayTemp := by
  rw [closeRun]
  split
  · rfl
  · rfl

theorem place_closeRun (opened i : Nat) (st : SortState) : (closeRun opened i st).place = st.place :=
  funext fun suffix => congrArg (List.getD · suffix 0) (temp_closeRun opened i st)

theorem entry_closeRun (inside : i ≤ st.suffixArray.length) (p : Nat) :
    (closeRun opened i st).entry p =
      if opened < i ∧ p = opened then -((i - opened : Nat) : Int) else st.entry p := by
  rw [closeRun]
  by_cases some_ : opened < i
  · rw [if_pos some_]
    simp only [some_, true_and]
    exact getD_set (Nat.lt_of_lt_of_le some_ inside) _ p
  · rw [if_neg some_, if_neg fun held => some_ held.1]

theorem sized_closeRun {count : Nat} (sized : st.Sized count) (opened i : Nat) :
    (closeRun opened i st).Sized count := by
  rw [closeRun]
  split
  · exact ⟨by rw [List.length_set, sized.entries], sized.places⟩
  · exact sized

theorem setAt_closeRun (inside : i ≤ st.suffixArray.length) (le : opened ≤ i) :
    (if (i : Int) - opened ≠ 0 then
        setAt st.suffixArray ((i : Int) - ((i : Int) - opened)) (-((i : Int) - opened))
      else pure st.suffixArray) = some (closeRun opened i st).suffixArray := by
  have back : (i : Int) - ((i : Int) - opened) = (opened : Int) := by omega
  have length : (i : Int) - opened = ((i - opened : Nat) : Int) := by omega
  rw [closeRun, back, length]
  by_cases some_ : opened < i
  · rw [if_pos some_, if_pos (by omega), setAt_natCast (Nat.lt_of_lt_of_le some_ inside)]
  · rw [if_neg some_, if_neg (by omega)]
    rfl

namespace RoundAt

/-- The marked run completes the blocks before `i`. -/
theorem closed (at_ : RoundAt old h opened i st) :
    Blocks (old.length + 1) (h + h) (closeRun opened i st).entry st.place 0 i := by
  have inside : i ≤ st.suffixArray.length := at_.sized.entries.symm ▸ at_.ahead.le
  have le := at_.le
  have before : Blocks (old.length + 1) (h + h) (closeRun opened i st).entry st.place 0 opened := by
    refine at_.done.apart (fun p held => ?_) fun _ _ => .inl rfl
    have early := held.2
    rw [entry_closeRun inside, if_neg fun other => by omega]
  by_cases some_ : opened < i
  · have whole : opened + (i - opened) = i := by omega
    refine before.append (.run (i - opened) (by omega) ?_ ?_ (whole.symm ▸ .nil i))
    · rw [entry_closeRun inside, if_pos ⟨some_, rfl⟩]
    · rw [whole]
      exact at_.single
  · have same : opened = i := by omega
    exact same ▸ before

theorem entry_ahead (at_ : RoundAt old h opened i st) {p : Nat} (late : i ≤ p) :
    (closeRun opened i st).entry p = st.entry p := by
  have inside : i ≤ st.suffixArray.length := at_.sized.entries.symm ▸ at_.ahead.le
  rw [entry_closeRun inside, if_neg fun other => by omega]

/-- Behind a sorted run. -/
theorem skip {length : Nat} (at_ : RoundAt old h opened i st)
    (single : ∀ p ∈ Set.Ico i (i + length), Single (old.length + 1) st.place p)
    (rest : Blocks (old.length + 1) h st.entry st.place (i + length) (old.length + 1)) :
    RoundAt old h opened (i + length) st := by
  refine ⟨at_.sized, at_.bounded, at_.orders, Nat.le_add_right_of_le at_.le, at_.done,
    fun p inside => ?_, rest, fun {a b} le le' differs same low => ?_⟩
  · by_cases early : p < i
    · exact at_.single p ⟨inside.1, early⟩
    · exact single p ⟨Nat.not_lt.mp early, inside.2⟩
  · by_cases early : st.place a < i
    · exact at_.finer le le' differs same early
    · have bounded := at_.bounded le
      obtain ⟨p, place⟩ := Int.eq_ofNat_of_zero_le bounded.1
      obtain ⟨own, -, only⟩ := single p ⟨by omega, by omega⟩
      have first := (only a (Nat.lt_succ_of_le le)).mp place
      have second := (only b (Nat.lt_succ_of_le le')).mp (same ▸ place)
      exact absurd (first.trans second.symm) differs

/-- A group is ready to be split. -/
theorem ready {length : Nat} (at_ : RoundAt old h opened i st)
    (group : Group (old.length + 1) h st.entry st.place i (i + length))
    (rest : Blocks (old.length + 1) h st.entry st.place (i + length) (old.length + 1)) :
    Ready old h i (i + length) (closeRun opened i st) := by
  have suffix_ : ∀ p ∈ Set.Ico i (i + length),
      (closeRun opened i st).suffix p = (st.entry p).toNat := fun p inside =>
    congrArg Int.toNat (at_.entry_ahead inside.1)
  have le : ∀ p ∈ Set.Ico i (i + length), (st.entry p).toNat ≤ old.length := fun p inside => by
    have := (group.reads p inside).2
    omega
  refine ⟨sized_closeRun at_.sized opened i, rest.le, fun p inside => ?_,
    fun p inside q inside' same => ?_, fun p inside q inside' => ?_,
    place_closeRun opened i st ▸ at_.orders, fun {b} held other => ?_, fun p inside => ?_⟩
  · rw [at_.entry_ahead inside.1]
    exact (group.reads p inside).1
  · rw [suffix_ p inside, suffix_ q inside'] at same
    exact group.distinct inside inside' same
  · rw [suffix_ p inside, suffix_ q inside']
    by_cases same : (st.entry p).toNat = (st.entry q).toNat
    · rw [same]
      exact .refl (Nat.le_of_lt_succ (group.reads q inside').2)
    · have last := group.places p inside
      have last' := group.places q inside'
      exact at_.orders.alike (le p inside) (le q inside') same (by omega)
  · rw [place_closeRun]
    have outside : ¬ (i ≤ st.place b ∧ st.place b < (i + length : Nat)) := fun within => by
      obtain ⟨p, inside, same⟩ := group.members (Nat.lt_succ_of_le held) within.1 within.2
      exact other p inside ((suffix_ p inside).trans same)
    by_cases low : st.place b < i
    · refine .inl ⟨low, fun p inside => ?_⟩
      have last := group.places p inside
      rw [suffix_ p inside]
      exact at_.orders.before held (le p inside) (by have := inside.1; have := inside.2; omega)
    · have high : ((i + length : Nat) : Int) ≤ st.place b := by omega
      refine .inr ⟨high, fun p inside => ?_⟩
      have last := group.places p inside
      rw [suffix_ p inside]
      exact at_.orders.before (le p inside) held (by omega)
  · rw [place_closeRun, suffix_ p inside]
    exact Int.le_of_eq (group.places p inside).symm

/-- Behind a group that has been split. -/
theorem split {length : Nat} (at_ : RoundAt old h opened i st)
    (group : Group (old.length + 1) h st.entry st.place i (i + length))
    (rest : Blocks (old.length + 1) h st.entry st.place (i + length) (old.length + 1))
    (refined : Refined old h i (i + length) (closeRun opened i st) st') :
    RoundAt old h (i + length) (i + length) st' := by
  have ready := at_.ready group rest
  have le := rest.le
  -- the other suffixes keep their places, which are on either side
  have others : ∀ a, a < old.length + 1 →
      (∃ p ∈ Set.Ico i (i + length), (closeRun opened i st).suffix p = a) ∨
        st'.place a = st.place a ∧ ¬ (i ≤ st.place a ∧ st.place a < (i + length : Nat)) := by
    intro a inside
    by_cases found : ∃ p ∈ Set.Ico i (i + length), (closeRun opened i st).suffix p = a
    · exact .inl found
    · have outside : ∀ p ∈ Set.Ico i (i + length), (closeRun opened i st).suffix p ≠ a :=
        fun p held same => found ⟨p, held, same⟩
      have kept := refined.places outside
      rw [place_closeRun] at kept
      refine .inr ⟨kept, fun within => ?_⟩
      rcases ready.apart (Nat.le_of_lt_succ inside) outside with ⟨low, -⟩ | ⟨high, -⟩ <;>
        rw [place_closeRun] at * <;> omega
  have apart : ∀ start finish, finish ≤ i ∨ i + length ≤ start →
      PlacedApart (old.length + 1) start finish st.place st'.place := by
    intro start finish outside a inside
    rcases others a inside with ⟨p, held, rfl⟩ | ⟨same, -⟩
    · have own := refined.inside p held
      have last := ready.last p held
      have upper := group.places p held
      rw [place_closeRun] at last
      have suffix_ : (closeRun opened i st).suffix p = (st.entry p).toNat :=
        congrArg Int.toNat (at_.entry_ahead held.1)
      rw [← suffix_] at upper
      have := held.1
      have := held.2
      exact .inr ⟨by omega, by omega⟩
    · exact .inl same
  refine ⟨refined.sized, fun {a} held => ?_, refined.orders, Nat.le_refl _, ?_,
    fun p held => absurd held.2 (Nat.not_lt.mpr held.1), ?_,
    fun {a b} held held' differs same low => ?_⟩
  · rcases others a (Nat.lt_succ_of_le held) with ⟨p, inside, rfl⟩ | ⟨kept, -⟩
    · have own := refined.inside p inside
      omega
    · rw [kept]
      exact at_.bounded held
  · refine Blocks.append ((at_.closed).apart (fun p inside => ?_) (apart 0 i (.inl (Nat.le_refl i))))
      refined.blocks
    exact refined.entries p fun held => Nat.lt_irrefl p (Nat.lt_of_lt_of_le inside.2 held.1)
  · refine rest.apart (fun p inside => ?_) (apart _ _ (.inr (Nat.le_refl _)))
    rw [refined.entries p fun held => Nat.lt_irrefl p (Nat.lt_of_lt_of_le held.2 inside.1)]
    exact at_.entry_ahead (Nat.le_trans (Nat.le_add_right i length) inside.1)
  · rcases others a (Nat.lt_succ_of_le held) with ⟨p, inside, rfl⟩ | ⟨kept, outside⟩ <;>
      rcases others b (Nat.lt_succ_of_le held') with ⟨q, inside', rfl⟩ | ⟨kept', outside'⟩
    · exact refined.finer inside inside' (fun equal => differs (equal ▸ rfl)) same
    · have own := refined.inside p inside
      omega
    · have own := refined.inside q inside'
      omega
    · exact at_.finer held held' differs (by omega) (by omega)

/-- At the end the last run is marked. -/
theorem finished (at_ : RoundAt old h opened (old.length + 1) st) :
    Sorting old (h + h) (closeRun opened (old.length + 1) st) := by
  refine ⟨sized_closeRun at_.sized _ _, fun {a} held => ?_, ?_, ?_⟩
  · rw [place_closeRun]
    exact at_.bounded held
  · rw [place_closeRun]
    exact ⟨at_.orders.before, fun held held' differs same =>
      at_.finer held held' differs same (at_.bounded held).2⟩
  · rw [place_closeRun]
    exact at_.closed

end RoundAt

/-- The rest of a round. Where no suffix has `h` bytes, all is joined to one run. -/
theorem sortRound_spec (old : Bytes) (h : Nat) :
    ∀ (fuel opened i : Nat) (st : SortState), RoundAt old h opened i st →
      old.length + 1 < i + fuel →
      ∃ st', sortRound h (old.length + 1 : Nat) fuel i ((i : Int) - opened) st = some st' ∧
        Sorting old (h + h) st' ∧
        (old.length < h → opened = 0 → st'.entry 0 = -((old.length + 1 : Nat) : Int)) := by
  intro fuel
  induction fuel with
  | zero =>
      intro opened i st at_ enough
      have := at_.ahead.le
      exact absurd enough (by omega)
  | succ fuel hypothesis =>
      intro opened i st at_ enough
      have inside : i ≤ st.suffixArray.length := at_.sized.entries.symm ▸ at_.ahead.le
      have le := at_.le
      rw [sortRound]
      cases at_.ahead with
      | nil =>
          rw [if_neg (Int.lt_irrefl _)]
          refine ⟨closeRun opened (old.length + 1) st, ?_, at_.finished, fun _ first => ?_⟩
          · have closing := setAt_closeRun inside le
            by_cases some_ : opened < old.length + 1
            · rw [if_pos (by omega)] at closing ⊢
              rw [closing, Option.bind_eq_bind, Option.bind_some,
                ← temp_closeRun opened (old.length + 1) st]
              rfl
            · rw [if_neg (by omega), closeRun, if_neg some_]
              rfl
          · rw [entry_closeRun inside, if_pos ⟨by omega, first.symm⟩, first]
            rfl
      | run length some_ marked single rest =>
          have long := rest.le
          have position : i < st.suffixArray.length := by
            rw [at_.sized.entries]
            omega
          have read : getAt st.suffixArray i = some (-(length : Int)) :=
            (getAt_natCast position).trans (congrArg some marked)
          obtain ⟨st', sorted, result⟩ :=
            hypothesis opened (i + length) st (at_.skip single rest) (by omega)
          refine ⟨st', ?_, result⟩
          rw [if_pos (by omega), read, Option.bind_eq_bind, Option.bind_some, if_pos (by omega)]
          have next : (i : Int) - -(length : Int) = ((i + length : Nat) : Int) := by omega
          have more : (i : Int) - (opened : Int) - -(length : Int) =
              ((i + length : Nat) : Int) - (opened : Int) := by omega
          rw [next, more]
          exact sorted
      | group length some_ group rest =>
          have long := rest.le
          have own : i ∈ Set.Ico i (i + length) := ⟨Nat.le_refl i, by omega⟩
          obtain ⟨positive, reach⟩ := group.reads i own
          have position : i < st.suffixArray.length := by
            rw [at_.sized.entries]
            omega
          have read : getAt st.suffixArray i = some (st.entry i) := getAt_natCast position
          obtain ⟨st₁, split_, refined⟩ := split_spec h (old.length + 1 + 1) i (i + length) _
            (at_.ready group rest) (by omega) (by omega)
          obtain ⟨st', sorted, result⟩ :=
            hypothesis (i + length) (i + length) st₁ (at_.split group rest refined) (by omega)
          refine ⟨st', ?_, result.1, fun large _ => ?_⟩
          · have position' : i < (closeRun opened i st).suffixArray.length := by
              rw [(sized_closeRun at_.sized opened i).entries]
              omega
            have read' : getAt (closeRun opened i st).suffixArray i = some (st.entry i) :=
              (getAt_natCast position').trans (congrArg some (at_.entry_ahead (Nat.le_refl i)))
            have last := group.places i own
            obtain ⟨suffix, named⟩ := Int.eq_ofNat_of_zero_le positive
            rw [named, Int.toNat_natCast] at last reach
            have within : suffix < st.suffixArrayTemp.length := by
              rw [at_.sized.places]
              omega
            have place_ : getAt st.suffixArrayTemp (suffix : Int) = some (st.place suffix) :=
              getAt_natCast within
            have length_ : st.place suffix + 1 - (i : Int) = ((i + length - i : Nat) : Int) := by
              omega
            have next : (i : Int) + ((i + length - i : Nat) : Int) = ((i + length : Nat) : Int) := by
              omega
            have zero : ((i + length : Nat) : Int) - ((i + length : Nat) : Int) = 0 := Int.sub_self _
            rw [zero] at sorted
            rw [if_pos (by omega), read, Option.bind_eq_bind, Option.bind_some,
              if_neg (Int.not_lt.mpr positive)]
            simp only [Option.bind_eq_bind]
            rw [ite_bind, setAt_closeRun inside le, Option.bind_some]
            simp only [read', named, Option.bind_some, place_, length_, Int.toNat_natCast, next]
            rw [← temp_closeRun opened i st]
            exact (congrArg (Option.bind · _) split_).trans sorted
          · exact absurd reach (by omega)

/-- A round sorts by twice as many bytes. -/
theorem sortRound_sorting (sorting : Sorting old h st) :
    ∃ st', sortRound h (old.length + 1 : Nat) (((old.length + 1 : Nat) : Int).toNat + 1) 0 0 st =
        some st' ∧ Sorting old (h + h) st' ∧
      (old.length < h → st'.entry 0 = -((old.length + 1 : Nat) : Int)) := by
  have none_ : ∀ a, a ≤ old.length → ¬ st.place a < (0 : Nat) := fun a held => by
    have := (sorting.bounded held).1
    omega
  have begun : RoundAt old h 0 0 st :=
    ⟨sorting.sized, sorting.bounded, sorting.orders, Nat.le_refl 0, .nil 0,
      fun p inside => absurd inside.2 (Nat.not_lt_zero p), sorting.blocks,
      fun held _ _ _ low => absurd low (none_ _ held)⟩
  obtain ⟨st', sorted, result, joined⟩ :=
    sortRound_spec old h (old.length + 1 + 1) 0 0 st begun (by omega)
  exact ⟨st', sorted, result, fun large => joined large rfl⟩

/-- The rounds end with one sorted run. -/
theorem sortRounds_spec (old : Bytes) :
    ∀ (fuel h : Nat) (st : SortState), Sorting old h st → 0 < h →
      st.entry 0 = -((old.length + 1 : Nat) : Int) ∧ 0 < fuel ∨
        1 < fuel ∧ old.length + 3 ≤ h + fuel →
      ∃ (h' : Nat) (st' : SortState), sortRounds (old.length + 1 : Nat) fuel h st = some st' ∧
        Sorting old h' st' ∧ st'.entry 0 = -((old.length + 1 : Nat) : Int) := by
  intro fuel
  induction fuel with
  | zero =>
      intro h st _ _ enough
      exact absurd enough (by omega)
  | succ fuel hypothesis =>
      intro h st sorting positive enough
      have position : 0 < st.suffixArray.length := by
        rw [sorting.sized.entries]
        omega
      have read : getAt st.suffixArray 0 = some (st.entry 0) := getAt_natCast position
      rw [sortRounds, read, Option.bind_eq_bind, Option.bind_some]
      by_cases joined : st.entry 0 = -((old.length + 1 : Nat) : Int)
      · rw [if_pos joined]
        exact ⟨h, st, rfl, sorting, joined⟩
      · rw [if_neg joined]
        have rounds := enough.resolve_left fun held => joined held.1
        obtain ⟨st₁, round, sorting₁, last⟩ := sortRound_sorting sorting
        obtain ⟨h', st', sorted, result⟩ := hypothesis (h + h) st₁ sorting₁ (by omega) (by
          by_cases large : old.length < h
          · exact .inl ⟨last large, by omega⟩
          · exact .inr ⟨by omega, by omega⟩)
        exact ⟨h', st', (congrArg (Option.bind · _) round).trans sorted, result⟩

/-- Behind the last round each position is the place of one suffix. -/
theorem Sorting.single (sorting : Sorting old h st)
    (joined : st.entry 0 = -((old.length + 1 : Nat) : Int)) :
    ∀ p, p < old.length + 1 → Single (old.length + 1) st.place p := by
  cases sorting.blocks with
  | run length some_ marked single rest =>
      have whole : length = old.length + 1 := by omega
      exact fun p inside => single p ⟨Nat.zero_le p, by omega⟩
  | group length some_ group rest =>
      have positive := (group.reads 0 ⟨Nat.le_refl 0, by omega⟩).1
      exact absurd positive (by omega)

end SortState

end Updater.DiffPatch
