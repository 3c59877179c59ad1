import Mathlib.Data.List.Basic

/-! Lists in which the elements of one key stand together: such a block is erased and
another one inserted where it ended. -/

set_option autoImplicit false

namespace Updater.Base

section

variable {α κ : Type} (key : α → κ)

/-- The elements of a key in a list, with what stands before and behind them. -/
structure KeyBlock (k : κ) (list before block behind : List α) : Prop where
  parts : list = before ++ block ++ behind
  inside : ∀ x ∈ block, key x = k
  before_other : ∀ x ∈ before, key x ≠ k
  behind_other : ∀ x ∈ behind, key x ≠ k

variable {key} {k other : κ} {list before block behind : List α}

theorem KeyBlock.absent (found : KeyBlock key k list before [] behind) :
    ∀ x ∈ list, key x ≠ k := by
  intro x member
  rw [found.parts, List.append_nil] at member
  exact (List.mem_append.mp member).elim (found.before_other x) (found.behind_other x)

/-- A list that starts with a block and has another one further on holds both whole. -/
theorem append_split_of_apart {front its back : List α} (notEmpty : its ≠ [])
    (apart : ∀ x ∈ block, x ∉ its) (same : block ++ behind = front ++ (its ++ back)) :
    ∃ middle, front = block ++ middle ∧ behind = middle ++ its ++ back := by
  rw [List.append_eq_append_iff] at same
  rcases same with ⟨middle, frontIs, behindIs⟩ | ⟨middle, blockIs, itsIs⟩
  · refine ⟨middle, frontIs, ?_⟩
    rw [behindIs, List.append_assoc]
  · cases middle with
    | nil =>
        rw [List.append_nil] at blockIs
        rw [List.nil_append] at itsIs
        refine ⟨[], ?_, ?_⟩
        · rw [blockIs, List.append_nil]
        · rw [← itsIs, List.nil_append]
    | cons x middle =>
        cases its with
        | nil => exact absurd rfl notEmpty
        | cons y its =>
            have heads : y = x := (List.cons.inj itsIs).1
            have inBlock : x ∈ block := by
              rw [blockIs]
              exact List.mem_append_right _ List.mem_cons_self
            exact absurd (heads ▸ List.mem_cons_self) (apart x inBlock)

/-- Where the blocks of two keys stand to each other. -/
theorem KeyBlock.apart (found : KeyBlock key k list before block behind) (notEmpty : block ≠ [])
    {front its back : List α} (others : KeyBlock key other list front its back)
    (itsNotEmpty : its ≠ []) (different : other ≠ k) :
    (∃ middle, front = before ++ block ++ middle ∧ behind = middle ++ its ++ back) ∨
      (∃ middle, before = front ++ its ++ middle ∧ back = middle ++ block ++ behind) := by
  have distinct : ∀ x ∈ block, x ∉ its := fun x inBlock inIts =>
    different ((others.inside x inIts).symm.trans (found.inside x inBlock))
  have same := found.parts.symm.trans others.parts
  rw [List.append_assoc, List.append_assoc, List.append_eq_append_iff] at same
  rcases same with ⟨middle, frontIs, rest⟩ | ⟨middle, beforeIs, rest⟩
  · obtain ⟨inner, middleIs, behindIs⟩ := append_split_of_apart itsNotEmpty distinct rest
    exact .inl ⟨inner, by rw [frontIs, middleIs, List.append_assoc], behindIs⟩
  · obtain ⟨inner, middleIs, backIs⟩ := append_split_of_apart notEmpty
      (fun x inIts inBlock => distinct x inBlock inIts) rest
    exact .inr ⟨inner, by rw [beforeIs, middleIs, List.append_assoc], backIs⟩

/-- A list has only one place for a block that is not empty. -/
theorem KeyBlock.unique (found : KeyBlock key k list before block behind)
    (notEmpty : block ≠ []) {front its back : List α}
    (again : KeyBlock key k list front its back) (itsNotEmpty : its ≠ []) :
    before = front ∧ block = its := by
  have one : ∀ {before block behind front its back : List α},
      KeyBlock key k list before block behind → KeyBlock key k list front its back →
      block ≠ [] → ∀ middle, front = before ++ middle →
        block ++ behind = middle ++ (its ++ back) → middle = [] := by
    intro before block behind front its back found again notEmpty middle frontIs rest
    cases middle with
    | nil => rfl
    | cons x middle =>
        cases block with
        | nil => exact absurd rfl notEmpty
        | cons y block =>
            have heads : y = x := (List.cons.inj rest).1
            have inFront : x ∈ front := by
              rw [frontIs]
              exact List.mem_append_right _ List.mem_cons_self
            exact absurd (heads ▸ found.inside y List.mem_cons_self) (again.before_other x inFront)
  have same := found.parts.symm.trans again.parts
  have sameFront : before = front := by
    have split := same
    rw [List.append_assoc, List.append_assoc, List.append_eq_append_iff] at split
    rcases split with ⟨middle, frontIs, rest⟩ | ⟨middle, beforeIs, rest⟩
    · rw [frontIs, one found again notEmpty middle frontIs rest, List.append_nil]
    · rw [beforeIs, one again found itsNotEmpty middle beforeIs rest, List.append_nil]
  refine ⟨sameFront, ?_⟩
  have longer : ∀ {block behind its back : List α} (middle : List α), its = block ++ middle →
      behind = middle ++ back → (∀ x ∈ its, key x = k) → (∀ x ∈ behind, key x ≠ k) →
      middle = [] := by
    intro block behind its back middle itsIs behindIs inside outside
    cases middle with
    | nil => rfl
    | cons x middle =>
        refine absurd (inside x ?_) (outside x ?_)
        · rw [itsIs]
          exact List.mem_append_right _ List.mem_cons_self
        · rw [behindIs]
          exact List.mem_append_left _ List.mem_cons_self
  rw [sameFront, List.append_assoc, List.append_assoc, List.append_cancel_left_eq,
    List.append_eq_append_iff] at same
  rcases same with ⟨middle, itsIs, behindIs⟩ | ⟨middle, blockIs, backIs⟩
  · rw [itsIs, longer middle itsIs behindIs again.inside found.behind_other, List.append_nil]
  · rw [blockIs, longer middle blockIs backIs found.inside again.behind_other, List.append_nil]

/-- An element of the key has an index in the block. -/
theorem KeyBlock.index (found : KeyBlock key k list before block behind) {i : Nat} {x : α}
    (at_ : list[i]? = some x) (same : key x = k) :
    ∃ j, i = before.length + j ∧ block[j]? = some x := by
  rw [found.parts, List.append_assoc] at at_
  rcases Nat.lt_or_ge i before.length with inBefore | behindBefore
  · rw [List.getElem?_append_left inBefore] at at_
    exact absurd same (found.before_other x (List.mem_of_getElem? at_))
  · rw [List.getElem?_append_right behindBefore] at at_
    rcases Nat.lt_or_ge (i - before.length) block.length with inBlock | past
    · rw [List.getElem?_append_left inBlock] at at_
      exact ⟨i - before.length, by omega, at_⟩
    · rw [List.getElem?_append_right past] at at_
      exact absurd same (found.behind_other x (List.mem_of_getElem? at_))

theorem KeyBlock.getElem? (found : KeyBlock key k list before block behind) {j : Nat} {x : α}
    (at_ : block[j]? = some x) : list[before.length + j]? = some x := by
  have within : j < block.length := by
    rw [List.getElem?_eq_some_iff] at at_
    exact at_.1
  rw [found.parts, List.append_assoc, List.getElem?_append_right (Nat.le_add_right _ _),
    Nat.add_sub_cancel_left, List.getElem?_append_left within, at_]

theorem KeyBlock.mem_block_iff (found : KeyBlock key k list before block behind) {x : α} :
    x ∈ block ↔ x ∈ list ∧ key x = k := by
  constructor
  · intro member
    refine ⟨?_, found.inside x member⟩
    rw [found.parts]
    exact List.mem_append_left _ (List.mem_append_right _ member)
  · rintro ⟨member, same⟩
    obtain ⟨i, at_⟩ := List.mem_iff_getElem?.mp member
    obtain ⟨j, -, inBlock⟩ := found.index at_ same
    exact List.mem_of_getElem? inBlock

end

section

variable {α κ : Type} [DecidableEq κ] (key : α → κ)

/-- Erases the elements of a key one by one; the position is behind the last one erased. -/
def eraseKey (k : κ) : List α → List α × Option Nat
  | [] => ([], none)
  | x :: list =>
      let (kept, position) := eraseKey k list
      if key x = k then (kept, some (position.getD 0)) else (x :: kept, position.map (· + 1))

/-- A block in the place of the elements erased, at the end where there were none. -/
def replaceKey (k : κ) (list block : List α) : List α :=
  let (kept, position) := eraseKey key k list
  kept.take (position.getD kept.length) ++ block ++ kept.drop (position.getD kept.length)

variable {key} {k : κ} {list before block behind added : List α}

theorem eraseKey_other (none : ∀ x ∈ list, key x ≠ k) : eraseKey key k list = (list, .none) := by
  induction list with
  | nil => rfl
  | cons x list ih =>
      rw [eraseKey, ih fun y member => none y (List.mem_cons_of_mem _ member)]
      exact if_neg (none x List.mem_cons_self)

theorem eraseKey_inside (inside : ∀ x ∈ block, key x = k) (notEmpty : block ≠ [])
    (behind_other : ∀ x ∈ behind, key x ≠ k) :
    eraseKey key k (block ++ behind) = (behind, some 0) := by
  induction block with
  | nil => exact absurd rfl notEmpty
  | cons x block ih =>
      have same := inside x List.mem_cons_self
      rw [List.cons_append, eraseKey]
      cases block with
      | nil =>
          rw [List.nil_append, eraseKey_other behind_other]
          exact if_pos same
      | cons y block =>
          rw [ih (fun z member => inside z (List.mem_cons_of_mem _ member)) (List.cons_ne_nil _ _)]
          exact if_pos same

theorem eraseKey_append (before_other : ∀ x ∈ before, key x ≠ k) (rest : List α) :
    eraseKey key k (before ++ rest) =
      (before ++ (eraseKey key k rest).1, (eraseKey key k rest).2.map (· + before.length)) := by
  induction before with
  | nil =>
      rw [List.nil_append, List.nil_append, List.length_nil]
      exact Prod.ext rfl (Option.map_id' (x := (eraseKey key k rest).2)).symm
  | cons x before ih =>
      rw [List.cons_append, eraseKey, ih fun y member => before_other y (List.mem_cons_of_mem _ member)]
      refine (if_neg (before_other x List.mem_cons_self)).trans ?_
      rw [Option.map_map]
      rfl

theorem eraseKey_position_le (k : κ) (list : List α) :
    (eraseKey key k list).2.getD (eraseKey key k list).1.length ≤
      (eraseKey key k list).1.length := by
  induction list with
  | nil => exact Nat.le_refl _
  | cons x list ih =>
      rw [eraseKey]
      cases erased : eraseKey key k list with
      | mk kept position =>
          rw [erased] at ih
          cases position with
          | none =>
              by_cases same : key x = k
              · simp [same]
              · simp [same]
          | some position =>
              by_cases same : key x = k
              · simpa [same] using ih
              · simpa [same] using ih

theorem eraseKey_kept_iff {k : κ} {list : List α} {x : α} :
    x ∈ (eraseKey key k list).1 ↔ x ∈ list ∧ key x ≠ k := by
  induction list with
  | nil => simp [eraseKey]
  | cons y list ih =>
      by_cases same : key y = k
      · have step : (eraseKey key k (y :: list)).1 = (eraseKey key k list).1 := by
          cases erased : eraseKey key k list with
          | mk kept position => simp only [eraseKey, erased, if_pos same]
        rw [step, ih, List.mem_cons]
        refine ⟨fun kept => ⟨.inr kept.1, kept.2⟩, fun kept => ⟨kept.1.resolve_left ?_, kept.2⟩⟩
        rintro rfl
        exact kept.2 same
      · have step : (eraseKey key k (y :: list)).1 = y :: (eraseKey key k list).1 := by
          cases erased : eraseKey key k list with
          | mk kept position => simp only [eraseKey, erased, if_neg same]
        rw [step, List.mem_cons, ih, List.mem_cons]
        constructor
        · rintro (rfl | kept)
          · exact ⟨.inl rfl, same⟩
          · exact ⟨.inr kept.1, kept.2⟩
        · rintro ⟨rfl | member, differs⟩
          · exact .inl rfl
          · exact .inr ⟨member, differs⟩

/-- What is inserted is the block of its key, wherever it is put. -/
theorem replaceKey_parts (k : κ) (list : List α) {added : List α}
    (addedInside : ∀ x ∈ added, key x = k) :
    ∃ before behind, (eraseKey key k list).1 = before ++ behind ∧
      (eraseKey key k list).2.getD (eraseKey key k list).1.length = before.length ∧
      KeyBlock key k (replaceKey key k list added) before added behind := by
  have within : (eraseKey key k list).2.getD (eraseKey key k list).1.length ≤
      (eraseKey key k list).1.length := eraseKey_position_le k list
  have others : ∀ x ∈ (eraseKey key k list).1, key x ≠ k :=
    fun x member => (eraseKey_kept_iff.mp member).2
  refine ⟨_, _, (List.take_append_drop ((eraseKey key k list).2.getD
      (eraseKey key k list).1.length) _).symm, (List.length_take_of_le within).symm, rfl,
    addedInside, ?_, ?_⟩
  · exact fun x member => others x (List.mem_of_mem_take member)
  · exact fun x member => others x (List.mem_of_mem_drop member)

theorem mem_replaceKey_iff {x : α} :
    x ∈ replaceKey key k list added ↔ x ∈ added ∨ x ∈ list ∧ key x ≠ k := by
  have kept := List.take_append_drop ((eraseKey key k list).2.getD
    (eraseKey key k list).1.length) (eraseKey key k list).1
  rw [← eraseKey_kept_iff, ← congrArg (x ∈ ·) kept, replaceKey, List.mem_append, List.mem_append,
    List.mem_append, @or_comm (x ∈ List.take _ _), or_assoc]

/-- The erased block leaves its place to what is inserted. -/
theorem KeyBlock.replaceKey (found : KeyBlock key k list before block behind)
    (notEmpty : block ≠ []) (added : List α) :
    replaceKey key k list added = before ++ added ++ behind := by
  rw [Base.replaceKey, found.parts, List.append_assoc, eraseKey_append found.before_other,
    eraseKey_inside found.inside notEmpty found.behind_other]
  simp only [Option.map_some, Option.getD_some, Nat.zero_add]
  rw [List.take_left, List.drop_left]

theorem replaceKey_absent (none : ∀ x ∈ list, key x ≠ k) (added : List α) :
    replaceKey key k list added = list ++ added := by
  rw [replaceKey, eraseKey_other none]
  simp only [Option.getD_none]
  rw [List.take_length, List.drop_length, List.append_nil]

/-- The elements of other keys stay, in their order. -/
theorem filter_replaceKey (found : KeyBlock key k list before block behind)
    (addedInside : ∀ x ∈ added, key x = k) :
    (Base.replaceKey key k list added).filter (fun x => key x ≠ k) =
      list.filter (fun x => key x ≠ k) := by
  have gone : ∀ xs : List α, (∀ x ∈ xs, key x = k) → xs.filter (fun x => key x ≠ k) = [] := by
    intro xs inside
    rw [List.filter_eq_nil_iff]
    intro x member
    simp [inside x member]
  by_cases empty : block = []
  · subst empty
    rw [replaceKey_absent found.absent, List.filter_append, gone added addedInside, List.append_nil]
  · rw [found.replaceKey empty, found.parts]
    simp only [List.filter_append, gone added addedInside, gone block found.inside]

theorem KeyBlock.takeWhile (found : KeyBlock key k list before block behind)
    (notEmpty : block ≠ []) : list.takeWhile (fun x => key x ≠ k) = before := by
  cases block with
  | nil => exact absurd rfl notEmpty
  | cons y block =>
      have same := found.inside y List.mem_cons_self
      rw [found.parts, List.append_assoc, List.takeWhile_append_of_pos, List.cons_append,
        List.takeWhile_cons_of_neg, List.append_nil]
      · simpa using same
      · intro x member
        simpa using found.before_other x member

/-- The block of another key stays; its place is the same where no elements of the replaced
key stood before it, or as many do as before. -/
theorem KeyBlock.moved (found : KeyBlock key k list before block behind)
    (addedInside : ∀ x ∈ added, key x = k) {other : κ} {front its back : List α}
    (others : KeyBlock key other list front its back) (itsNotEmpty : its ≠ [])
    (different : other ≠ k) :
    ∃ front' back', KeyBlock key other (Base.replaceKey key k list added) front' its back' ∧
      (front'.length = front.length ↔
        front.countP (fun x => key x = k) = 0 ∨
          front.countP (fun x => key x = k) = added.length) := by
  have addedOther : ∀ x ∈ added, key x ≠ other := fun x member same =>
    different (same.symm.trans (addedInside x member))
  have noneOf : ∀ {xs : List α}, (∀ x ∈ xs, key x ≠ k) → xs.countP (fun x => key x = k) = 0 := by
    intro xs none
    rw [List.countP_eq_zero]
    intro x member
    simpa using none x member
  have allOf : block.countP (fun x => key x = k) = block.length := by
    rw [List.countP_eq_length]
    intro x member
    simpa using found.inside x member
  by_cases empty : block = []
  · subst empty
    refine ⟨front, back ++ added, ⟨?_, others.inside, others.before_other, ?_⟩, ?_⟩
    · rw [replaceKey_absent found.absent, others.parts, List.append_assoc]
    · intro x member
      exact (List.mem_append.mp member).elim (others.behind_other x) (addedOther x)
    · refine iff_of_true rfl (.inl (noneOf fun x member => found.absent x ?_))
      rw [others.parts, List.append_assoc]
      exact List.mem_append_left _ member
  · have inserted := found.replaceKey empty added
    rcases found.apart empty others itsNotEmpty different with
      ⟨middle, frontIs, behindIs⟩ | ⟨middle, beforeIs, backIs⟩
    · refine ⟨before ++ added ++ middle, back, ⟨?_, others.inside, ?_, others.behind_other⟩, ?_⟩
      · rw [inserted, behindIs]
        simp only [List.append_assoc]
      · intro x member
        rcases List.mem_append.mp member with earlier | inMiddle
        · rcases List.mem_append.mp earlier with inBefore | inAdded
          · refine others.before_other x ?_
            rw [frontIs, List.append_assoc]
            exact List.mem_append_left _ inBefore
          · exact addedOther x inAdded
        · refine others.before_other x ?_
          rw [frontIs]
          exact List.mem_append_right _ inMiddle
      · have middleOther : ∀ x ∈ middle, key x ≠ k := fun x member => found.behind_other x (by
          rw [behindIs, List.append_assoc]
          exact List.mem_append_left _ member)
        have positive : 0 < block.length := List.length_pos_iff.mpr empty
        rw [frontIs, List.countP_append, List.countP_append, noneOf found.before_other, allOf,
          noneOf middleOther]
        simp only [List.length_append]
        omega
    · refine ⟨front, middle ++ added ++ behind,
        ⟨?_, others.inside, others.before_other, ?_⟩, ?_⟩
      · rw [inserted, beforeIs]
        simp only [List.append_assoc]
      · intro x member
        rcases List.mem_append.mp member with earlier | inBehind
        · rcases List.mem_append.mp earlier with inMiddle | inAdded
          · refine others.behind_other x ?_
            rw [backIs, List.append_assoc]
            exact List.mem_append_left _ inMiddle
          · exact addedOther x inAdded
        · refine others.behind_other x ?_
          rw [backIs]
          exact List.mem_append_right _ inBehind
      · refine iff_of_true rfl (.inl (noneOf fun x member => found.before_other x ?_))
        rw [beforeIs, List.append_assoc]
        exact List.mem_append_left _ member

end

end Updater.Base
