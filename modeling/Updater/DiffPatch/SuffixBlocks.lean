import Updater.Base.SuffixOrder
import Updater.DiffPatch.SuffixCells

/-! What the arrays of `SuffixArray` say between two steps: the places order the suffixes, and the
entries are runs of sorted suffixes and groups of unsorted ones. -/

set_option autoImplicit false

namespace Updater.DiffPatch

open Updater.Base

/-- The places order the suffixes; those at the same place begin with the same `h` bytes. -/
structure Orders (old : Bytes) (h : Nat) (place : Nat → Int) : Prop where
  before {a b : Nat} : a ≤ old.length → b ≤ old.length → place a < place b → Before old a b
  alike {a b : Nat} : a ≤ old.length → b ≤ old.length → a ≠ b → place a = place b →
    SamePrefix old h a b

/-- Exactly one suffix is at the position. -/
def Single (count : Nat) (place : Nat → Int) (p : Nat) : Prop :=
  ∃ a, a < count ∧ ∀ b, b < count → (place b = p ↔ b = a)

/-- The entries are the suffixes that share the last of these positions, and no other suffix is at
any of them. -/
structure Group (count h : Nat) (entry place : Nat → Int) (start finish : Nat) : Prop where
  reads : ∀ p ∈ Set.Ico start finish, SortState.Reads count h (entry p)
  distinct : Set.InjOn (fun p => (entry p).toNat) (Set.Ico start finish)
  members {a : Nat} : a < count → start ≤ place a → place a < finish →
    ∃ p ∈ Set.Ico start finish, (entry p).toNat = a
  places : ∀ p ∈ Set.Ico start finish, place (entry p).toNat + 1 = finish

/-- The positions from `start` on are marked runs of single suffixes, and groups. -/
inductive Blocks (count h : Nat) (entry place : Nat → Int) : Nat → Nat → Prop where
  | nil (start : Nat) : Blocks count h entry place start start
  | run {start finish : Nat} (length : Nat) (some_ : 0 < length)
      (marked : entry start = -(length : Int))
      (single : ∀ p ∈ Set.Ico start (start + length), Single count place p)
      (rest : Blocks count h entry place (start + length) finish) :
      Blocks count h entry place start finish
  | group {start finish : Nat} (length : Nat) (some_ : 0 < length)
      (group : Group count h entry place start (start + length))
      (rest : Blocks count h entry place (start + length) finish) :
      Blocks count h entry place start finish

section Change

variable {count h start middle finish : Nat} {entry entry' place place' : Nat → Int}

/-- The places that changed were and are outside these positions. -/
def PlacedApart (count start finish : Nat) (place place' : Nat → Int) : Prop :=
  ∀ a, a < count → place' a = place a ∨
    ¬ (start ≤ place a ∧ place a < finish) ∧ ¬ (start ≤ place' a ∧ place' a < finish)

theorem PlacedApart.narrow {start' finish' : Nat} (apart : PlacedApart count start finish place place')
    (low : start ≤ start') (high : finish' ≤ finish) :
    PlacedApart count start' finish' place place' := by
  intro a inside
  rcases apart a inside with same | ⟨other, other'⟩
  · exact .inl same
  · exact .inr ⟨fun held => other ⟨by omega, by omega⟩, fun held => other' ⟨by omega, by omega⟩⟩

theorem Single.apart {p : Nat} (single : Single count place p)
    (apart : PlacedApart count start finish place place') (inside : p ∈ Set.Ico start finish) :
    Single count place' p := by
  obtain ⟨low, high⟩ := inside
  obtain ⟨a, within, only⟩ := single
  refine ⟨a, within, fun b within' => ?_⟩
  rw [← only b within']
  rcases apart b within' with same | ⟨other, other'⟩
  · rw [same]
  · exact ⟨fun same => absurd ⟨by omega, by omega⟩ other', fun same =>
      absurd ⟨by omega, by omega⟩ other⟩

theorem Group.apart (group : Group count h entry place start finish)
    (entries : ∀ p ∈ Set.Ico start finish, entry' p = entry p)
    (apart : PlacedApart count start finish place place') :
    Group count h entry' place' start finish := by
  have same : ∀ p ∈ Set.Ico start finish, place' (entry p).toNat = place (entry p).toNat := by
    intro p inside
    rcases apart _ (Nat.lt_of_le_of_lt (Nat.le_add_right _ h) (group.reads p inside).2) with
      same | ⟨other, -⟩
    · exact same
    · have last := group.places p inside
      obtain ⟨low, high⟩ := inside
      exact absurd ⟨by omega, by omega⟩ other
  refine ⟨fun p inside => ?_, fun p inside q inside' equal => ?_, fun {a} within low high => ?_,
    fun p inside => ?_⟩
  · rw [entries p inside]
    exact group.reads p inside
  · simp only [entries p inside, entries q inside'] at equal
    exact group.distinct inside inside' equal
  · have own : start ≤ place a ∧ place a < finish := by
      rcases apart a within with same | ⟨-, other⟩
      · omega
      · exact absurd ⟨low, high⟩ other
    obtain ⟨p, inside, equal⟩ := group.members within own.1 own.2
    exact ⟨p, inside, by rw [entries p inside, equal]⟩
  · rw [entries p inside, same p inside]
    exact group.places p inside

theorem Blocks.le (blocks : Blocks count h entry place start finish) : start ≤ finish := by
  induction blocks with
  | nil start => exact Nat.le_refl start
  | run length some_ marked single rest hypothesis => exact Nat.le_of_add_right_le hypothesis
  | group length some_ group rest hypothesis => exact Nat.le_of_add_right_le hypothesis

/-- Changes elsewhere leave the blocks as they are. -/
theorem Blocks.apart (blocks : Blocks count h entry place start finish)
    (entries : ∀ p ∈ Set.Ico start finish, entry' p = entry p)
    (apart : PlacedApart count start finish place place') :
    Blocks count h entry' place' start finish := by
  induction blocks with
  | nil start => exact .nil start
  | @run start finish length some_ marked single rest hypothesis =>
      have long := rest.le
      refine .run length some_ ?_ (fun p inside => ?_) (hypothesis (fun p inside => ?_) ?_)
      · rw [entries start ⟨Nat.le_refl _, by omega⟩, marked]
      · exact (single p inside).apart apart ⟨inside.1, by have := inside.2; omega⟩
      · exact entries p ⟨by have := inside.1; omega, inside.2⟩
      · exact apart.narrow (by omega) (Nat.le_refl _)
  | @group start finish length some_ group rest hypothesis =>
      have long := rest.le
      refine .group length some_ (group.apart (fun p inside => ?_) ?_)
        (hypothesis (fun p inside => ?_) ?_)
      · exact entries p ⟨inside.1, by have := inside.2; omega⟩
      · exact apart.narrow (Nat.le_refl _) long
      · exact entries p ⟨by have := inside.1; omega, inside.2⟩
      · exact apart.narrow (by omega) (Nat.le_refl _)

theorem Blocks.append (blocks : Blocks count h entry place start middle)
    (behind : Blocks count h entry place middle finish) :
    Blocks count h entry place start finish := by
  induction blocks with
  | nil start => exact behind
  | run length some_ marked single rest hypothesis =>
      exact .run length some_ marked single (hypothesis behind)
  | group length some_ group rest hypothesis => exact .group length some_ group (hypothesis behind)

end Change

end Updater.DiffPatch
