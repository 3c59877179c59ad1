import Mathlib.Algebra.Order.Group.Nat
import Mathlib.Data.Finset.Card
import Mathlib.Logic.Equiv.Basic
import Mathlib.Order.Interval.Finset.Nat

/-! The entries of a range of positions, put in another order there. -/

set_option autoImplicit false

namespace Updater.Base

variable {α : Type} {start finish : Nat} {entry entry' entry'' : Nat → α}

/-- The entries from `start` to before `finish` are permuted; the others stay. -/
def Rearranged (start finish : Nat) (entry entry' : Nat → α) : Prop :=
  ∃ σ : Equiv.Perm Nat, (∀ p, p ∉ Set.Ico start finish → σ p = p) ∧ ∀ p, entry' p = entry (σ p)

namespace Rearranged

theorem refl (start finish : Nat) (entry : Nat → α) : Rearranged start finish entry entry :=
  ⟨Equiv.refl Nat, fun _ _ => rfl, fun _ => rfl⟩

theorem swap {i j : Nat} (first : i ∈ Set.Ico start finish) (second : j ∈ Set.Ico start finish)
    (swapped : ∀ p, entry' p = entry (Equiv.swap i j p)) : Rearranged start finish entry entry' :=
  ⟨Equiv.swap i j, fun _ outside => Equiv.swap_apply_of_ne_of_ne
    (fun same => outside (same ▸ first)) fun same => outside (same ▸ second), swapped⟩

theorem trans (first : Rearranged start finish entry entry')
    (second : Rearranged start finish entry' entry'') : Rearranged start finish entry entry'' := by
  obtain ⟨σ, fixed, same⟩ := first
  obtain ⟨τ, fixed', same'⟩ := second
  refine ⟨τ.trans σ, fun p outside => ?_, fun p => ?_⟩
  · rw [Equiv.trans_apply, fixed' p outside, fixed p outside]
  · rw [Equiv.trans_apply, same' p, same]

theorem widen {start' finish' : Nat} (rearranged : Rearranged start finish entry entry')
    (low : start' ≤ start) (high : finish ≤ finish') : Rearranged start' finish' entry entry' := by
  obtain ⟨σ, fixed, same⟩ := rearranged
  refine ⟨σ, fun p outside => fixed p fun inside => outside ?_, same⟩
  exact ⟨Nat.le_trans low inside.1, Nat.lt_of_lt_of_le inside.2 high⟩

theorem outside (rearranged : Rearranged start finish entry entry') {p : Nat}
    (other : p ∉ Set.Ico start finish) : entry' p = entry p := by
  obtain ⟨σ, fixed, same⟩ := rearranged
  rw [same, fixed p other]

/-- What is moved stays in the range. -/
theorem exists_mem (rearranged : Rearranged start finish entry entry') {p : Nat}
    (inside : p ∈ Set.Ico start finish) : ∃ q ∈ Set.Ico start finish, entry' p = entry q := by
  obtain ⟨σ, fixed, same⟩ := rearranged
  refine ⟨σ p, ?_, same p⟩
  by_contra other
  have twice : σ (σ p) = σ p := fixed _ other
  exact other ((σ.injective twice).symm ▸ inside)

theorem symm (rearranged : Rearranged start finish entry entry') :
    Rearranged start finish entry' entry := by
  obtain ⟨σ, fixed, same⟩ := rearranged
  refine ⟨σ.symm, fun p other => ?_, fun p => ?_⟩
  · rw [Equiv.symm_apply_eq, fixed p other]
  · rw [same, Equiv.apply_symm_apply]

theorem forall_mem (rearranged : Rearranged start finish entry entry') {holds : α → Prop}
    (all : ∀ p ∈ Set.Ico start finish, holds (entry p)) :
    ∀ p ∈ Set.Ico start finish, holds (entry' p) := by
  intro p inside
  obtain ⟨q, inside', same⟩ := rearranged.exists_mem inside
  exact same ▸ all q inside'

theorem injOn (rearranged : Rearranged start finish entry entry')
    (distinct : Set.InjOn entry (Set.Ico start finish)) :
    Set.InjOn entry' (Set.Ico start finish) := by
  obtain ⟨σ, fixed, same⟩ := id rearranged
  have moved : ∀ p ∈ Set.Ico start finish, σ p ∈ Set.Ico start finish := by
    intro p inside
    by_contra other
    exact other ((σ.injective (fixed _ other)).symm ▸ inside)
  intro p inside q inside' equal
  rw [same, same] at equal
  exact σ.injective (distinct (moved p inside) (moved q inside') equal)

/-- As many entries as before have a property. -/
theorem card_filter (rearranged : Rearranged start finish entry entry') (holds : α → Prop)
    [DecidablePred holds] :
    ((Finset.Ico start finish).filter fun p => holds (entry' p)).card =
      ((Finset.Ico start finish).filter fun p => holds (entry p)).card := by
  obtain ⟨σ, fixed, same⟩ := id rearranged
  have moved : ∀ p, p ∈ Finset.Ico start finish ↔ σ p ∈ Finset.Ico start finish := by
    intro p
    rw [← Finset.mem_coe, ← Finset.mem_coe, Finset.coe_Ico]
    constructor
    · intro inside
      by_contra other
      exact other ((σ.injective (fixed _ other)).symm ▸ inside)
    · intro inside
      by_contra other
      exact other (fixed p other ▸ inside)
  refine Finset.card_equiv σ fun p => ?_
  rw [Finset.mem_filter, Finset.mem_filter, ← moved, same]

end Rearranged

end Updater.Base
