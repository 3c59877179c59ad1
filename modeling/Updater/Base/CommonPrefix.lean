import Mathlib.Data.List.Lex

/-! How far two lists agree, and how this goes with their lexicographic order. -/

set_option autoImplicit false

namespace Updater.Base

section

variable {α : Type} [DecidableEq α]

/-- The length of the longest common prefix. -/
def commonPrefix : List α → List α → Nat
  | first :: left, second :: right => if first = second then commonPrefix left right + 1 else 0
  | _, _ => 0

@[simp] theorem commonPrefix_nil_left (right : List α) : commonPrefix [] right = 0 := rfl

@[simp] theorem commonPrefix_nil_right (left : List α) : commonPrefix left [] = 0 := by
  cases left with
  | nil => rfl
  | cons first left => rfl

theorem commonPrefix_cons_self (value : α) (left right : List α) :
    commonPrefix (value :: left) (value :: right) = commonPrefix left right + 1 := if_pos rfl

theorem commonPrefix_cons_of_ne {first second : α} (different : first ≠ second)
    (left right : List α) : commonPrefix (first :: left) (second :: right) = 0 := if_neg different

theorem commonPrefix_comm (left right : List α) :
    commonPrefix left right = commonPrefix right left := by
  induction left generalizing right with
  | nil => rw [commonPrefix_nil_left, commonPrefix_nil_right]
  | cons first left ih =>
      cases right with
      | nil => rfl
      | cons second right =>
          by_cases same : first = second
          · rw [same, commonPrefix_cons_self, commonPrefix_cons_self, ih]
          · rw [commonPrefix_cons_of_ne same, commonPrefix_cons_of_ne (Ne.symm same)]

theorem commonPrefix_le_left (left right : List α) : commonPrefix left right ≤ left.length := by
  induction left generalizing right with
  | nil => exact Nat.le_refl _
  | cons first left ih =>
      cases right with
      | nil => exact Nat.zero_le _
      | cons second right =>
          by_cases same : first = second
          · rw [same, commonPrefix_cons_self]
            exact Nat.succ_le_succ (ih right)
          · rw [commonPrefix_cons_of_ne same]
            exact Nat.zero_le _

theorem commonPrefix_le_right (left right : List α) : commonPrefix left right ≤ right.length := by
  rw [commonPrefix_comm]
  exact commonPrefix_le_left right left

/-- The lists agree as far as their common prefix goes. -/
theorem take_commonPrefix (left right : List α) :
    left.take (commonPrefix left right) = right.take (commonPrefix left right) := by
  induction left generalizing right with
  | nil => rw [commonPrefix_nil_left, List.take_zero, List.take_zero]
  | cons first left ih =>
      cases right with
      | nil => rw [commonPrefix_nil_right, List.take_zero, List.take_zero]
      | cons second right =>
          by_cases same : first = second
          · rw [same, commonPrefix_cons_self, List.take_succ_cons, List.take_succ_cons, ih]
          · rw [commonPrefix_cons_of_ne same, List.take_zero, List.take_zero]

/-- The common prefix is all of the left list where this is a prefix of the other. -/
theorem commonPrefix_eq_length_iff {left right : List α} :
    commonPrefix left right = left.length ↔ left <+: right := by
  induction left generalizing right with
  | nil => simp
  | cons first left ih =>
      cases right with
      | nil => simp
      | cons second right =>
          by_cases same : first = second
          · rw [same, commonPrefix_cons_self, List.length_cons, Nat.add_right_cancel_iff, ih,
              List.cons_prefix_cons]
            exact ⟨fun isFront => ⟨rfl, isFront⟩, And.right⟩
          · rw [commonPrefix_cons_of_ne same, List.cons_prefix_cons, List.length_cons]
            exact ⟨fun none => absurd none (Nat.succ_ne_zero _).symm,
              fun isFront => absurd isFront.1 same⟩

end

section

variable {α : Type} [DecidableEq α] {less : α → α → Prop} [Std.Trichotomous less]

/-- A list between two others agrees with each of them at least as far as they agree. -/
theorem commonPrefix_between {low middle high : List α} (above : ¬ List.Lex less middle low)
    (below : ¬ List.Lex less high middle) :
    commonPrefix low high ≤ commonPrefix low middle ∧
      commonPrefix low high ≤ commonPrefix middle high := by
  induction low generalizing middle high with
  | nil => exact ⟨Nat.zero_le _, Nat.zero_le _⟩
  | cons first low ih =>
      cases high with
      | nil =>
          rw [commonPrefix_nil_right]
          exact ⟨Nat.zero_le _, Nat.zero_le _⟩
      | cons third high =>
          by_cases same : first = third
          · subst same
            cases middle with
            | nil => exact absurd .nil above
            | cons second middle =>
                have equal : second = first :=
                  Std.Trichotomous.trichotomous (r := less) second first
                    (fun lower => above (.rel lower)) (fun higher => below (.rel higher))
                subst equal
                have tails := ih (fun lower => above (.cons lower))
                  (fun higher => below (.cons higher))
                rw [commonPrefix_cons_self, commonPrefix_cons_self, commonPrefix_cons_self]
                exact ⟨Nat.succ_le_succ tails.1, Nat.succ_le_succ tails.2⟩
          · rw [commonPrefix_cons_of_ne same]
            exact ⟨Nat.zero_le _, Nat.zero_le _⟩

end

end Updater.Base
