import Mathlib.Data.List.Basic

/-! A list cut into consecutive blocks of a size, of which the last one may be shorter. -/

set_option autoImplicit false

namespace Updater.Base

variable {α : Type} {size : Nat} {content : List α}

/-- A block by its number. -/
def block (size : Nat) (content : List α) (i : Nat) : List α :=
  (content.drop (i * size)).take size

/-- All blocks. -/
def blocksOf (size : Nat) (content : List α) : List (List α) :=
  (List.range ((content.length + size - 1) / size)).map (block size content)

/-- The blocks that are not shorter. -/
def wholeBlocks (size : Nat) (content : List α) : List (List α) :=
  (List.range (content.length / size)).map (block size content)

/-- What is behind these. -/
def restOf (size : Nat) (content : List α) : List α :=
  content.drop (content.length / size * size)

theorem wholeBlocks_of_lt (short : content.length < size) : wholeBlocks size content = [] := by
  rw [wholeBlocks, Nat.div_eq_of_lt short]
  rfl

theorem restOf_of_lt (short : content.length < size) : restOf size content = content := by
  rw [restOf, Nat.div_eq_of_lt short, Nat.zero_mul, List.drop_zero]

theorem block_drop (i : Nat) : block size (content.drop size) i = block size content (i + 1) := by
  rw [block, block, List.drop_drop, Nat.succ_mul, Nat.add_comm]

theorem length_div (positive : 0 < size) (long : size ≤ content.length) :
    content.length / size = (content.drop size).length / size + 1 := by
  rw [List.length_drop, Nat.div_eq_sub_div positive long]

theorem wholeBlocks_of_le (positive : 0 < size) (long : size ≤ content.length) :
    wholeBlocks size content = content.take size :: wholeBlocks size (content.drop size) := by
  rw [wholeBlocks, length_div positive long, List.range_succ_eq_map, List.map_cons, List.map_map,
    wholeBlocks]
  refine congrArg₂ List.cons ?_ (List.map_congr_left fun i _ => (block_drop i).symm)
  rw [block, Nat.zero_mul, List.drop_zero]

theorem restOf_of_le (positive : 0 < size) (long : size ≤ content.length) :
    restOf size content = restOf size (content.drop size) := by
  rw [restOf, restOf, length_div positive long, List.drop_drop, Nat.succ_mul, Nat.add_comm]

theorem length_restOf : (restOf size content).length = content.length % size := by
  have cut := Nat.div_add_mod content.length size
  rw [restOf, List.length_drop, Nat.mul_comm]
  omega

theorem length_restOf_lt (positive : 0 < size) : (restOf size content).length < size := by
  rw [length_restOf]
  exact Nat.mod_lt content.length positive

/-- More content is cut behind what the content before left. -/
theorem blocks_append (positive : 0 < size) (content more : List α) :
    wholeBlocks size (content ++ more) =
        wholeBlocks size content ++ wholeBlocks size (restOf size content ++ more) ∧
      restOf size (content ++ more) = restOf size (restOf size content ++ more) := by
  induction shorter : content.length using Nat.strongRecOn generalizing content with
  | ind length hypothesis =>
      by_cases long : size ≤ content.length
      · have longer : size ≤ (content ++ more).length := by
          rw [List.length_append]
          omega
        have before := hypothesis (content.drop size).length
          (by rw [List.length_drop]; omega) (content.drop size) rfl
        rw [wholeBlocks_of_le positive longer, restOf_of_le positive longer,
          wholeBlocks_of_le positive long, restOf_of_le positive long,
          List.take_append_of_le_length long, List.drop_append_of_le_length long, before.1, before.2]
        exact ⟨rfl, rfl⟩
      · have short := Nat.lt_of_not_le long
        rw [wholeBlocks_of_lt short, restOf_of_lt short]
        exact ⟨rfl, rfl⟩

/-- The rest is the last block, unless it is empty. -/
theorem blocksOf_eq (positive : 0 < size) (content : List α) :
    blocksOf size content = wholeBlocks size content ++
      if restOf size content = [] then [] else [restOf size content] := by
  have cut := Nat.div_add_mod content.length size
  have length : (restOf size content).length = content.length % size := length_restOf
  by_cases none_ : restOf size content = []
  · have whole : (content.length + size - 1) / size = content.length / size := by
      rw [none_, List.length_nil] at length
      rw [Nat.div_eq_iff positive]
      constructor
      · rw [Nat.mul_comm]
        omega
      · rw [Nat.mul_comm]
        omega
    rw [if_pos none_, List.append_nil, blocksOf, whole, wholeBlocks]
  · have some_ := List.length_pos_of_ne_nil none_
    have more : (content.length + size - 1) / size = content.length / size + 1 := by
      rw [length] at some_
      have bound := Nat.mod_lt content.length positive
      rw [Nat.div_eq_iff positive, Nat.add_mul, Nat.mul_comm (content.length / size)]
      omega
    rw [if_neg none_, blocksOf, more, List.range_succ, List.map_append, wholeBlocks]
    refine congrArg _ (congrArg (fun last => [last]) ?_)
    rw [block, List.take_of_length_le]
    · rfl
    · exact Nat.le_of_lt (length_restOf_lt positive)

/-- The first block. -/
theorem blocksOf_head (positive : 0 < size) (some_ : content ≠ []) :
    (blocksOf size content).head? = some (content.take size) := by
  rw [blocksOf_eq positive]
  by_cases long : size ≤ content.length
  · rw [wholeBlocks_of_le positive long]
    rfl
  · have short := Nat.lt_of_not_le long
    rw [wholeBlocks_of_lt short, restOf_of_lt short, if_neg some_,
      List.take_of_length_le (Nat.le_of_lt short)]
    rfl

/-- Content that is not longer than two sizes is one block for both. -/
theorem blocksOf_of_le {other : Nat} (positive : 0 < size) (positive' : 0 < other)
    (fits : content.length ≤ size) (fits' : content.length ≤ other) :
    blocksOf size content = blocksOf other content := by
  by_cases none_ : content = []
  · subst none_
    rw [blocksOf_eq positive, blocksOf_eq positive', wholeBlocks_of_lt positive,
      wholeBlocks_of_lt positive', restOf_of_lt positive, restOf_of_lt positive']
  · have one : ∀ whole, 0 < whole → content.length ≤ whole → blocksOf whole content = [content] := by
      intro whole positive fits
      have length := List.length_pos_of_ne_nil none_
      have count : (content.length + whole - 1) / whole = 0 + 1 := by
        rw [Nat.div_eq_iff positive]
        omega
      rw [blocksOf, count, List.range_succ]
      simp [block, List.take_of_length_le fits]
    rw [one size positive fits, one other positive' fits']

end Updater.Base
