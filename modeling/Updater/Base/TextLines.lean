import Mathlib.Data.List.Basic

/-! Lines of a stream of characters, read one after the other with a bound on their length. -/

set_option autoImplicit false

namespace Updater.Base

variable {α : Type} [DecidableEq α]

/-- The characters up to the first separator, at most so many, and what is left of the stream. -/
def readLine (separator : α) : Nat → List α → List α × List α
  | 0, stream => ([], stream)
  | _ + 1, [] => ([], [])
  | room + 1, first :: rest =>
      if first = separator then ([first], rest)
      else (first :: (readLine separator room rest).1, (readLine separator room rest).2)

variable {separator : α}

/-- A line that fits is read as it was written, in front of every other text. -/
theorem readLine_of_fits {line : List α} (whole : separator ∉ line) {room : Nat}
    (fits : line.length < room) (rest : List α) :
    readLine separator room (line ++ separator :: rest) = (line ++ [separator], rest) := by
  induction line generalizing room with
  | nil =>
      cases room with
      | zero => exact absurd fits (Nat.not_lt_zero _)
      | succ room => rw [List.nil_append, readLine, if_pos rfl]; rfl
  | cons first line ih =>
      obtain ⟨other, later⟩ := not_or.mp fun either => whole (List.mem_cons.mpr either)
      cases room with
      | zero => exact absurd fits (Nat.not_lt_zero _)
      | succ room =>
          rw [List.cons_append, readLine, if_neg fun same => other same.symm,
            ih later (Nat.lt_of_succ_lt_succ fits)]
          rfl

end Updater.Base
