import Mathlib.Data.List.Basic

/-! Singly linked lists of cells in a store that only grows. -/

set_option autoImplicit false

namespace Updater.Base

variable {α : Type}

/-- A value and the pointer to the cell behind it. -/
structure Cell (α : Type) where
  value : α
  next : Option Nat

namespace Cell

/-- Let a cell point to another. -/
def setNext (cells : List (Cell α)) (pointer : Nat) (next : Option Nat) : List (Cell α) :=
  cells.modify pointer fun cell => { cell with next := next }

def setValue (cells : List (Cell α)) (pointer : Nat) (change : α → α) : List (Cell α) :=
  cells.modify pointer fun cell => { cell with value := change cell.value }

@[simp] theorem length_setNext (cells : List (Cell α)) (pointer : Nat) (next : Option Nat) :
    (setNext cells pointer next).length = cells.length := List.length_modify ..

@[simp] theorem length_setValue (cells : List (Cell α)) (pointer : Nat) (change : α → α) :
    (setValue cells pointer change).length = cells.length := List.length_modify ..

theorem setNext_other {cells : List (Cell α)} {pointer other : Nat} {next : Option Nat}
    (apart : pointer ≠ other) : (setNext cells pointer next)[other]? = cells[other]? := by
  rw [setNext, List.getElem?_modify_ne _ _ apart]

theorem setValue_other {cells : List (Cell α)} {pointer other : Nat} {change : α → α}
    (apart : pointer ≠ other) : (setValue cells pointer change)[other]? = cells[other]? := by
  rw [setValue, List.getElem?_modify_ne _ _ apart]

theorem setNext_same {cells : List (Cell α)} {pointer : Nat} {cell : Cell α} {next : Option Nat}
    (found : cells[pointer]? = some cell) :
    (setNext cells pointer next)[pointer]? = some { cell with next := next } := by
  rw [setNext, List.getElem?_modify_eq, found]
  rfl

theorem setValue_same {cells : List (Cell α)} {pointer : Nat} {cell : Cell α} {change : α → α}
    (found : cells[pointer]? = some cell) :
    (setValue cells pointer change)[pointer]? = some { cell with value := change cell.value } := by
  rw [setValue, List.getElem?_modify_eq, found]
  rfl

end Cell

/-- The cells at the pointers hold the values and are linked in this order. -/
inductive Linked (cells : List (Cell α)) : List Nat → List α → Prop where
  | nil : Linked cells [] []
  | cons {pointer : Nat} {pointers : List Nat} {value : α} {values : List α}
      (found : cells[pointer]? = some ⟨value, pointers.head?⟩)
      (rest : Linked cells pointers values) : Linked cells (pointer :: pointers) (value :: values)

namespace Linked

variable {cells other : List (Cell α)} {pointers : List Nat} {values : List α}

/-- The list depends on the cells at its pointers only. -/
theorem congr (linked : Linked cells pointers values)
    (same : ∀ pointer ∈ pointers, other[pointer]? = cells[pointer]?) :
    Linked other pointers values := by
  induction linked with
  | nil => exact .nil
  | cons found rest ih =>
      refine .cons ?_ (ih fun pointer member => same pointer (List.mem_cons_of_mem _ member))
      rw [same _ List.mem_cons_self, found]

theorem lt_length (linked : Linked cells pointers values) :
    ∀ pointer ∈ pointers, pointer < cells.length := by
  induction linked with
  | nil => simp
  | cons found rest ih =>
      intro pointer member
      cases member with
      | head => exact (List.getElem?_eq_some_iff.mp found).1
      | tail _ member => exact ih pointer member

theorem length_eq (linked : Linked cells pointers values) : pointers.length = values.length := by
  induction linked with
  | nil => rfl
  | cons found rest ih => simp [ih]

/-- A new cell is no part of a list. -/
theorem alloc (linked : Linked cells pointers values) (cell : Cell α) :
    Linked (cells ++ [cell]) pointers values :=
  linked.congr fun pointer member => List.getElem?_append_left (linked.lt_length pointer member)

theorem setNext_of_notMem (linked : Linked cells pointers values) {pointer : Nat}
    {next : Option Nat} (apart : pointer ∉ pointers) :
    Linked (Cell.setNext cells pointer next) pointers values :=
  linked.congr fun _ member => Cell.setNext_other fun same => apart (same ▸ member)

theorem setValue_of_notMem (linked : Linked cells pointers values) {pointer : Nat}
    {change : α → α} (apart : pointer ∉ pointers) :
    Linked (Cell.setValue cells pointer change) pointers values :=
  linked.congr fun _ member => Cell.setValue_other fun same => apart (same ▸ member)

/-- To append a value, a new cell is linked behind the last one. -/
theorem push (linked : Linked cells pointers values) {last pointer : Nat} {value : α}
    (behind : pointers.getLast? = some last) (distinct : pointers.Nodup)
    (found : cells[pointer]? = some ⟨value, none⟩) (fresh : pointer ∉ pointers) :
    Linked (Cell.setNext cells last (some pointer)) (pointers ++ [pointer]) (values ++ [value]) := by
  induction linked with
  | nil => exact absurd behind (by simp)
  | @cons first rest value' values' firstFound restLinked ih =>
      obtain ⟨firstFresh, restDistinct⟩ := List.nodup_cons.mp distinct
      obtain ⟨apart, restFresh⟩ := List.ne_and_not_mem_of_not_mem_cons fresh
      cases rest with
      | nil =>
          cases restLinked
          obtain rfl : first = last := Option.some.inj behind
          exact .cons (Cell.setNext_same firstFound)
            (.cons ((Cell.setNext_other (Ne.symm apart)).trans found) .nil)
      | cons second rest =>
          rw [List.getLast?_cons_cons] at behind
          have lastMember := List.mem_of_getLast? behind
          refine .cons ?_ (ih behind restDistinct restFresh)
          have apart : last ≠ first := fun same => firstFresh (by rwa [← same])
          rw [Cell.setNext_other apart, firstFound]
          rfl

end Linked

end Updater.Base
