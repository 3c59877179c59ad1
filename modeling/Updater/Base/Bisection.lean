import Mathlib.Init

/-! Bisection of an interval of indices: where it ends, and the middle points it looks at. -/

set_option autoImplicit false

namespace Updater.Base

/-- Halves the interval until it has two ends at most next to each other; goes to the
right half where `right` holds at the middle. -/
def bisect (right : Nat → Bool) (start finish : Nat) : Nat × Nat :=
  if _few : finish - start < 2 then (start, finish)
  else if right (start + (finish - start) / 2) then
    bisect right (start + (finish - start) / 2) finish
  else bisect right start (start + (finish - start) / 2)
termination_by finish - start

/-- The middle points that the bisection looks at. -/
def midpoints (right : Nat → Bool) (start finish : Nat) : List Nat :=
  if _few : finish - start < 2 then []
  else (start + (finish - start) / 2) ::
    if right (start + (finish - start) / 2) then
      midpoints right (start + (finish - start) / 2) finish
    else midpoints right start (start + (finish - start) / 2)
termination_by finish - start

variable {right other : Nat → Bool} {start finish : Nat}

/-- What holds of the whole interval and is kept by each half taken holds at the end. -/
theorem bisect_keeps (right : Nat → Bool) (Holds : Nat → Nat → Prop)
    (goesRight : ∀ start middle finish, start < middle → middle < finish → right middle = true →
      Holds start finish → Holds middle finish)
    (goesLeft : ∀ start middle finish, start < middle → middle < finish → right middle = false →
      Holds start finish → Holds start middle)
    (start finish : Nat) (holds : Holds start finish) :
    Holds (bisect right start finish).1 (bisect right start finish).2 := by
  induction start, finish using bisect.induct right with
  | case1 start finish few =>
      rw [bisect, dif_pos few]
      exact holds
  | case2 start finish many up ih =>
      rw [bisect, dif_neg many, if_pos up]
      exact ih (goesRight _ _ _ (by omega) (by omega) up holds)
  | case3 start finish many down ih =>
      rw [bisect, dif_neg many, if_neg down]
      exact ih (goesLeft _ _ _ (by omega) (by omega) (Bool.eq_false_iff.mpr down) holds)

/-- The bisection ends inside, with at most one step between its ends. -/
theorem bisect_inside (right : Nat → Bool) (ordered : start ≤ finish) :
    start ≤ (bisect right start finish).1 ∧
      (bisect right start finish).1 ≤ (bisect right start finish).2 ∧
      (bisect right start finish).2 ≤ finish :=
  bisect_keeps right (fun low high => start ≤ low ∧ low ≤ high ∧ high ≤ finish)
    (fun _ _ _ above below _ inside => ⟨by omega, by omega, inside.2.2⟩)
    (fun _ _ _ above below _ inside => ⟨inside.1, by omega, by omega⟩)
    start finish ⟨Nat.le_refl _, ordered, Nat.le_refl _⟩

theorem bisect_few (right : Nat → Bool) (start finish : Nat) :
    (bisect right start finish).2 - (bisect right start finish).1 < 2 := by
  induction start, finish using bisect.induct right with
  | case1 start finish few =>
      rw [bisect, dif_pos few]
      exact few
  | case2 start finish many up ih =>
      rw [bisect, dif_neg many, if_pos up]
      exact ih
  | case3 start finish many down ih =>
      rw [bisect, dif_neg many, if_neg down]
      exact ih

/-- A bisection that decides alike at the middle points of another ends like it. -/
theorem bisect_congr (same : ∀ middle ∈ midpoints right start finish, other middle = right middle) :
    bisect other start finish = bisect right start finish := by
  induction start, finish using bisect.induct right with
  | case1 start finish few => rw [bisect, dif_pos few, bisect, dif_pos few]
  | case2 start finish many up ih =>
      rw [midpoints, dif_neg many, if_pos up] at same
      rw [bisect, dif_neg many, same _ List.mem_cons_self, if_pos up,
        ih fun middle member => same middle (List.mem_cons_of_mem _ member)]
      rw [bisect.eq_def right start, dif_neg many, if_pos up]
  | case3 start finish many down ih =>
      rw [midpoints, dif_neg many, if_neg down] at same
      rw [bisect, dif_neg many, same _ List.mem_cons_self, if_neg down,
        ih fun middle member => same middle (List.mem_cons_of_mem _ member)]
      rw [bisect.eq_def right start finish, dif_neg many, if_neg down]

theorem lt_of_mem_midpoints {middle : Nat} (member : middle ∈ midpoints right start finish) :
    middle < finish := by
  induction start, finish using bisect.induct right with
  | case1 start finish few =>
      rw [midpoints, dif_pos few] at member
      cases member
  | case2 start finish many up ih =>
      rw [midpoints, dif_neg many, if_pos up] at member
      rcases List.mem_cons.mp member with rfl | later
      · omega
      · exact ih later
  | case3 start finish many down ih =>
      rw [midpoints, dif_neg many, if_neg down] at member
      rcases List.mem_cons.mp member with rfl | later
      · omega
      · exact Nat.lt_trans (ih later) (by omega)

/-- A bisection that differs from another at a middle point, and goes left wherever it
differs, ends between the start and such a point. -/
theorem bisect_left_of_differs (ordered : start ≤ finish)
    (differs : ∃ middle ∈ midpoints right start finish, other middle ≠ right middle)
    (left : ∀ middle < finish, other middle ≠ right middle → other middle = false) :
    ∃ middle < finish, other middle ≠ right middle ∧ (bisect other start finish).2 ≤ middle := by
  induction start, finish using bisect.induct right with
  | case1 start finish few =>
      rw [midpoints, dif_pos few] at differs
      obtain ⟨middle, member, -⟩ := differs
      cases member
  | case2 start finish many up ih =>
      by_cases agrees : other (start + (finish - start) / 2) = right (start + (finish - start) / 2)
      · rw [midpoints, dif_neg many, if_pos up] at differs
        rw [bisect, dif_neg many, agrees, if_pos up]
        obtain ⟨middle, member, notSame⟩ := differs
        rcases List.mem_cons.mp member with rfl | later
        · exact absurd agrees notSame
        · exact ih (by omega) ⟨middle, later, notSame⟩ left
      · have down := left _ (by omega) agrees
        refine ⟨_, by omega, agrees, ?_⟩
        rw [bisect, dif_neg many, if_neg (Bool.eq_false_iff.mp down)]
        exact (bisect_inside other (by omega)).2.2
  | case3 start finish many down ih =>
      by_cases agrees : other (start + (finish - start) / 2) = right (start + (finish - start) / 2)
      · rw [midpoints, dif_neg many, if_neg down] at differs
        rw [bisect, dif_neg many, agrees, if_neg down]
        obtain ⟨middle, member, notSame⟩ := differs
        rcases List.mem_cons.mp member with rfl | later
        · exact absurd agrees notSame
        · obtain ⟨found, below, foundDiffers, ends⟩ := ih (by omega) ⟨middle, later, notSame⟩
            fun middle below => left middle (by omega)
          exact ⟨found, by omega, foundDiffers, ends⟩
      · have leftHere := left _ (by omega) agrees
        refine ⟨_, by omega, agrees, ?_⟩
        rw [bisect, dif_neg many, if_neg (Bool.eq_false_iff.mp leftHere)]
        exact (bisect_inside other (by omega)).2.2

end Updater.Base
