/-! Histories to which events are only added, and rules for what may happen after what. -/

set_option autoImplicit false

namespace Updater.Base

variable {Event : Type}

/-- Every event of the history was allowed after those before it. -/
def Lawful (allowed : List Event → Event → Prop) (history : List Event) : Prop :=
  ∀ front event back, history = front ++ event :: back → allowed front event

variable {allowed : List Event → Event → Prop}

theorem Lawful.nil : Lawful allowed [] :=
  fun _ _ _ shape => absurd shape.symm (by simp)

theorem Lawful.concat {history : List Event} (lawful : Lawful allowed history) {event : Event}
    (next : allowed history event) : Lawful allowed (history ++ [event]) := by
  intro front earlier back shape
  rcases List.eq_nil_or_concat back with rfl | ⟨middle, last, rfl⟩
  · obtain ⟨rfl, same⟩ := List.append_inj' shape rfl
    obtain rfl := (List.cons.inj same).1
    exact next
  · rw [List.concat_eq_append, ← List.cons_append, ← List.append_assoc] at shape
    exact lawful front earlier middle (List.append_inj' shape rfl).1

end Updater.Base
