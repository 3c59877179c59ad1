import Mathlib.Data.List.Lex

/-! The order of the suffixes of a text, and how a common prefix of two of them lets it be read
behind that prefix. -/

set_option autoImplicit false

namespace Updater.Base

variable {α : Type} [LT α] {text : List α} {length more a b c : Nat}

/-- The suffix from `a` on comes before the one from `b` on. -/
def Before (text : List α) (a b : Nat) : Prop :=
  List.Lex (· < ·) (text.drop a) (text.drop b)

/-- Two suffixes begin with the same `length` elements. -/
structure SamePrefix (text : List α) (length a b : Nat) : Prop where
  left : a + length ≤ text.length
  right : b + length ≤ text.length
  same : (text.drop a).take length = (text.drop b).take length

omit [LT α] in
theorem SamePrefix.refl (inside : a + length ≤ text.length) : SamePrefix text length a a :=
  ⟨inside, inside, rfl⟩

omit [LT α] in
theorem SamePrefix.symm (alike : SamePrefix text length a b) : SamePrefix text length b a :=
  ⟨alike.right, alike.left, alike.same.symm⟩

omit [LT α] in
theorem SamePrefix.trans (alike : SamePrefix text length a b) (alike' : SamePrefix text length b c) :
    SamePrefix text length a c :=
  ⟨alike.left, alike'.right, alike.same.trans alike'.same⟩

omit [LT α] in
/-- A common prefix, and another one behind it. -/
theorem SamePrefix.extend (alike : SamePrefix text length a b)
    (behind : SamePrefix text more (a + length) (b + length)) :
    SamePrefix text (length + more) a b := by
  refine ⟨by have := behind.left; omega, by have := behind.right; omega, ?_⟩
  rw [List.take_add, List.take_add, List.drop_drop, List.drop_drop, alike.same, behind.same]

/-- Behind a common prefix the order is that of the suffixes. -/
theorem SamePrefix.before (alike : SamePrefix text length a b)
    (behind : Before text (a + length) (b + length)) : Before text a b := by
  rw [Before, ← List.take_append_drop length (text.drop a),
    ← List.take_append_drop length (text.drop b), alike.same, List.drop_drop, List.drop_drop]
  exact List.Lex.append_left _ behind _

end Updater.Base
