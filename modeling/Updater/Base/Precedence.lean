import Mathlib.Data.List.Basic

/-! Expressions of operators with levels, all of them grouping to the left: the tokens of a tree, and
that the levels leave one tree for the tokens. -/

set_option autoImplicit false

namespace Updater.Base.Precedence

inductive Token (Atom Op : Type) where
  | atom (value : Atom)
  | op (operator : Op)
  | leftParen
  | rightParen
  deriving DecidableEq, Repr

inductive Tree (Atom Op : Type) where
  | atom (value : Atom)
  | negated (operand : Tree Atom Op)
  | paren (inner : Tree Atom Op)
  | binary (operator : Op) (left right : Tree Atom Op)

variable {Atom Op : Type} (minus : Op) (level : Op → Nat)

namespace Tree

def tokens : Tree Atom Op → List (Token Atom Op)
  | .atom value => [.atom value]
  | .negated operand => .op minus :: operand.tokens
  | .paren inner => .leftParen :: (inner.tokens ++ [.rightParen])
  | .binary operator left right => left.tokens ++ .op operator :: right.tokens

/-- No operator between operands stands outside parentheses. -/
def IsPrimary : Tree Atom Op → Prop
  | .binary _ _ _ => False
  | _ => True

/-- The outermost operator, if there is one, has at least this level. -/
def AtLeast (least : Nat) : Tree Atom Op → Prop
  | .binary operator _ _ => least ≤ level operator
  | _ => True

/-- An operator of a higher level binds tighter, and the left one of two of the same level. -/
def Levelled : Tree Atom Op → Prop
  | .atom _ => True
  | .negated operand => operand.IsPrimary ∧ operand.Levelled
  | .paren inner => inner.Levelled
  | .binary operator left right =>
      left.AtLeast level (level operator) ∧ right.AtLeast level (level operator + 1) ∧
        left.Levelled ∧ right.Levelled

/-- The first operand that is no operation. -/
def first : Tree Atom Op → Tree Atom Op
  | .binary _ left _ => left.first
  | tree => tree

/-- The operators behind it, each with the operand that follows. -/
def rest : Tree Atom Op → List (Op × Tree Atom Op)
  | .binary operator left right => left.rest ++ (operator, right.first) :: right.rest
  | _ => []

/-- An operator and an operand, put behind a tree. -/
def insert : Tree Atom Op → Op × Tree Atom Op → Tree Atom Op
  | .binary operator left right, next =>
      if level operator < level next.1 then .binary operator left (right.insert next)
      else .binary next.1 (.binary operator left right) next.2
  | tree, next => .binary next.1 tree next.2

variable {minus level} {tree left right : Tree Atom Op}

theorem first_of_isPrimary (primary : tree.IsPrimary) : tree.first = tree := by
  cases tree with
  | binary operator left right => exact absurd primary not_false
  | _ => rfl

theorem rest_of_isPrimary (primary : tree.IsPrimary) : tree.rest = [] := by
  cases tree with
  | binary operator left right => exact absurd primary not_false
  | _ => rfl

theorem atLeast_mono {least lower : Nat} (below : lower ≤ least) (high : tree.AtLeast level least) :
    tree.AtLeast level lower := by
  cases tree with
  | binary operator left right => exact Nat.le_trans below high
  | _ => trivial

theorem atLeast_zero : tree.AtLeast level 0 := by
  cases tree with
  | binary operator left right => exact Nat.zero_le _
  | _ => trivial

theorem insert_of_atLeast {next : Op × Tree Atom Op} (high : tree.AtLeast level (level next.1)) :
    tree.insert level next = .binary next.1 tree next.2 := by
  cases tree with
  | binary operator left right => exact if_neg (Nat.not_lt.mpr high)
  | _ => rfl

/-- No operator outside parentheses has a lower level than the outermost one. -/
theorem rest_atLeast {least : Nat} (levelled : tree.Levelled level)
    (high : tree.AtLeast level least) : ∀ next ∈ tree.rest, least ≤ level next.1 := by
  induction tree generalizing least with
  | binary operator left right hypothesisLeft hypothesisRight =>
      obtain ⟨highLeft, highRight, levelledLeft, levelledRight⟩ := levelled
      have own : least ≤ level operator := high
      intro next within
      rw [rest, List.mem_append, List.mem_cons] at within
      rcases within with before | same | behind
      · exact hypothesisLeft levelledLeft (atLeast_mono own highLeft) next before
      · exact same ▸ own
      · exact Nat.le_trans own (Nat.le_of_succ_le
          (hypothesisRight levelledRight highRight next behind))
  | _ => exact fun next within => nomatch within

/-- Operators that bind tighter go into the right operand. -/
theorem foldl_insert_right (operator : Op) (left : Tree Atom Op) (tree : Tree Atom Op)
    {behind : List (Op × Tree Atom Op)} (tighter : ∀ next ∈ behind, level operator < level next.1) :
    behind.foldl (insert level) (.binary operator left tree) =
      .binary operator left (behind.foldl (insert level) tree) := by
  induction behind generalizing tree with
  | nil => rfl
  | cons next behind hypothesis =>
      rw [List.foldl_cons, List.foldl_cons, insert, if_pos (tighter next (.head _))]
      exact hypothesis _ fun other within => tighter other (.tail _ within)

/-- A levelled tree is built up from its operands in their order. -/
theorem foldl_insert (levelled : tree.Levelled level) :
    tree.rest.foldl (insert level) tree.first = tree := by
  induction tree with
  | binary operator left right hypothesisLeft hypothesisRight =>
      obtain ⟨highLeft, highRight, levelledLeft, levelledRight⟩ := levelled
      have tighter := rest_atLeast levelledRight highRight
      rw [rest, first, List.foldl_append, hypothesisLeft levelledLeft, List.foldl_cons,
        insert_of_atLeast highLeft, foldl_insert_right operator left right.first tighter,
        hypothesisRight levelledRight]
  | _ => rfl

theorem tokens_eq_rest : tree.tokens minus = tree.first.tokens minus ++
    tree.rest.flatMap fun next => .op next.1 :: next.2.tokens minus := by
  induction tree with
  | binary operator left right hypothesisLeft hypothesisRight =>
      rw [tokens, first, rest, List.flatMap_append, List.flatMap_cons, hypothesisLeft,
        hypothesisRight, List.append_assoc, List.cons_append]
  | _ => exact (List.append_nil _).symm

end Tree

section Unique

variable {minus level}

/-- What may stand behind a whole expression. -/
def Closed : List (Token Atom Op) → Prop
  | [] => True
  | .rightParen :: _ => True
  | _ => False

theorem closed_nil : Closed ([] : List (Token Atom Op)) :=
  trivial

theorem closed_rightParen (behind : List (Token Atom Op)) : Closed (.rightParen :: behind) :=
  trivial

/-- The tokens of an operand end where it ends, whatever follows. -/
def PrimaryFixed (minus : Op) (level : Op → Nat) (tree : Tree Atom Op) : Prop :=
  ∀ (other : Tree Atom Op) (behind behind' : List (Token Atom Op)), other.IsPrimary →
    other.Levelled level → tree.tokens minus ++ behind = other.tokens minus ++ behind' →
    tree = other ∧ behind = behind'

theorem rest_fixed {rest rest' : List (Op × Tree Atom Op)} {behind behind' : List (Token Atom Op)}
    (fixed : ∀ next ∈ rest, PrimaryFixed minus level next.2)
    (primary : ∀ next ∈ rest', next.2.IsPrimary ∧ next.2.Levelled level)
    (closed : Closed behind) (closed' : Closed behind')
    (same : (rest.flatMap fun next => .op next.1 :: next.2.tokens minus) ++ behind =
      (rest'.flatMap fun next => .op next.1 :: next.2.tokens minus) ++ behind') :
    rest = rest' ∧ behind = behind' := by
  induction rest generalizing rest' with
  | nil =>
      cases rest' with
      | nil => exact ⟨rfl, same⟩
      | cons next rest' =>
          have opens : behind = .op next.1 :: (next.2.tokens minus ++
              (rest'.flatMap fun next => .op next.1 :: next.2.tokens minus) ++ behind') := by
            simpa using same
          rw [opens] at closed
          exact absurd closed not_false
  | cons next rest hypothesis =>
      cases rest' with
      | nil =>
          have opens : behind' = .op next.1 :: (next.2.tokens minus ++
              (rest.flatMap fun next => .op next.1 :: next.2.tokens minus) ++ behind) := by
            simpa using same.symm
          rw [opens] at closed'
          exact absurd closed' not_false
      | cons next' rest' =>
          rw [List.flatMap_cons, List.flatMap_cons, List.cons_append, List.cons_append,
            List.cons_append, List.cons_append, List.cons.injEq, List.append_assoc,
            List.append_assoc] at same
          obtain ⟨operator, operands⟩ := same
          obtain ⟨primary', levelled'⟩ := primary next' (.head _)
          obtain ⟨operand, later⟩ :=
            fixed next (.head _) next'.2 _ _ primary' levelled' operands
          obtain ⟨rests, ends⟩ := hypothesis (fun other within => fixed other (.tail _ within))
            (fun other within => primary other (.tail _ within)) later
          exact ⟨by rw [rests, Prod.ext (Token.op.inj operator) operand], ends⟩

theorem first_isPrimary (tree : Tree Atom Op) : tree.first.IsPrimary := by
  induction tree with
  | binary operator left right hypothesisLeft hypothesisRight => exact hypothesisLeft
  | _ => trivial

theorem first_levelled {tree : Tree Atom Op} (levelled : tree.Levelled level) :
    tree.first.Levelled level := by
  induction tree with
  | binary operator left right hypothesisLeft hypothesisRight =>
      exact hypothesisLeft levelled.2.2.1
  | _ => exact levelled

theorem rest_isPrimary {tree : Tree Atom Op} (levelled : tree.Levelled level) :
    ∀ next ∈ tree.rest, next.2.IsPrimary ∧ next.2.Levelled level := by
  induction tree with
  | binary operator left right hypothesisLeft hypothesisRight =>
      obtain ⟨-, -, levelledLeft, levelledRight⟩ := levelled
      intro next within
      rw [Tree.rest, List.mem_append, List.mem_cons] at within
      rcases within with before | same | behind
      · exact hypothesisLeft levelledLeft next before
      · exact same ▸ ⟨first_isPrimary right, first_levelled levelledRight⟩
      · exact hypothesisRight levelledRight next behind
  | _ => exact fun next within => nomatch within

/-- Where all operands are fixed, so is the tree. -/
theorem fixed_of_operands {tree other : Tree Atom Op} {behind behind' : List (Token Atom Op)}
    (fixedFirst : PrimaryFixed minus level tree.first)
    (fixedRest : ∀ next ∈ tree.rest, PrimaryFixed minus level next.2)
    (levelled : tree.Levelled level) (levelled' : other.Levelled level)
    (closed : Closed behind) (closed' : Closed behind')
    (same : tree.tokens minus ++ behind = other.tokens minus ++ behind') :
    tree = other ∧ behind = behind' := by
  rw [Tree.tokens_eq_rest, other.tokens_eq_rest, List.append_assoc, List.append_assoc] at same
  obtain ⟨firsts, later⟩ :=
    fixedFirst other.first _ _ (first_isPrimary other) (first_levelled levelled') same
  obtain ⟨rests, ends⟩ := rest_fixed fixedRest (rest_isPrimary levelled') closed closed' later
  refine ⟨?_, ends⟩
  rw [← Tree.foldl_insert levelled, ← Tree.foldl_insert levelled', firsts, rests]

theorem operands_fixed {tree : Tree Atom Op} (levelled : tree.Levelled level) :
    PrimaryFixed minus level tree.first ∧
      ∀ next ∈ tree.rest, PrimaryFixed minus level next.2 := by
  induction tree with
  | atom value =>
      refine ⟨fun other behind behind' primary levelled' same => ?_, nofun⟩
      cases other with
      | atom value' =>
          obtain ⟨token, ends⟩ := List.cons.inj same
          exact ⟨congrArg Tree.atom (Token.atom.inj token), ends⟩
      | negated operand => exact nomatch (List.cons.inj same).1
      | paren inner => exact nomatch (List.cons.inj same).1
      | binary operator left right => exact absurd primary not_false
  | negated operand hypothesis =>
      obtain ⟨primary, levelled⟩ := levelled
      have fixed := (hypothesis levelled).1
      rw [Tree.first_of_isPrimary primary] at fixed
      refine ⟨fun other behind behind' primary' levelled' same => ?_, nofun⟩
      cases other with
      | atom value => exact nomatch (List.cons.inj same).1
      | negated operand' =>
          obtain ⟨operands, ends⟩ :=
            fixed operand' behind behind' levelled'.1 levelled'.2 (List.cons.inj same).2
          exact ⟨congrArg Tree.negated operands, ends⟩
      | paren inner => exact nomatch (List.cons.inj same).1
      | binary operator left right => exact absurd primary' not_false
  | paren inner hypothesis =>
      have levelledInner : inner.Levelled level := levelled
      obtain ⟨fixedFirst, fixedRest⟩ := hypothesis levelledInner
      refine ⟨fun other behind behind' primary' levelled' same => ?_, nofun⟩
      cases other with
      | atom value => exact nomatch (List.cons.inj same).1
      | negated operand => exact nomatch (List.cons.inj same).1
      | paren inner' =>
          have inners : inner.tokens minus ++ [.rightParen] ++ behind =
              inner'.tokens minus ++ [.rightParen] ++ behind' := (List.cons.inj same).2
          rw [List.append_assoc, List.append_assoc] at inners
          have levelledInner' : inner'.Levelled level := levelled'
          obtain ⟨equal, ends⟩ :=
            fixed_of_operands fixedFirst fixedRest levelledInner levelledInner'
              (closed_rightParen _) (closed_rightParen _) inners
          exact ⟨congrArg Tree.paren equal, (List.cons.inj ends).2⟩
      | binary operator left right => exact absurd primary' not_false
  | binary operator left right hypothesisLeft hypothesisRight =>
      obtain ⟨-, -, levelledLeft, levelledRight⟩ := levelled
      obtain ⟨fixedLeft, restLeft⟩ := hypothesisLeft levelledLeft
      obtain ⟨fixedRight, restRight⟩ := hypothesisRight levelledRight
      refine ⟨fixedLeft, fun next within => ?_⟩
      rw [Tree.rest, List.mem_append, List.mem_cons] at within
      rcases within with before | same | behind
      · exact restLeft next before
      · exact same ▸ fixedRight
      · exact restRight next behind

/-- Two levelled trees with the same tokens are the same. -/
theorem Tree.Levelled.unique {tree other : Tree Atom Op} (levelled : tree.Levelled level)
    (levelled' : other.Levelled level) (same : tree.tokens minus = other.tokens minus) :
    tree = other := by
  obtain ⟨fixedFirst, fixedRest⟩ := @operands_fixed _ _ minus _ _ levelled
  have whole : tree.tokens minus ++ [] = other.tokens minus ++ [] := congrArg (· ++ []) same
  exact (fixed_of_operands fixedFirst fixedRest levelled levelled' closed_nil closed_nil whole).1

end Unique

end Updater.Base.Precedence
