import Mathlib.Algebra.Group.Int.Defs
import Updater.Base.Precedence
import Updater.Script.Interpreter

/-! The rules of the grammar for integer expressions, with the expressions that their actions
create, and the trees that they stand for. -/

set_option autoImplicit false

namespace Updater.Script

open Updater.Base.Precedence

/-- A number of the type `int`. -/
abbrev CInt : Type :=
  { value : Int // -2 ^ 31 ≤ value ∧ value < 2 ^ 31 }

/-- `NUMBER` with its value, and `IDENTIFIER`. -/
inductive PrimaryToken where
  | number (value : CInt)
  | identifier (name : String)
  deriving DecidableEq

abbrev ExprToken : Type := Token PrimaryToken ExpressionAction

abbrev ExprTree : Type := Tree PrimaryToken ExpressionAction

inductive Nonterminal where
  | valueExpression | compareExpression | addSubExpression | mulDivExpression | primaryExpression
  deriving DecidableEq, Repr

namespace Nonterminal

/-- The nonterminal of the operands. -/
def operand : Nonterminal → Option Nonterminal
  | .valueExpression => some .compareExpression
  | .compareExpression => some .addSubExpression
  | .addSubExpression => some .mulDivExpression
  | .mulDivExpression => some .primaryExpression
  | .primaryExpression => none

def operators : Nonterminal → List ExpressionAction
  | .valueExpression => [.eq, .ne, .and, .or]
  | .compareExpression => [.gt, .ge, .lt, .le]
  | .addSubExpression => [.add, .sub]
  | .mulDivExpression => [.div, .mul]
  | .primaryExpression => []

def level : Nonterminal → Nat
  | .valueExpression => 0
  | .compareExpression => 1
  | .addSubExpression => 2
  | .mulDivExpression => 3
  | .primaryExpression => 4

end Nonterminal

variable {F : Type}

/-- The tokens that a nonterminal stands for, with the value of its action. -/
inductive Derives : Nonterminal → List ExprToken → Expr F → Prop where
  | operand {upper lower tokens expr} (below : upper.operand = some lower)
      (derived : Derives lower tokens expr) : Derives upper tokens expr
  | binary {upper lower action left right leftExpr rightExpr} (below : upper.operand = some lower)
      (own : action ∈ upper.operators) (derivedLeft : Derives upper left leftExpr)
      (derivedRight : Derives lower right rightExpr) :
      Derives upper (left ++ .op action :: right) (.binary action leftExpr rightExpr)
  | minus {tokens expr} (derived : Derives .primaryExpression tokens expr) :
      -- the action is that of parentheses
      Derives .primaryExpression (.op .sub :: tokens) expr
  | parens {tokens expr} (derived : Derives .valueExpression tokens expr) :
      Derives .primaryExpression (.leftParen :: (tokens ++ [.rightParen])) expr
  | identifier (name : String) :
      Derives .primaryExpression [.atom (.identifier name)] (.identifier name)
  | number (value : CInt) : Derives .primaryExpression [.atom (.number value)] (.integer value)

/-- The level of an operator in the grammar. -/
def grammarLevel : ExpressionAction → Nat
  | .eq | .ne | .and | .or => 0
  | .gt | .ge | .lt | .le => 1
  | .add | .sub => 2
  | .mul | .div => 3

/-- The expression that the actions make of a tree. -/
def exprOf : ExprTree → Expr F
  | .atom (.number value) => .integer value
  | .atom (.identifier name) => .identifier name
  | .negated operand => exprOf operand
  | .paren inner => exprOf inner
  | .binary action left right => .binary action (exprOf left) (exprOf right)

section Trees

variable {nonterminal upper lower : Nonterminal} {tree : ExprTree}

theorem level_operand (below : upper.operand = some lower) : lower.level = upper.level + 1 := by
  cases upper <;> cases below <;> rfl

theorem grammarLevel_operators {action : ExpressionAction} (own : action ∈ upper.operators) :
    grammarLevel action = upper.level := by
  cases upper <;> simp only [Nonterminal.operators, List.mem_cons, List.not_mem_nil, or_false] at own
  case valueExpression => rcases own with rfl | rfl | rfl | rfl <;> rfl
  case compareExpression => rcases own with rfl | rfl | rfl | rfl <;> rfl
  case addSubExpression => rcases own with rfl | rfl <;> rfl
  case mulDivExpression => rcases own with rfl | rfl <;> rfl

/-- The nonterminal with the operator. -/
theorem exists_operators (action : ExpressionAction) :
    ∃ upper lower : Nonterminal, upper.operand = some lower ∧ action ∈ upper.operators := by
  cases action with
  | eq | ne | and | or => exact ⟨.valueExpression, _, rfl, by decide⟩
  | gt | ge | lt | le => exact ⟨.compareExpression, _, rfl, by decide⟩
  | add | sub => exact ⟨.addSubExpression, _, rfl, by decide⟩
  | mul | div => exact ⟨.mulDivExpression, _, rfl, by decide⟩

theorem isPrimary_of_atLeast (high : tree.AtLeast grammarLevel 4) : tree.IsPrimary := by
  cases tree with
  | binary action left right =>
      have low : 4 ≤ grammarLevel action := high
      cases action <;> exact absurd low (by decide)
  | _ => trivial

theorem atLeast_of_isPrimary (least : Nat) (primary : tree.IsPrimary) :
    tree.AtLeast grammarLevel least := by
  cases tree with
  | binary action left right => exact absurd primary not_false
  | _ => trivial

/-- What is derived stands for a tree with the levels of the grammar. -/
theorem Derives.levelled {tokens : List ExprToken} {expr : Expr F}
    (derived : Derives nonterminal tokens expr) :
    ∃ tree : ExprTree, tree.Levelled grammarLevel ∧
      tree.AtLeast grammarLevel nonterminal.level ∧ tree.tokens .sub = tokens ∧
      exprOf tree = expr := by
  induction derived with
  | operand below derived hypothesis =>
      obtain ⟨tree, levelled, high, same, value⟩ := hypothesis
      rw [level_operand below] at high
      exact ⟨tree, levelled, Tree.atLeast_mono (Nat.le_succ _) high, same, value⟩
  | @binary upper lower action _ _ _ _ below own _ _ hypothesisLeft hypothesisRight =>
      obtain ⟨left, levelledLeft, highLeft, rfl, rfl⟩ := hypothesisLeft
      obtain ⟨right, levelledRight, highRight, rfl, rfl⟩ := hypothesisRight
      have level := grammarLevel_operators own
      rw [level_operand below, ← level] at highRight
      rw [← level] at highLeft
      exact ⟨.binary action left right, ⟨highLeft, highRight, levelledLeft, levelledRight⟩,
        Nat.le_of_eq level.symm, rfl, rfl⟩
  | minus derived hypothesis =>
      obtain ⟨tree, levelled, high, rfl, rfl⟩ := hypothesis
      exact ⟨.negated tree, ⟨isPrimary_of_atLeast high, levelled⟩, trivial, rfl, rfl⟩
  | parens derived hypothesis =>
      obtain ⟨tree, levelled, high, rfl, rfl⟩ := hypothesis
      exact ⟨.paren tree, levelled, trivial, rfl, rfl⟩
  | identifier name => exact ⟨.atom (.identifier name), trivial, trivial, rfl, rfl⟩
  | number value => exact ⟨.atom (.number value), trivial, trivial, rfl, rfl⟩

/-- The tokens leave one expression. -/
theorem Derives.unique {tokens : List ExprToken} {expr other : Expr F}
    (derived : Derives .valueExpression tokens expr)
    (derived' : Derives .valueExpression tokens other) : expr = other := by
  obtain ⟨tree, levelled, -, same, rfl⟩ := derived.levelled
  obtain ⟨tree', levelled', -, same', rfl⟩ := derived'.levelled
  rw [levelled.unique levelled' (same.trans same'.symm)]

theorem Derives.lift {tokens : List ExprToken} {expr : Expr F}
    (derived : Derives lower tokens expr) (below : upper.level ≤ lower.level) :
    Derives upper tokens expr := by
  have fromPrimary : Derives .primaryExpression tokens expr → Derives .mulDivExpression tokens expr :=
    .operand rfl
  have fromMulDiv : Derives .mulDivExpression tokens expr → Derives .addSubExpression tokens expr :=
    .operand rfl
  have fromAddSub : Derives .addSubExpression tokens expr → Derives .compareExpression tokens expr :=
    .operand rfl
  have fromCompare : Derives .compareExpression tokens expr → Derives .valueExpression tokens expr :=
    .operand rfl
  cases lower <;> cases upper <;> first
    | exact derived
    | exact absurd below (by decide)
    | simp_all only

/-- The tokens of a levelled tree are derived. -/
theorem derives_of_levelled (levelled : tree.Levelled grammarLevel) :
    ∀ nonterminal : Nonterminal, tree.AtLeast grammarLevel nonterminal.level →
      Derives nonterminal (tree.tokens .sub) (exprOf (F := F) tree) := by
  induction tree with
  | atom value =>
      intro nonterminal _
      cases value with
      | number value => exact (Derives.number value).lift (by cases nonterminal <;> decide)
      | identifier name => exact (Derives.identifier name).lift (by cases nonterminal <;> decide)
  | negated operand hypothesis =>
      intro nonterminal _
      obtain ⟨primary, levelled⟩ := levelled
      have derived := hypothesis levelled .primaryExpression (atLeast_of_isPrimary _ primary)
      exact derived.minus.lift (by cases nonterminal <;> decide)
  | paren inner hypothesis =>
      intro nonterminal _
      have derived := hypothesis levelled .valueExpression Tree.atLeast_zero
      exact derived.parens.lift (by cases nonterminal <;> decide)
  | binary action left right hypothesisLeft hypothesisRight =>
      intro nonterminal high
      obtain ⟨highLeft, highRight, levelledLeft, levelledRight⟩ := levelled
      obtain ⟨upper, lower, below, own⟩ := exists_operators action
      have level := grammarLevel_operators own
      have high' : nonterminal.level ≤ grammarLevel action := high
      rw [level] at highLeft highRight high'
      rw [← level_operand below] at highRight
      exact (Derives.binary below own (hypothesisLeft levelledLeft upper highLeft)
        (hypothesisRight levelledRight lower highRight)).lift high'

end Trees

end Updater.Script
