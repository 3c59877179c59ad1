import Updater.Script.ExpressionGrammar
import Updater.Script.InterpreterFailures

/-! What the execution of an integer expression gives, against the value of the same tokens in C. -/

set_option autoImplicit false

namespace Updater.Script

open Updater.Base
open Updater.Base.Precedence

variable {F : Type}

section Meaning

/-- The levels of the operators in C. -/
def cLevel : ExpressionAction → Nat
  | .or => 0
  | .and => 1
  | .eq | .ne => 2
  | .gt | .ge | .lt | .le => 3
  | .add | .sub => 4
  | .mul | .div => 5

/-- The tree that the levels of C give to the tokens. -/
structure CReads (tokens : List ExprToken) (tree : ExprTree) : Prop where
  levelled : tree.Levelled cLevel
  same : tree.tokens .sub = tokens

/-- A number, unless it overflows. -/
def checked (value : Int) : Option Int :=
  if -2 ^ 31 ≤ value ∧ value < 2 ^ 31 then some value else none

def cTruth (value : Bool) : Int :=
  if value then 1 else 0

/-- An operator of C for two operands; nothing for an overflow or a division by zero. -/
def cOperator (action : ExpressionAction) (left right : Int) : Option Int :=
  match action with
  | .add => checked (left + right)
  | .sub => checked (left - right)
  | .mul => checked (left * right)
  | .div => if right = 0 then none else checked (left.tdiv right)
  | .gt => some (cTruth (left > right))
  | .ge => some (cTruth (left ≥ right))
  | .lt => some (cTruth (left < right))
  | .le => some (cTruth (left ≤ right))
  | .eq => some (cTruth (left = right))
  | .ne => some (cTruth (left ≠ right))
  | .and => some (cTruth (left ≠ 0 ∧ right ≠ 0))
  | .or => some (cTruth (left ≠ 0 ∨ right ≠ 0))

/-- The left operand decides alone. -/
def decided : ExpressionAction → Int → Option Int
  | .and, left => if left = 0 then some 0 else none
  | .or, left => if left ≠ 0 then some 1 else none
  | _, _ => none

variable (values : String → CInt)

/-- The value in C; nothing where C divides by zero or overflows. -/
def cEval : ExprTree → Option Int
  | .atom (.number value) => some value
  | .atom (.identifier name) => some (values name)
  | .negated operand => (cEval operand).bind fun value => checked (-value)
  | .paren inner => cEval inner
  | .binary action left right =>
      (cEval left).bind fun value =>
        (decided action value).or ((cEval right).bind (cOperator action value))

/-- A result is the value in C, and an error value where C has none. -/
def Agrees (result : Option (UScriptValue F)) : Option Int → Prop
  | some value => result = some (.scalar (.integer value))
  | none => ∃ code, code ≠ uscriptSuccess ∧ result = some (.scalar (.error code))

/-- Behind `&&` and `||` no `==`, `!=` or `&&` stands that C reads first. -/
def Grouped : ExprTree → Prop
  | .atom _ => True
  | .negated operand => Grouped operand
  | .paren inner => Grouped inner
  | .binary action left right =>
      (grammarLevel action = 0 → right.AtLeast grammarLevel 1) ∧ Grouped left ∧ Grouped right

/-- The right operand is not looked at. -/
def Skips (action : ExpressionAction) (left : Option Int) : Prop :=
  action = .or ∧ ∃ value, left = some value ∧ value ≠ 0

/-- The left operand does not fail, nothing overflows, and the right operand of `&&` does not fail
where C leaves it out. -/
def Operates (action : ExpressionAction) (left right : Option Int) : Prop :=
  ∃ value, left = some value ∧
    (Skips action left ∨ (action = .and → value = 0 → right.isSome) ∧
      ∀ other, right = some other → action = .div ∧ other = 0 ∨ (cOperator action value other).isSome)

/-- All operators that are executed operate, and no sign but that of a zero is dropped. -/
def Computes : ExprTree → Prop
  | .atom _ => True
  | .negated operand => Computes operand ∧ ∀ value, cEval values operand = some value → value = 0
  | .paren inner => Computes inner
  | .binary action left right =>
      Computes left ∧ (¬ Skips action (cEval values left) → Computes right) ∧
        Operates action (cEval values left) (cEval values right)

end Meaning

section Execution

variable (arith : FloatArith F) (values : String → CInt)

/-- The value that is computed for a tree. -/
def treeValue : ExprTree → Option (UScriptValue F)
  | .atom (.number value) => some (.scalar (.integer value))
  | .atom (.identifier name) => some (.scalar (.integer (values name)))
  | .negated operand => treeValue operand
  | .paren inner => treeValue inner
  | .binary action left right =>
      let value := treeValue left
      if action = .or ∧ value.any (UScriptValue.isTrue arith) then some (.scalar (.integer 1))
      else combined arith action value (treeValue right)

/-- The parts of a tree that are executed. -/
def executedParts : ExprTree → List ExprTree
  | .atom token => [.atom token]
  | .negated operand => .negated operand :: executedParts operand
  | .paren inner => .paren inner :: executedParts inner
  | .binary action left right =>
      .binary action left right :: (executedParts left ++
        if action = .or ∧ (treeValue arith values left).any (UScriptValue.isTrue arith) then []
        else executedParts right)

/-- The variables are integers. -/
def Finds (values : String → CInt) (st : Interp F) : Prop :=
  ∀ name, st.findVariable name = some (.scalar (.integer (values name)))

variable {values}

theorem finds_loseIf (loses : Bool) : Machine.Meets (Finds (F := F) values)
    (loseIf loses : Eval F Unit) fun outcome st => outcome = .ok () ∧ Finds values st := by
  apply Machine.Meets.modify
  intro st finds
  cases loses with
  | true => exact ⟨rfl, finds⟩
  | false => exact ⟨rfl, finds⟩

/-- The right operand is executed, and combined with the left one. -/
theorem behindLeft (env : ScriptEnv F) (script : ScriptTree F)
    (run : List (Stmt F) → Nat → Eval F (StatementResult F)) (localContext : Nat)
    (action : ExpressionAction) (left : Option (UScriptValue F)) {right : Expr F}
    {value : Option (UScriptValue F)}
    (executed : Machine.Meets (Finds values) (right.execute env script run localContext)
      fun outcome st => outcome = .ok value ∧ Finds values st) :
    Machine.Meets (Finds values) (do
        loseIf (failed left && right.calls)
        let rightValue ← right.execute env script run localContext
        combine env.arith action left rightValue)
      fun outcome st => outcome = .ok (combined env.arith action left value) ∧ Finds values st := by
  refine .bind_value (finds_loseIf _) (.bind_value executed (.bind_value (finds_loseIf _) ?_))
  exact .pure fun st finds => ⟨rfl, finds⟩

/-- The expression of a tree is executed to the value of the tree. -/
theorem execute_exprOf (env : ScriptEnv F) (script : ScriptTree F)
    (run : List (Stmt F) → Nat → Eval F (StatementResult F)) (localContext : Nat)
    (tree : ExprTree) :
    Machine.Meets (Finds values) ((exprOf tree).execute env script run localContext)
      fun outcome st => outcome = .ok (treeValue env.arith values tree) ∧ Finds values st := by
  induction tree with
  | atom token =>
      cases token with
      | number value =>
          rw [exprOf, Expr.execute]
          exact .pure fun st finds => ⟨rfl, finds⟩
      | identifier name =>
          rw [exprOf, Expr.execute]
          intro st finds
          exact ⟨congrArg (fun found => Except.ok (some (Option.getD found _))) (finds name), finds⟩
  | negated operand hypothesis => exact hypothesis
  | paren inner hypothesis => exact hypothesis
  | binary action left right hypothesisLeft hypothesisRight =>
      rw [exprOf, Expr.execute]
      refine .bind_value hypothesisLeft ?_
      rw [treeValue]
      by_cases decides : action = .or ∧
          (treeValue env.arith values left).any (UScriptValue.isTrue env.arith)
      · simp only [if_pos decides]
        exact .pure fun st finds => ⟨rfl, finds⟩
      · simp only [if_neg decides]
        exact behindLeft env script run localContext action _ hypothesisRight

end Execution

section Agreement

variable {values : String → CInt} {tree : ExprTree}

theorem grammarLevel_eq (action : ExpressionAction) : grammarLevel action = cLevel action - 2 := by
  cases action <;> rfl

/-- Whether the tree of C is the one of the grammar. -/
theorem grouped_iff (levelled : tree.Levelled cLevel) :
    Grouped tree ↔ tree.Levelled grammarLevel := by
  induction tree with
  | atom token => exact Iff.rfl
  | negated operand hypothesis =>
      obtain ⟨primary, levelled⟩ := levelled
      exact (hypothesis levelled).trans ⟨fun held => ⟨primary, held⟩, fun held => held.2⟩
  | paren inner hypothesis => exact hypothesis levelled
  | binary action left right hypothesisLeft hypothesisRight =>
      obtain ⟨highLeft, highRight, levelledLeft, levelledRight⟩ := levelled
      have leftHigh : left.AtLeast grammarLevel (grammarLevel action) := by
        cases left with
        | binary inner _ _ =>
            have high : cLevel action ≤ cLevel inner := highLeft
            change grammarLevel action ≤ grammarLevel inner
            rw [grammarLevel_eq, grammarLevel_eq]
            omega
        | _ => trivial
      have rightHigh : (grammarLevel action = 0 → right.AtLeast grammarLevel 1) ↔
          right.AtLeast grammarLevel (grammarLevel action + 1) := by
        cases right with
        | binary inner _ _ =>
            have high : cLevel action + 1 ≤ cLevel inner := highRight
            change (grammarLevel action = 0 → 1 ≤ grammarLevel inner) ↔
              grammarLevel action + 1 ≤ grammarLevel inner
            rw [grammarLevel_eq, grammarLevel_eq]
            omega
        | _ => exact ⟨fun _ => trivial, fun _ _ => trivial⟩
      constructor
      · rintro ⟨behind, groupedLeft, groupedRight⟩
        exact ⟨leftHigh, rightHigh.mp behind, (hypothesisLeft levelledLeft).mp groupedLeft,
          (hypothesisRight levelledRight).mp groupedRight⟩
      · rintro ⟨-, behind, groupedLeft, groupedRight⟩
        exact ⟨rightHigh.mpr behind, (hypothesisLeft levelledLeft).mpr groupedLeft,
          (hypothesisRight levelledRight).mpr groupedRight⟩

theorem int32_of_checked {value result : Int} (fits : checked value = some result) :
    int32 value = result := by
  rw [checked] at fits
  split at fits
  · cases fits
    rw [int32]
    exact Int.bmod_eq_of_le (by omega) (by omega)
  · exact nomatch fits

theorem not_agrees_none (value : Int) :
    ¬ Agrees (F := F) (some (.scalar (.integer value))) none := by
  rintro ⟨code, -, same⟩
  exact nomatch same

theorem agrees_error (code : Int) (result : Option Int) (fails : code ≠ uscriptSuccess) :
    Agrees (F := F) (some (.scalar (.error code))) result ↔ result = none := by
  cases result with
  | none => exact ⟨fun _ => rfl, fun _ => ⟨code, fails, rfl⟩⟩
  | some value => exact ⟨nofun, nofun⟩

theorem agrees_number (value : Int) :
    Agrees (F := F) (some (.scalar (.integer (int32 value)))) (checked value) ↔
      (checked value).isSome := by
  cases fits : checked value with
  | none => exact ⟨fun agrees => absurd agrees (not_agrees_none _), nofun⟩
  | some result =>
      rw [int32_of_checked fits]
      exact ⟨fun _ => rfl, fun _ => rfl⟩

/-- The operators of scripts agree with those of C for divisions by zero, and where nothing
overflows. -/
theorem computeInts_agrees_iff (action : ExpressionAction) (left right : Int) :
    Agrees (F := F) (some (.scalar ((computeInts action left right).toScalar .integer truthInt)))
        (cOperator action left right) ↔
      action = .div ∧ right = 0 ∨ (cOperator action left right).isSome := by
  cases action with
  | add | sub | mul => exact (agrees_number _).trans ⟨.inr, fun held => held.resolve_left nofun⟩
  | div =>
      by_cases zero : right = 0
      · rw [computeInts, cOperator, if_pos zero, if_pos zero]
        exact ⟨fun _ => .inl ⟨rfl, zero⟩, fun _ => (agrees_error _ _ (by decide)).mpr rfl⟩
      · rw [computeInts, cOperator, if_neg zero, if_neg zero]
        exact (agrees_number _).trans ⟨.inr, fun held => held.resolve_left fun other => zero other.2⟩
  | _ => exact ⟨fun _ => .inr rfl, fun _ => rfl⟩

theorem decided_or (action : ExpressionAction) (left right : Int) :
    (decided action left).or (cOperator action left right) = cOperator action left right := by
  cases action with
  | and =>
      rw [decided, cOperator]
      by_cases zero : left = 0
      · rw [if_pos zero]; simp [zero, cTruth]
      · rw [if_neg zero]; rfl
  | or =>
      rw [decided, cOperator]
      by_cases zero : left = 0
      · rw [if_neg (not_not_intro zero)]; rfl
      · rw [if_pos zero]; simp [zero, cTruth]
  | _ => rfl

variable {arith : FloatArith F} {left right : ExprTree}

theorem skips_iff (action : ExpressionAction)
    (agrees : Agrees (treeValue arith values left) (cEval values left)) :
    (action = .or ∧ (treeValue arith values left).any (UScriptValue.isTrue arith)) ↔
      Skips action (cEval values left) := by
  refine and_congr_right fun _ => ?_
  cases value_ : cEval values left with
  | none =>
      rw [value_] at agrees
      obtain ⟨code, fails, same⟩ := agrees
      rw [same]
      constructor
      · intro true_
        exact absurd (of_decide_eq_true true_) fails
      · rintro ⟨value, other, -⟩
        exact nomatch other
  | some value =>
      rw [value_] at agrees
      have same : treeValue arith values left = some (.scalar (.integer value)) := agrees
      rw [same]
      constructor
      · intro true_
        exact ⟨value, rfl, of_decide_eq_true true_⟩
      · rintro ⟨own, equal, true_⟩
        exact decide_eq_true (Option.some.inj equal ▸ true_)

theorem agrees_some {result : Option (UScriptValue F)} {value : Option Int}
    (agrees : Agrees result value) : ∃ scalar, result = some (.scalar scalar) := by
  cases value with
  | none =>
      obtain ⟨code, -, same⟩ := agrees
      exact ⟨_, same⟩
  | some value => exact ⟨_, agrees⟩

/-- Where the right operand fails, the left one has to leave the value to it. -/
theorem operates_none_iff (action : ExpressionAction) (value : Int)
    (skips : ¬ Skips action (some value)) :
    (decided action value).or none = none ↔ Operates action (some value) none := by
  rw [Option.or_none]
  constructor
  · intro undecided
    refine ⟨value, rfl, .inr ⟨fun and_ zero => ?_, nofun⟩⟩
    rw [and_, decided, if_pos zero] at undecided
    exact nomatch undecided
  · rintro ⟨own, same, skips' | ⟨fails, -⟩⟩
    · exact absurd skips' skips
    · cases same
      cases action with
      | and => exact if_neg fun zero => nomatch fails rfl zero
      | or => exact if_neg fun true_ => skips ⟨rfl, value, rfl, true_⟩
      | _ => rfl

/-- An operator whose operands agree. -/
theorem binary_agrees_iff (action : ExpressionAction)
    (agreesLeft : Agrees (treeValue arith values left) (cEval values left))
    (agreesRight : ¬ Skips action (cEval values left) →
      Agrees (treeValue arith values right) (cEval values right)) :
    Agrees (treeValue arith values (.binary action left right))
        (cEval values (.binary action left right)) ↔
      Operates action (cEval values left) (cEval values right) := by
  have skipsIff := skips_iff action agreesLeft
  rw [treeValue, cEval]
  by_cases skips : Skips action (cEval values left)
  · rw [if_pos (skipsIff.mpr skips)]
    obtain ⟨rfl, value, value_, true_⟩ := id skips
    rw [value_, Option.bind_some, decided, if_pos true_]
    exact ⟨fun _ => ⟨value, rfl, .inl (value_ ▸ skips)⟩, fun _ => rfl⟩
  · rw [if_neg (mt skipsIff.mp skips)]
    obtain ⟨scalar, right_⟩ := agrees_some (agreesRight skips)
    have agreesRight := agreesRight skips
    cases valueLeft : cEval values left with
    | none =>
        rw [valueLeft] at agreesLeft
        obtain ⟨code, -, left_⟩ := agreesLeft
        rw [left_, right_]
        constructor
        · rintro ⟨code, -, other⟩
          exact nomatch other
        · rintro ⟨value, other, -⟩
          exact nomatch other
    | some value =>
        rw [valueLeft] at agreesLeft skips
        have left_ : treeValue arith values left = some (.scalar (.integer value)) := agreesLeft
        rw [left_, Option.bind_some]
        cases valueRight : cEval values right with
        | none =>
            rw [valueRight] at agreesRight
            obtain ⟨code, -, right_⟩ := agreesRight
            rw [right_]
            exact (agrees_error uscriptErrorInterpret _ (by decide)).trans
              (operates_none_iff action value skips)
        | some other =>
            rw [valueRight] at agreesRight
            have right_ : treeValue arith values right = some (.scalar (.integer other)) :=
              agreesRight
            rw [right_, Option.bind_some, decided_or]
            refine (computeInts_agrees_iff action value other).trans ?_
            constructor
            · intro operates
              exact ⟨value, rfl, .inr ⟨fun _ _ => rfl, fun own same =>
                Option.some.inj same ▸ operates⟩⟩
            · rintro ⟨own, same, skips' | ⟨-, operates⟩⟩
              · exact absurd skips' skips
              · cases same
                exact operates other rfl

theorem negated_agrees_iff {operand : ExprTree}
    (agrees : Agrees (treeValue arith values operand) (cEval values operand)) :
    Agrees (treeValue arith values (.negated operand)) (cEval values (.negated operand)) ↔
      ∀ value, cEval values operand = some value → value = 0 := by
  rw [treeValue, cEval]
  cases value_ : cEval values operand with
  | none =>
      rw [value_] at agrees
      exact ⟨fun _ => nofun, fun _ => agrees⟩
  | some value =>
      rw [value_] at agrees
      have same : treeValue arith values operand = some (.scalar (.integer value)) := agrees
      rw [same, Option.bind_some]
      constructor
      · intro agreesNegated own equal
        cases equal
        rw [checked] at agreesNegated
        split at agreesNegated
        · have sign : value = -value := by
            have result : some (UScriptValue.scalar (F := F) (.integer value)) =
                some (.scalar (.integer (-value))) := agreesNegated
            injections
          omega
        · exact absurd agreesNegated (not_agrees_none _)
      · intro zero
        rw [zero value rfl]
        rfl

theorem self_mem_executedParts (tree : ExprTree) : tree ∈ executedParts arith values tree := by
  cases tree <;> exact .head _

/-- All parts that are executed have their values in C exactly if all operators operate. -/
theorem executedParts_agree_iff (tree : ExprTree) :
    (∀ part ∈ executedParts arith values tree,
        Agrees (treeValue arith values part) (cEval values part)) ↔ Computes values tree := by
  induction tree with
  | atom token =>
      refine ⟨fun _ => trivial, fun _ part within => ?_⟩
      rw [executedParts, List.mem_singleton] at within
      subst within
      cases token with
      | number value => rfl
      | identifier name => rfl
  | negated operand hypothesis =>
      rw [executedParts, List.forall_mem_cons, hypothesis, Computes, and_comm]
      refine and_congr_right fun computes => negated_agrees_iff ?_
      exact hypothesis.mpr computes operand (self_mem_executedParts operand)
  | paren inner hypothesis =>
      rw [executedParts, List.forall_mem_cons, hypothesis, Computes]
      refine and_iff_right_of_imp fun computes => ?_
      exact hypothesis.mpr computes inner (self_mem_executedParts inner)
  | binary action left right hypothesisLeft hypothesisRight =>
      rw [executedParts, List.forall_mem_cons, List.forall_mem_append, hypothesisLeft, Computes,
        and_comm, and_assoc]
      refine and_congr_right fun computesLeft => ?_
      have agreesLeft := hypothesisLeft.mpr computesLeft left (self_mem_executedParts left)
      have skipsIff := skips_iff action agreesLeft
      by_cases skips : Skips action (cEval values left)
      · rw [if_pos (skipsIff.mpr skips)]
        exact and_congr ⟨fun _ other => absurd skips other, fun _ => nofun⟩
          (binary_agrees_iff action agreesLeft fun other => absurd skips other)
      · rw [if_neg (mt skipsIff.mp skips), hypothesisRight, forall_prop_of_true skips]
        refine and_congr_right fun computesRight => binary_agrees_iff action agreesLeft fun _ => ?_
        exact hypothesisRight.mpr computesRight right (self_mem_executedParts right)

end Agreement

section Conformance

variable (env : ScriptEnv F) (script : ScriptTree F)
  (run : List (Stmt F) → Nat → Eval F (StatementResult F)) (localContext : Nat)

/-- Executed with these values of the variables, the expression gives the value of the tree in C. -/
def Conforms (values : String → CInt) (expr : Expr F) (tree : ExprTree) : Prop :=
  ∀ st, Finds values st → ∃ result,
    (expr.execute env script run localContext st).1 = .ok result ∧ Agrees result (cEval values tree)

variable (values : String → CInt)

theorem exists_finds : ∃ st : Interp F, Finds values st := by
  let st : Interp F := { (Interp.start : Interp F) with
    contexts := fun _ name => some (.scalar (.integer (values name)))
    contextStack := [topContext] }
  exact ⟨st, fun _ => rfl⟩

theorem conforms_iff (expr tree : ExprTree) :
    Conforms env script run localContext values (exprOf expr) tree ↔
      Agrees (treeValue env.arith values expr) (cEval values tree) := by
  have executed := @execute_exprOf F values env script run localContext expr
  constructor
  · intro conforms
    obtain ⟨st, finds⟩ := exists_finds (F := F) values
    obtain ⟨result, same, agrees⟩ := conforms st finds
    have equal := (executed st finds).1.symm.trans same
    cases equal
    exact agrees
  · intro agrees st finds
    exact ⟨_, (executed st finds).1, agrees⟩

/-- The grammar groups the tokens as C does, and every part that is executed has its value in C,
exactly if the tree is grouped and all operators that are executed operate; then the expression has
the value in C. -/
theorem expression_conforms {tokens : List ExprToken} {expr : Expr F} {tree : ExprTree}
    (parsed : Derives .valueExpression tokens expr) (read : CReads tokens tree) :
    (Grouped tree ∧ Computes values tree → Conforms env script run localContext values expr tree) ∧
    (Grouped tree ∧ Computes values tree ↔
      tree.Levelled grammarLevel ∧ ∀ part ∈ executedParts env.arith values tree,
        Conforms env script run localContext values (exprOf part) part) := by
  constructor
  · rintro ⟨grouped, computes⟩
    obtain ⟨own, levelled, -, same, rfl⟩ := parsed.levelled
    have equal : own = tree :=
      levelled.unique ((grouped_iff read.levelled).mp grouped) (same.trans read.same.symm)
    rw [equal, conforms_iff]
    exact executedParts_agree_iff tree |>.mpr computes tree (self_mem_executedParts tree)
  · rw [grouped_iff read.levelled, ← @executedParts_agree_iff F values env.arith tree]
    refine and_congr_right fun _ => forall_congr' fun part => imp_congr_right fun _ => ?_
    exact (conforms_iff env script run localContext values part part).symm

def five : CInt := ⟨5, by decide⟩

def noValues : String → CInt := fun _ => ⟨0, by decide⟩

/-- `5 / 5`. -/
def quotientTree : ExprTree :=
  .binary .div (.atom (.number five)) (.atom (.number five))

theorem quotientTree_conforms :
    Conforms failEnv ⟨[], []⟩ (fun _ _ => pure (.normal none)) 0 noValues (exprOf quotientTree)
      quotientTree := by
  have levelled : quotientTree.Levelled grammarLevel := ⟨trivial, trivial, trivial, trivial⟩
  have levelledC : quotientTree.Levelled cLevel := ⟨trivial, trivial, trivial, trivial⟩
  have operates : Operates .div (some 5) (some 5) :=
    ⟨5, rfl, .inr ⟨nofun, fun other same => .inr (Option.some.inj same ▸ rfl)⟩⟩
  exact (expression_conforms failEnv ⟨[], []⟩ (fun _ _ => pure (.normal none)) 0 noValues
    (derives_of_levelled levelled .valueExpression (Nat.zero_le _))
    ⟨levelledC, rfl⟩).1
    ⟨⟨fun _ => trivial, trivial, trivial⟩, trivial, fun _ => trivial, operates⟩

/-- `-5`. -/
def minusFiveTree : ExprTree :=
  .negated (.atom (.number five))

/-- The tokens `-5` are an integer expression, and are executed to `5`. -/
theorem minusFiveTree_not_conforms :
    Derives .valueExpression (minusFiveTree.tokens .sub) (exprOf (F := Int) minusFiveTree) ∧
      CReads (minusFiveTree.tokens .sub) minusFiveTree ∧
      ¬ Conforms failEnv ⟨[], []⟩ (fun _ _ => pure (.normal none)) 0 noValues
        (exprOf minusFiveTree) minusFiveTree := by
  have levelled : minusFiveTree.Levelled grammarLevel := ⟨trivial, trivial⟩
  have levelledC : minusFiveTree.Levelled cLevel := ⟨trivial, trivial⟩
  refine ⟨derives_of_levelled levelled .valueExpression trivial, ⟨levelledC, rfl⟩,
    fun conforms => ?_⟩
  rw [conforms_iff] at conforms
  have same : some (UScriptValue.scalar (F := Int) (.integer 5)) = some (.scalar (.integer (-5))) :=
    conforms
  injections

end Conformance

end Updater.Script
