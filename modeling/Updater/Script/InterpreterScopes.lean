import Mathlib.Data.List.Basic
import Updater.Script.InterpreterFailures

/-! The variables of scripts: which of them an assignment and a call can change, and what the
stack of contexts is afterwards. -/

set_option autoImplicit false

namespace Updater.Script

open Updater.Base Machine

section Reach

theorem mem_reach_cons {context other : Nat} {stack : List Nat}
    (inside : other ∈ reach (context :: stack)) : other = context ∨ other ∈ reach stack := by
  rw [reach] at inside
  split at inside
  · exact .inl (List.mem_singleton.mp inside)
  · exact List.mem_cons.mp inside

theorem mem_of_mem_reach {context : Nat} {stack : List Nat} (inside : context ∈ reach stack) :
    context ∈ stack := by
  induction stack with
  | nil => cases inside
  | cons top stack ih =>
      rcases mem_reach_cons inside with rfl | below
      · exact List.mem_cons_self
      · exact List.mem_cons_of_mem _ (ih below)

end Reach

namespace Interp

variable {F : Type}

/-- The context that `FindVariable` finds the variable in. -/
def resolve (st : Interp F) (id : String) : Option Nat :=
  (reach st.contextStack).find? fun context => (st.contexts context id).isSome

theorem findVariable_eq (st : Interp F) (id : String) :
    st.findVariable id = (st.resolve id).bind fun context => st.contexts context id := by
  unfold findVariable resolve
  induction reach st.contextStack with
  | nil => rfl
  | cons context below ih =>
      rw [List.findSome?_cons, List.find?_cons]
      cases found : st.contexts context id with
      | none => exact ih
      | some value => exact found.symm

theorem resolve_eq_none {st : Interp F} {id : String} :
    st.resolve id = none ↔ st.findVariable id = none := by
  rw [findVariable_eq]
  cases found : st.resolve id with
  | none => exact ⟨fun _ => rfl, fun _ => rfl⟩
  | some context =>
      have bound := List.find?_some found
      constructor
      · intro impossible
        cases impossible
      · intro unbound
        rw [show st.contexts context id = none from unbound] at bound
        cases bound

/-- One step of `UpdateVariable`. -/
def updateIn (st : Interp F) (context : Nat) (id : String) (value : UScriptValue F) : Interp F :=
  if (st.contexts context id).isSome then st.bind context id value else st

theorem updateVariable_eq (st : Interp F) (id : String) (value : UScriptValue F) :
    st.updateVariable id value =
      (reach st.contextStack).foldl (fun st context => st.updateIn context id value) st := rfl

theorem bind_contexts (st : Interp F) (context : Nat) (id : String) (value : UScriptValue F)
    (other : Nat) (name : String) :
    (st.bind context id value).contexts other name =
      if other = context ∧ name = id then some value else st.contexts other name := by
  unfold bind
  by_cases same : other = context
  · subst same
    by_cases sameName : name = id
    · subst sameName
      simp
    · simp [sameName]
  · simp [same]

theorem updateIn_contexts (st : Interp F) (context : Nat) (id : String) (value : UScriptValue F)
    (other : Nat) (name : String) :
    (st.updateIn context id value).contexts other name =
      if other = context ∧ name = id ∧ (st.contexts context id).isSome then some value
      else st.contexts other name := by
  unfold updateIn
  by_cases bound : (st.contexts context id).isSome = true
  · simp [bound, bind_contexts]
  · rw [if_neg bound, if_neg fun all => bound all.2.2]

/-- `UpdateVariable` writes the variable in every context of the walk that binds it. -/
theorem foldl_updateIn_contexts (contexts : List Nat) (st : Interp F) (id : String)
    (value : UScriptValue F) (other : Nat) (name : String) :
    (contexts.foldl (fun st context => st.updateIn context id value) st).contexts other name =
      if other ∈ contexts ∧ name = id ∧ (st.contexts other id).isSome then some value
      else st.contexts other name := by
  induction contexts generalizing st with
  | nil => rw [List.foldl_nil, if_neg fun all => by cases all.1]
  | cons context contexts ih =>
      rw [List.foldl_cons, ih, updateIn_contexts, updateIn_contexts]
      grind

theorem foldl_updateIn_others (contexts : List Nat) (st : Interp F) (id : String)
    (value : UScriptValue F) :
    let updated := contexts.foldl (fun st context => st.updateIn context id value) st
    updated.contextStack = st.contextStack ∧ updated.nextContext = st.nextContext ∧
      updated.assigned = st.assigned := by
  induction contexts generalizing st with
  | nil => exact ⟨rfl, rfl, rfl⟩
  | cons context contexts ih =>
      have same : (st.updateIn context id value).contextStack = st.contextStack ∧
          (st.updateIn context id value).nextContext = st.nextContext ∧
          (st.updateIn context id value).assigned = st.assigned := by
        unfold updateIn
        split
        · exact ⟨rfl, rfl, rfl⟩
        · exact ⟨rfl, rfl, rfl⟩
      obtain ⟨stack, next, assigned⟩ := ih (st.updateIn context id value)
      exact ⟨stack.trans same.1, next.trans same.2.1, assigned.trans same.2.2⟩

/-- `UpdateVariables` binds the identifiers to the values in order, the later of two of one name. -/
theorem bindAll_contexts (st : Interp F) (context : Nat) (ids : List String)
    (values : List (Scalar F)) (other : Nat) (name : String) :
    (st.bindAll context ids values).contexts other name =
      if other = context then
        (((ids.zip values).reverse.lookup name).map .scalar).or (st.contexts context name)
      else st.contexts other name := by
  have unchanged : st.contexts other name =
      if other = context then st.contexts context name else st.contexts other name := by
    split
    · next same => rw [same]
    · rfl
  induction ids generalizing st values with
  | nil => exact unchanged
  | cons id ids ih =>
      cases values with
      | nil => exact unchanged
      | cons value values =>
          have first : (st.bindAll context (id :: ids) (value :: values)).contexts other name =
              _ := ih (st.bind context id (.scalar value)) values (by grind)
          rw [first, bind_contexts, bind_contexts, List.zip_cons_cons, List.reverse_cons,
            List.lookup_append, List.lookup_cons]
          by_cases same : name = id
          · subst same
            cases (ids.zip values).reverse.lookup name <;> grind
          · have differs : (name == id) = false := beq_false_of_ne same
            rw [differs]
            cases (ids.zip values).reverse.lookup name <;> grind

theorem bindAll_others (st : Interp F) (context : Nat) (ids : List String)
    (values : List (Scalar F)) :
    (st.bindAll context ids values).contextStack = st.contextStack ∧
      (st.bindAll context ids values).nextContext = st.nextContext ∧
      (st.bindAll context ids values).assigned = st.assigned := by
  induction ids generalizing st values with
  | nil => exact ⟨rfl, rfl, rfl⟩
  | cons id ids ih =>
      cases values with
      | nil => exact ⟨rfl, rfl, rfl⟩
      | cons value values => exact ih _ values

/-- What an execution in a local context leaves as it was: the stack, and of the variables outside
`hidden` those whose context is neither the local one nor in reach, and those whose name was not
assigned to. -/
structure Scoped (hidden : List Nat) (localContext : Nat) (st st' : Interp F) : Prop where
  contextStack : st'.contextStack = st.contextStack
  nextContext : st.nextContext ≤ st'.nextContext
  bindings : ∃ names, st'.assigned = names ++ st.assigned ∧
    ∀ context id, context < st.nextContext → context ∉ hidden →
      ¬ (context ∈ localContext :: reach st.contextStack ∧ id ∈ names) →
      st'.contexts context id = st.contexts context id

/-- The contexts of the stack, and the local one, have been created. -/
structure InScope (localContext : Nat) (st : Interp F) : Prop where
  made : localContext < st.nextContext
  stacked : ∀ context ∈ st.contextStack, context < st.nextContext

namespace Scoped

variable {hidden : List Nat} {localContext : Nat} {st st' st'' : Interp F}

theorem refl (st : Interp F) : Scoped hidden localContext st st where
  contextStack := rfl
  nextContext := Nat.le_refl _
  bindings := ⟨[], rfl, fun _ _ _ _ _ => rfl⟩

theorem trans (first : Scoped hidden localContext st st')
    (second : Scoped hidden localContext st' st'') : Scoped hidden localContext st st'' where
  contextStack := second.contextStack.trans first.contextStack
  nextContext := Nat.le_trans first.nextContext second.nextContext
  bindings := by
    obtain ⟨earlier, assigned, kept⟩ := first.bindings
    obtain ⟨later, assigned', kept'⟩ := second.bindings
    refine ⟨later ++ earlier, by rw [assigned', assigned, List.append_assoc], ?_⟩
    intro context id made shown outside
    have outside' (names : List String) (part : ∀ name ∈ names, name ∈ later ++ earlier) :
        ¬ (context ∈ localContext :: reach st.contextStack ∧ id ∈ names) :=
      fun both => outside ⟨both.1, part id both.2⟩
    rw [kept' context id (Nat.lt_of_lt_of_le made first.nextContext) shown
        (by rw [first.contextStack]; exact outside' later fun _ => List.mem_append_left _),
      kept context id made shown (outside' earlier fun _ => List.mem_append_right _)]

theorem hide (within : Scoped [] localContext st st') : Scoped hidden localContext st st' where
  contextStack := within.contextStack
  nextContext := within.nextContext
  bindings := by
    obtain ⟨names, assigned, kept⟩ := within.bindings
    exact ⟨names, assigned, fun context id made _ => kept context id made List.not_mem_nil⟩

theorem inScope (within : Scoped hidden localContext st st') (inScope : InScope localContext st) :
    InScope localContext st' where
  made := Nat.lt_of_lt_of_le inScope.made within.nextContext
  stacked := by
    rw [within.contextStack]
    exact fun context member => Nat.lt_of_lt_of_le (inScope.stacked context member) within.nextContext

/-- A change of the events alone. -/
theorem ofSame (contexts : st'.contexts = st.contexts) (stack : st'.contextStack = st.contextStack)
    (next : st'.nextContext = st.nextContext) (assigned : st'.assigned = st.assigned) :
    Scoped hidden localContext st st' where
  contextStack := stack
  nextContext := Nat.le_of_eq next.symm
  bindings := ⟨[], assigned, fun context id _ _ _ => by rw [contexts]⟩

theorem assignVariable (st : Interp F) (name : String) (more : List String)
    (value : UScriptValue F) :
    Scoped hidden localContext st (st.assignVariable localContext name more value) := by
  unfold Interp.assignVariable
  cases st.findVariable name with
  | some _ =>
      have others := foldl_updateIn_others (reach st.contextStack) st name value
      refine ⟨others.1, Nat.le_of_eq others.2.1.symm, [name], rfl, ?_⟩
      intro context id _ _ outside
      change (st.updateVariable name value).contexts context id = _
      rw [updateVariable_eq, foldl_updateIn_contexts, if_neg]
      exact fun all => outside ⟨List.mem_cons_of_mem _ all.1, List.mem_singleton.mpr all.2.1⟩
  | none =>
      have others := bindAll_others st localContext (name :: more) value.flatten
      refine ⟨others.1, Nat.le_of_eq others.2.1.symm, name :: more, rfl, ?_⟩
      intro context id _ _ outside
      change (st.bindAll localContext (name :: more) value.flatten).contexts context id = _
      rw [bindAll_contexts]
      split
      · next same =>
          have unbound : ((name :: more).zip value.flatten).reverse.lookup id = none := by
            rw [List.lookup_eq_none_iff]
            intro pair member
            have inside := List.of_mem_zip (List.mem_reverse.mp member)
            refine bne_iff_ne.mpr fun equal => outside ⟨?_, ?_⟩
            · rw [same]
              exact List.mem_cons_self
            · rw [equal]
              exact inside.1
          rw [unbound, same]
          rfl
      · rfl

/-- The parameters of a function are bound in its context alone. -/
theorem bindAll (st : Interp F) (funcContext : Nat) (ids : List String) (values : List (Scalar F)) :
    Scoped [funcContext] localContext st (st.bindAll funcContext ids values) := by
  obtain ⟨stack, next, assigned⟩ := bindAll_others st funcContext ids values
  refine ⟨stack, Nat.le_of_eq next.symm, [], assigned, ?_⟩
  intro context id _ shown _
  rw [bindAll_contexts, if_neg fun same => shown (List.mem_singleton.mpr same)]

/-- An execution in a context that is pushed, and popped behind it. -/
theorem pushed {context : Nat} {inner : Interp F} (within : Scoped [] context (st.push context) inner) :
    Scoped [] context st inner.pop where
  contextStack := by
    change inner.contextStack.tail = st.contextStack
    rw [within.contextStack]
    rfl
  nextContext := within.nextContext
  bindings := by
    obtain ⟨names, assigned, kept⟩ := within.bindings
    refine ⟨names, assigned, fun other id made shown outside => ?_⟩
    refine kept other id made shown fun both => outside ⟨?_, both.2⟩
    rcases List.mem_cons.mp both.1 with rfl | inside
    · exact List.mem_cons_self
    · exact List.mem_cons.mpr (mem_reach_cons inside)

/-- An execution in a new context. -/
theorem ofNew (within : Scoped [st.nextContext] localContext st.withContext st')
    (inner : Scoped [] st.nextContext st' st'') : Scoped [] localContext st st'' where
  contextStack := inner.contextStack.trans within.contextStack
  nextContext :=
    Nat.le_trans (Nat.le_succ st.nextContext) (Nat.le_trans within.nextContext inner.nextContext)
  bindings := by
    obtain ⟨earlier, assigned, kept⟩ := within.bindings
    obtain ⟨later, assigned', kept'⟩ := inner.bindings
    refine ⟨later ++ earlier, by rw [assigned', assigned, List.append_assoc]; rfl, ?_⟩
    intro context id made _ outside
    have old : context ≠ st.nextContext := Nat.ne_of_lt made
    have made' : context < st.withContext.nextContext := Nat.lt_succ_of_lt made
    rw [kept' context id (Nat.lt_of_lt_of_le made' within.nextContext) List.not_mem_nil ?_,
      kept context id made' (fun same => old (List.mem_singleton.mp same)) ?_]
    · change Function.update st.contexts st.nextContext (fun _ => none) context id = _
      rw [Function.update_of_ne old]
    · exact fun both => outside ⟨both.1, List.mem_append_right _ both.2⟩
    · intro both
      refine outside ⟨?_, List.mem_append_left _ both.2⟩
      rcases List.mem_cons.mp both.1 with same | inside
      · exact absurd same old
      · rw [within.contextStack] at inside
        exact List.mem_cons_of_mem _ inside

end Scoped

end Interp

open Interp

section Values

variable {F α β : Type} {hidden : List Nat} {localContext : Nat}

theorem moves_pure (value : α) :
    Relates (Scoped hidden localContext) (pure value : Eval F α) :=
  Relates.pure Scoped.refl value

theorem moves_bind {first : Eval F α} {next : α → Eval F β}
    (start : Relates (Scoped hidden localContext) first)
    (rest : ∀ value, Relates (Scoped hidden localContext) (next value)) :
    Relates (Scoped hidden localContext) (first >>= next) :=
  Relates.bind (fun _ _ _ first second => first.trans second) start rest

theorem moves_hide {computation : Eval F α} (moves : Relates (Scoped [] localContext) computation) :
    Relates (Scoped hidden localContext) computation := by
  intro st value st' ended
  exact (moves st value st' ended).hide

theorem moves_loseIf (loses : Bool) :
    Relates (Scoped hidden localContext) (loseIf loses : Eval F Unit) := by
  refine Relates.modify fun st => ?_
  cases loses with
  | false => exact Scoped.refl st
  | true => exact Scoped.ofSame rfl rfl rfl rfl

theorem moves_crash : Relates (Scoped hidden localContext) (crash : Eval F α) :=
  moves_bind (moves_loseIf true) fun _ => Relates.stop Halt.crashed

theorem moves_assignResult (name : String) (more : List String) (result : Option (UScriptValue F)) :
    Relates (Scoped hidden localContext) (assignResult localContext name more result) := by
  cases result with
  | none => exact moves_crash
  | some value =>
      rw [assignResult]
      split
      · exact moves_pure _
      · exact moves_bind (Relates.modify fun st => Scoped.assignVariable st name more value)
          fun _ => moves_pure _

theorem moves_combine (arith : FloatArith F) (action : ExpressionAction)
    (left right : Option (UScriptValue F)) :
    Relates (Scoped hidden localContext) (combine arith action left right) :=
  moves_bind (moves_loseIf _) fun _ => moves_pure _

theorem moves_executeInstruction (name : String)
    (instruction : Nat → List (Scalar F) → Int × List (Scalar F)) (inputs : List (Scalar F)) :
    Relates (Scoped hidden localContext) (executeInstruction name instruction inputs) := by
  refine moves_bind (Relates.get Scoped.refl) fun st => ?_
  obtain ⟨code, outputs⟩ := instruction st.executedCount inputs
  refine moves_bind (Relates.modify fun _ => Scoped.ofSame rfl rfl rfl rfl) fun _ => ?_
  split
  · exact moves_pure _
  · exact moves_pure _

/-- What follows is started behind the creation of a context. -/
theorem moves_newContext_bind {next : Nat → Eval F α}
    (inner : ∀ st value st', next st.nextContext st.withContext = (.ok value, st') →
      Scoped hidden localContext st st') :
    Relates (Scoped hidden localContext) (newContext >>= next) := by
  intro st value st' ended
  exact inner st value st' ended

theorem moves_inContext {context : Nat} {statements : Eval F (StatementResult F)}
    (moves : Relates (Scoped [] context) statements) :
    Relates (Scoped [] context) (inContext context statements) := by
  intro st value st' ended
  obtain ⟨_, pushed, same, rest⟩ := bind_eq_ok ended
  cases same
  obtain ⟨result, inner, reached, rest⟩ := bind_eq_ok rest
  obtain ⟨_, popped, same, rest⟩ := bind_eq_ok rest
  cases same
  cases rest
  exact (moves _ _ inner reached).pushed

theorem moves_runFunction {run : List (Stmt F) → Nat → Eval F (StatementResult F)}
    (runs : ∀ statements context, Relates (Scoped [] context) (run statements context))
    (function : ScriptFunction F) :
    Relates (Scoped [] localContext) (runFunction run function localContext) := by
  unfold runFunction
  split
  · exact moves_crash
  · exact moves_bind (runs _ _) fun _ => moves_pure _

end Values

section Execute

variable {F : Type} (env : ScriptEnv F) (script : ScriptTree F)
  {run : List (Stmt F) → Nat → Eval F (StatementResult F)}
  (runs : ∀ statements context, Relates (Scoped [] context) (run statements context))
  (localContext : Nat)

include runs

mutual

/-- By the structure of the expression. -/
theorem moves_execute : ∀ expression : Expr F,
    Relates (Scoped [] localContext) (expression.execute env script run localContext)
  | .integer _ => by
      rw [Expr.execute]
      exact moves_pure _
  | .float _ => by
      rw [Expr.execute]
      exact moves_pure _
  | .string _ => by
      rw [Expr.execute]
      exact moves_pure _
  | .identifier name => by
      rw [Expr.execute]
      exact moves_bind (Relates.get Scoped.refl) fun _ => moves_pure _
  | .assign name more value => by
      rw [Expr.execute]
      exact moves_bind (moves_execute value) fun result => moves_assignResult name more result
  | .binary action left right => by
      rw [Expr.execute]
      refine moves_bind (moves_execute left) fun leftValue => ?_
      split
      · exact moves_pure _
      · refine moves_bind (moves_loseIf _) fun _ => ?_
        exact moves_bind (moves_execute right) fun rightValue =>
          moves_combine env.arith action leftValue rightValue
  | .call name params => by
      rw [Expr.execute]
      cases env.findInstruction name with
      | some instruction =>
          refine moves_bind (moves_inputParams params) fun inputs => ?_
          cases inputs with
          | none => exact moves_pure _
          | some inputs => exact moves_executeInstruction name instruction inputs
      | none =>
          cases script.findFunction name with
          | none => exact moves_pure _
          | some function =>
              refine moves_newContext_bind fun st value st' ended => ?_
              split at ended
              · cases ended
                exact Scoped.ofNew (Scoped.refl _) (Scoped.refl _)
              · obtain ⟨values, bound, binding, ended⟩ := bind_eq_ok ended
                have within := moves_bindParams st.nextContext params function.paramNames
                  st.withContext values bound binding
                cases values with
                | none =>
                    cases ended
                    exact Scoped.ofNew within (Scoped.refl _)
                | some values =>
                    exact Scoped.ofNew within (moves_runFunction runs function bound value st' ended)

theorem moves_inputParams : ∀ params : List (Expr F),
    Relates (Scoped [] localContext) (inputParams env script run localContext params)
  | [] => by
      rw [inputParams]
      exact moves_pure _
  | param :: params => by
      rw [inputParams]
      refine moves_bind (moves_execute param) fun result => ?_
      cases result with
      | none => exact moves_pure _
      | some value =>
          dsimp only
          split
          · exact moves_pure _
          · exact moves_bind (moves_inputParams params) fun _ => moves_pure _

theorem moves_bindParams (funcContext : Nat) : ∀ (params : List (Expr F)) (names : List String),
    Relates (Scoped [funcContext] localContext)
      (bindParams env script run localContext funcContext params names)
  | [], names => by
      rw [bindParams]
      exact moves_pure _
  | param :: params, names => by
      rw [bindParams]
      refine moves_bind (moves_hide (moves_execute param)) fun result => ?_
      cases result with
      | none => exact moves_pure _
      | some value =>
          dsimp only
          split
          · exact moves_pure _
          · refine moves_bind (Relates.modify fun st => Scoped.bindAll st _ _ _) fun _ => ?_
            exact moves_bind (moves_bindParams funcContext params _) fun _ => moves_pure _

end

theorem moves_returnParams (params : List (Expr F)) :
    Relates (Scoped [] localContext) (returnParams env script run localContext params) := by
  induction params with
  | nil => exact moves_pure _
  | cons param params ih =>
      refine moves_bind (moves_execute env script runs localContext param) fun result => ?_
      cases result with
      | none => exact moves_crash
      | some value =>
          exact moves_bind (moves_loseIf _) fun _ => moves_bind ih fun _ => moves_pure _

theorem moves_executeCondition (condition : Option (Expr F)) :
    Relates (Scoped [] localContext) (executeCondition env script run localContext condition) := by
  cases condition with
  | none => exact moves_pure _
  | some condition =>
      exact moves_bind (moves_execute env script runs localContext condition) fun _ => moves_pure _

theorem moves_executeDiscarded (expression : Option (Expr F)) :
    Relates (Scoped [] localContext) (executeDiscarded env script run localContext expression) := by
  cases expression with
  | none => exact moves_pure _
  | some expression =>
      exact moves_bind (moves_execute env script runs localContext expression)
        fun _ => moves_loseIf _

omit runs in
theorem moves_executeRounds {condition : Eval F (Option Bool)}
    {center : Eval F (StatementResult F)} {after : Eval F Unit}
    (conditions : Relates (Scoped [] localContext) condition)
    (centers : Relates (Scoped [] localContext) center)
    (afters : Relates (Scoped [] localContext) after) (fuel : Nat) :
    Relates (Scoped [] localContext) (executeRounds condition center after fuel) := by
  induction fuel with
  | zero => exact Relates.stop Halt.outOfFuel
  | succ fuel ih =>
      refine moves_bind conditions fun holds => ?_
      match holds with
      | none => exact moves_pure _
      | some false => exact moves_pure _
      | some true =>
          refine moves_bind centers fun result => ?_
          cases result with
          | normal _ => exact moves_bind afters fun _ => ih
          | breakLoop => exact moves_pure _
          | continueLoop => exact moves_bind afters fun _ => ih
          | rtn _ => exact moves_pure _
          | error _ => exact moves_pure _

omit runs in
theorem moves_executeBranch (block : List (Stmt F)) {statements : Nat → Eval F (StatementResult F)}
    (moves : ∀ context, Relates (Scoped [] context) (statements context)) :
    Relates (Scoped [] localContext) (executeBranch block statements) := by
  cases block with
  | nil => exact moves_pure _
  | cons _ _ =>
      refine moves_newContext_bind fun st value st' ended => ?_
      exact Scoped.ofNew (Scoped.refl _) (moves_inContext (moves st.nextContext) _ value st' ended)

omit runs in
theorem moves_executeCenter (block : List (Stmt F)) {statements : Eval F (StatementResult F)}
    (moves : Relates (Scoped [] localContext) statements) :
    Relates (Scoped [] localContext) (executeCenter localContext block statements) := by
  cases block with
  | nil => exact moves_crash
  | cons _ _ => exact moves_inContext moves

variable (fuel : Nat)

mutual

/-- By the structure of the statement. -/
theorem moves_statement (context : Nat) : ∀ statement : Stmt F,
    Relates (Scoped [] context) (statement.execute env script run fuel context)
  | .expression value => by
      rw [Stmt.execute]
      exact moves_bind (moves_execute env script runs context value) fun _ => moves_pure _
  | .ifBlock condition trues falses => by
      rw [Stmt.execute]
      refine moves_bind (moves_executeCondition env script runs context (some condition))
        fun holds => ?_
      match holds with
      | none => exact moves_pure _
      | some true => exact moves_executeBranch context trues fun inner => moves_executeAll inner _ trues
      | some false =>
          exact moves_executeBranch context falses fun inner => moves_executeAll inner _ falses
  | .ifElseIf condition trues next => by
      rw [Stmt.execute]
      refine moves_bind (moves_executeCondition env script runs context (some condition))
        fun holds => ?_
      match holds with
      | none => exact moves_pure _
      | some true => exact moves_executeBranch context trues fun inner => moves_executeAll inner _ trues
      | some false => exact moves_statement context next
  | .forLoop first condition after body => by
      rw [Stmt.execute]
      refine moves_bind (moves_executeDiscarded env script runs context first) fun _ => ?_
      exact moves_executeRounds context (moves_executeCondition env script runs context condition)
        (moves_executeCenter context body (moves_executeAll context _ body))
        (moves_executeDiscarded env script runs context after) fuel
  | .whileLoop condition body => by
      rw [Stmt.execute]
      exact moves_executeRounds context (moves_executeCondition env script runs context condition)
        (moves_executeCenter context body (moves_executeAll context _ body)) (moves_pure ()) fuel
  | .breakLoop => by
      rw [Stmt.execute]
      exact moves_pure _
  | .continueLoop => by
      rw [Stmt.execute]
      exact moves_pure _
  | .returnValues [] => by
      rw [Stmt.execute]
      exact moves_pure _
  | .returnValues (param :: params) => by
      rw [Stmt.execute]
      exact moves_bind (moves_returnParams env script runs context (param :: params))
        fun _ => moves_pure _

theorem moves_executeAll (context : Nat) (last : StatementResult F) :
    ∀ statements : List (Stmt F),
      Relates (Scoped [] context) (executeAll env script run fuel context last statements)
  | [] => by
      rw [executeAll]
      exact moves_pure _
  | statement :: statements => by
      rw [executeAll]
      refine moves_bind (moves_statement context statement) fun result => ?_
      cases result with
      | normal value => exact moves_executeAll context (.normal value) statements
      | breakLoop => exact moves_pure _
      | continueLoop => exact moves_pure _
      | rtn _ => exact moves_pure _
      | error _ => exact moves_pure _

end

omit runs in
/-- Whatever the statements end with, the stack is what it was before them. -/
theorem moves_runStatements (statements : List (Stmt F)) (context : Nat) :
    Relates (Scoped [] context) (runStatements env script fuel statements context) := by
  induction fuel generalizing statements context with
  | zero => exact Relates.stop Halt.outOfFuel
  | succ fuel ih => exact moves_inContext (moves_executeAll env script ih fuel context _ statements)

end Execute

section Assignment

variable {F : Type}

/-- What an assignment does to the variables: one that is found is set, in the context that it is
found in; otherwise the identifiers are bound in the local context. -/
structure Assigned (localContext : Nat) (name : String) (more : List String)
    (value : UScriptValue F) (st st' : Interp F) : Prop where
  contextStack : st'.contextStack = st.contextStack
  found : ∀ context, st.resolve name = some context →
    st'.contexts context name = some value ∧
      ∀ other id, other ∉ reach st.contextStack ∨ id ≠ name →
        st'.contexts other id = st.contexts other id
  made : st.resolve name = none → ∀ other id,
    st'.contexts other id =
      if other = localContext then
        ((((name :: more).zip value.flatten).reverse.lookup id).map .scalar).or
          (st.contexts localContext id)
      else st.contexts other id

theorem assigned_assignVariable (st : Interp F) (localContext : Nat) (name : String)
    (more : List String) (value : UScriptValue F) :
    Assigned localContext name more value st (st.assignVariable localContext name more value) where
  contextStack := (@Scoped.assignVariable F [] localContext st name more value).contextStack
  found := by
    intro context resolved
    have bound : (st.contexts context name).isSome = true := by
      unfold resolve at resolved
      exact List.find?_some (p := fun context => (st.contexts context name).isSome) resolved
    have inside : context ∈ reach st.contextStack := List.mem_of_find?_eq_some resolved
    have updated : (st.assignVariable localContext name more value).contexts =
        (st.updateVariable name value).contexts := by
      unfold Interp.assignVariable
      cases found : st.findVariable name with
      | some _ => rfl
      | none =>
          rw [resolve_eq_none.mpr found] at resolved
          cases resolved
    rw [updated, updateVariable_eq]
    constructor
    · rw [foldl_updateIn_contexts, if_pos ⟨inside, rfl, bound⟩]
    · intro other id outside
      rw [foldl_updateIn_contexts, if_neg]
      rintro ⟨reached, same, -⟩
      exact outside.elim (fun unreached => unreached reached) fun differs => differs same
  made := by
    intro unresolved other id
    have bound : (st.assignVariable localContext name more value).contexts =
        (st.bindAll localContext (name :: more) value.flatten).contexts := by
      unfold Interp.assignVariable
      rw [resolve_eq_none.mp unresolved]
    rw [bound, bindAll_contexts]

end Assignment

theorem zip_append_right {α β : Type} (names : List α) (first rest : List β) :
    names.zip (first ++ rest) = names.zip first ++ (names.drop first.length).zip rest := by
  induction first generalizing names with
  | nil => rw [List.nil_append, List.zip_nil_right, List.nil_append, List.length_nil, List.drop_zero]
  | cons value first ih =>
      cases names with
      | nil => simp
      | cons name names =>
          rw [List.cons_append, List.zip_cons_cons, ih, List.zip_cons_cons, List.cons_append,
            List.length_cons, List.drop_succ_cons]

section Scopes

variable {F : Type} (env : ScriptEnv F) (script : ScriptTree F)
  {run : List (Stmt F) → Nat → Eval F (StatementResult F)}
  (runs : ∀ statements context, Relates (Scoped [] context) (run statements context))
  (localContext : Nat)

include runs

/-- The values of the arguments, those of lists one by one, are bound to the names in order, in a
context that the arguments do not see. -/
theorem bindParams_contexts {funcContext : Nat} (params : List (Expr F)) {names : List String}
    {st st' : Interp F} {values : List (UScriptValue F)} (made : funcContext < st.nextContext)
    (unseen : funcContext ∉ localContext :: reach st.contextStack)
    (ended : bindParams env script run localContext funcContext params names st =
      (.ok (some values), st')) :
    values.length = params.length ∧ (∀ value ∈ values, value.isError = false) ∧
      ∀ id, st'.contexts funcContext id =
        (((names.zip (values.flatMap UScriptValue.flatten)).reverse.lookup id).map .scalar).or
          (st.contexts funcContext id) := by
  induction params generalizing names st values with
  | nil =>
      rw [bindParams] at ended
      cases ended
      refine ⟨rfl, fun value impossible => absurd impossible List.not_mem_nil, fun id => ?_⟩
      rw [List.flatMap_nil, List.zip_nil_right]
      rfl
  | cons param params ih =>
      rw [bindParams] at ended
      obtain ⟨result, seen, executed, ended⟩ := bind_eq_ok ended
      have within := moves_execute env script runs localContext param st result seen executed
      have same (id : String) : seen.contexts funcContext id = st.contexts funcContext id := by
        obtain ⟨_, _, kept⟩ := within.bindings
        exact kept funcContext id made List.not_mem_nil fun both => unseen both.1
      cases result with
      | none => cases ended
      | some value =>
          dsimp only at ended
          split at ended
          · cases ended
          · next fits =>
              obtain ⟨_, bound, set, ended⟩ := bind_eq_ok ended
              cases set
              obtain ⟨rest, last, followed, ended⟩ := bind_eq_ok ended
              obtain ⟨stack, next, -⟩ := bindAll_others seen funcContext names value.flatten
              cases rest with
              | none => cases ended
              | some rest =>
                  cases ended
                  obtain ⟨length, valid, contexts⟩ := ih
                    (by rw [next]; exact Nat.lt_of_lt_of_le made within.nextContext)
                    (by rw [stack, within.contextStack]; exact unseen) followed
                  refine ⟨congrArg Nat.succ length, ?_, fun id => ?_⟩
                  · intro other member
                    cases member with
                    | head => exact Bool.of_not_eq_true fun isError => fits (.inl isError)
                    | tail _ member => exact valid other member
                  · rw [contexts id, bindAll_contexts, if_pos rfl, same id, List.flatMap_cons,
                      zip_append_right, List.reverse_append, List.lookup_append, Option.map_or,
                      Option.or_assoc]

end Scopes

theorem lookup_reverse_zip {β : Type} {names : List String} {values : List β}
    (distinct : names.Nodup) {i : Nat} {id : String} {value : β} (named : names[i]? = some id)
    (valued : values[i]? = some value) : (names.zip values).reverse.lookup id = some value := by
  induction names generalizing values i with
  | nil => cases named
  | cons name names ih =>
      rw [List.nodup_cons] at distinct
      cases values with
      | nil => cases valued
      | cons first values =>
          rw [List.zip_cons_cons, List.reverse_cons, List.lookup_append]
          cases i with
          | zero =>
              cases named
              cases valued
              have unbound : (names.zip values).reverse.lookup id = none := by
                rw [List.lookup_eq_none_iff]
                intro pair member
                have inside := (List.of_mem_zip (List.mem_reverse.mp member)).1
                exact bne_iff_ne.mpr fun equal => distinct.1 (by rw [equal]; exact inside)
              rw [unbound, List.lookup_cons_self]
              rfl
          | succ i =>
              rw [ih distinct.2 named valued]
              rfl

/-- The values of arguments, those of lists one by one, as the variables of the context of the
function; of two parameters with one name the later one counts. -/
structure BoundTo {F : Type} (function : ScriptFunction F) (values : List (UScriptValue F))
    (funcContext : Nat) (st : Interp F) : Prop where
  valid : ∀ value ∈ values, value.isError = false
  parameters : ∀ id, st.contexts funcContext id =
    ((function.paramNames.zip (values.flatMap UScriptValue.flatten)).reverse.lookup id).map .scalar
  inOrder : function.paramNames.Nodup → ∀ (i : Nat) (id : String) (value : Scalar F),
    function.paramNames[i]? = some id → (values.flatMap UScriptValue.flatten)[i]? = some value →
      st.contexts funcContext id = some (.scalar value)

section Calls

variable {F : Type} (env : ScriptEnv F) (script : ScriptTree F)
  {run : List (Stmt F) → Nat → Eval F (StatementResult F)}
  (runs : ∀ statements context, Relates (Scoped [] context) (run statements context))
  {localContext : Nat}

theorem Interp.InScope.unseen {st : Interp F} (inScope : InScope localContext st) :
    st.nextContext ∉ localContext :: reach st.contextStack := by
  intro seen
  rcases List.mem_cons.mp seen with same | inside
  · exact Nat.lt_irrefl _ (same ▸ inScope.made)
  · exact Nat.lt_irrefl _ (inScope.stacked _ (mem_of_mem_reach inside))

/-- A call of a function binds the values of its arguments in a new context, and runs the
statements of the function from there. -/
theorem call_bound {name : String} {params : List (Expr F)} {function : ScriptFunction F}
    (runs : ∀ statements context, Relates (Scoped [] context) (run statements context))
    {st st' : Interp F} {result : Option (UScriptValue F)} (inScope : InScope localContext st)
    (foreign : env.findInstruction name = none) (found : script.findFunction name = some function)
    (ended : (Expr.call name params).execute env script run localContext st = (.ok result, st')) :
    (∃ code, result = errorValue code) ∨ ∃ values bound, values.length = params.length ∧
      BoundTo function values st.nextContext bound ∧
      Scoped [st.nextContext] localContext st.withContext bound ∧
      runFunction run function st.nextContext bound = (.ok result, st') := by
  rw [Expr.execute] at ended
  simp only [foreign, found] at ended
  obtain ⟨funcContext, created, made, ended⟩ := bind_eq_ok ended
  cases made
  split at ended
  · cases ended
    exact .inl ⟨_, rfl⟩
  · obtain ⟨values, bound, binding, ended⟩ := bind_eq_ok ended
    cases values with
    | none =>
        cases ended
        exact .inl ⟨_, rfl⟩
    | some values =>
        have unseen : st.nextContext ∉ localContext :: reach st.withContext.contextStack :=
          inScope.unseen
        obtain ⟨length, valid, contexts⟩ := bindParams_contexts env script runs localContext params
          (Nat.lt_succ_self st.nextContext) unseen binding
        have parameters (id : String) : bound.contexts st.nextContext id =
            ((function.paramNames.zip (values.flatMap UScriptValue.flatten)).reverse.lookup id).map
              .scalar := by
          have empty : st.withContext.contexts st.nextContext id = none := by
            change Function.update st.contexts st.nextContext (fun _ => none) st.nextContext id = _
            rw [Function.update_self]
          rw [contexts id, empty, Option.or_none]
        refine .inr ⟨values, bound, length, ⟨valid, parameters, ?_⟩, ?_, ended⟩
        · intro distinct i id value named valued
          rw [parameters id, lookup_reverse_zip distinct named valued]
          rfl
        · exact moves_bindParams env script runs localContext st.nextContext params
            function.paramNames st.withContext (some values) bound binding

/-- An assignment that ends has set the variable, unless its value is an error. -/
theorem assign_ended {name : String} {more : List String} {value : Expr F} {st st' : Interp F}
    {result : Option (UScriptValue F)}
    (ended : (Expr.assign name more value).execute env script run localContext st =
      (.ok result, st')) :
    ∃ before, value.execute env script run localContext st = (.ok result, before) ∧
      (failed result = true ∧ st' = before ∨
        ∃ assigned, result = some assigned ∧ assigned.isError = false ∧
          Assigned localContext name more assigned before st') := by
  rw [Expr.execute] at ended
  obtain ⟨evaluated, before, executed, ended⟩ := bind_eq_ok ended
  cases evaluated with
  | none => cases ended
  | some assigned =>
      rw [assignResult] at ended
      split at ended
      · next isError =>
          cases ended
          exact ⟨_, executed, .inl ⟨isError, rfl⟩⟩
      · next isValue =>
          cases ended
          exact ⟨before, executed, .inr ⟨assigned, rfl, Bool.of_not_eq_true isValue,
            assigned_assignVariable before localContext name more assigned⟩⟩

end Calls

/-- The first context of a script, the block of an `if`, that of a loop, and the body of a function
are executed in scope. -/
theorem Interp.InScope.start {F : Type} :
    InScope topContext ((Interp.start : Interp F).push topContext) where
  made := Nat.lt_succ_self topContext
  stacked := by
    intro context member
    cases List.mem_singleton.mp member
    exact Nat.lt_succ_self topContext

theorem Interp.InScope.push {F : Type} {localContext context : Nat} {st : Interp F}
    (inScope : InScope localContext st) (made : context < st.nextContext) :
    InScope context (st.push context) where
  made := made
  stacked := by
    intro other member
    rcases List.mem_cons.mp member with rfl | below
    · exact made
    · exact inScope.stacked other below

section Settled

variable {F : Type} (env : ScriptEnv F) (script : ScriptTree F) (fuel : Nat)

end Settled

/-- `x = 1; set(next(), 7);` with `function set(a, b) { x = a; }` -/
def settingScript : ScriptTree Int where
  statements :=
    [.expression (.assign "x" [] (.integer 1)),
      .expression (.call "set" [.call "next" [], .integer 7])]
  functions :=
    [("set", {
      params := [.identifier "a", .identifier "b"]
      statements := [.expression (.assign "x" [] (.identifier "a"))] })]

end Updater.Script
