import Updater.Script.Interpreter

/-! What becomes of the failure of an instruction: which steps of the interpreter carry it on, and
which go on without it. -/

set_option autoImplicit false

namespace Updater.Script

open Updater.Base Machine

/-- The code of an instruction that `ExecuteNativeFunc` makes an error of. -/
def Event.fails : Event → Prop
  | .executed _ code => code ≠ uscriptSuccess ∧ code ≠ uscriptUpdaterModeValue
  | .lost => False

/-- No event of the list is a failure. -/
def Unfailing (events : List Event) : Prop :=
  ∀ event ∈ events, ¬ event.fails

/-- The latest event is a failure, and the first one. -/
def Broken (events : List Event) : Prop :=
  ∃ event earlier, events = event :: earlier ∧ event.fails ∧ Unfailing earlier

/-- The interpreter has gone on without the failure of a value behind that of an instruction. -/
def Dropped (events : List Event) : Prop :=
  ∃ event : Event, event.fails ∧ List.Sublist [.lost, event] events

theorem Dropped.cons {events : List Event} (dropped : Dropped events) (event : Event) :
    Dropped (event :: events) := by
  obtain ⟨failure, fails, inside⟩ := dropped
  exact ⟨failure, fails, inside.cons event⟩

theorem Broken.lost {events : List Event} (broken : Broken events) :
    Dropped (.lost :: events) := by
  obtain ⟨failure, earlier, rfl, fails, -⟩ := broken
  exact ⟨failure, fails, ((List.nil_sublist earlier).cons_cons failure).cons_cons .lost⟩

theorem Unfailing.cons {events : List Event} (unfailing : Unfailing events) {event : Event}
    (passes : ¬ event.fails) : Unfailing (event :: events) := by
  intro other member
  cases member with
  | head => exact passes
  | tail _ member => exact unfailing other member

section Carries

variable {F α β : Type}

/-- Behind a failure: it is lost, or there is a value that stands for it. -/
def Unwound (bad : α → Prop) (result : Except Halt α) (st : Interp F) : Prop :=
  Dropped st.events ∨ Broken st.events ∧ ∃ value, result = .ok value ∧ bad value

theorem Unwound.weaken {bad weaker : α → Prop} {result : Except Halt α} {st : Interp F}
    (unwound : Unwound bad result st) (implies : ∀ value, bad value → weaker value) :
    Unwound weaker result st := by
  rcases unwound with dropped | ⟨broken, value, same, isBad⟩
  · exact .inl dropped
  · exact .inr ⟨broken, value, same, implies value isBad⟩

/-- The computation makes a value that stands for the failure of each instruction that it executes,
and executes none behind it, or a failure is lost. -/
structure Carries (bad : α → Prop) (computation : Eval F α) : Prop where
  unfailing : Meets (fun st => Unfailing st.events) computation
    fun result st => Unfailing st.events ∨ Unwound bad result st
  dropped : Meets (fun st => Dropped st.events) computation fun _ st => Dropped st.events

/-- Started behind a failure, the computation ends with a value that stands for it. -/
def Passes (bad : α → Prop) (computation : Eval F α) : Prop :=
  Meets (fun st => Broken st.events) computation (Unwound bad)

namespace Carries

variable {bad : α → Prop} {worse : β → Prop}

theorem pure (value : α) : Carries bad (Pure.pure value : Eval F α) where
  unfailing := Meets.pure fun _ started => .inl started
  dropped := Meets.pure fun _ started => started

theorem get {bad : Interp F → Prop} : Carries bad (Machine.get : Eval F (Interp F)) where
  unfailing := fun _ started => .inl started
  dropped := fun _ started => started

theorem modify {bad : Unit → Prop} {change : Interp F → Interp F}
    (kept : ∀ st, (change st).events = st.events) : Carries bad (Machine.modify change) where
  unfailing := Meets.modify fun st started => .inl (by rw [kept st]; exact started)
  dropped := Meets.modify fun st started => by rw [kept st]; exact started

theorem stop (reason : Halt) : Carries bad (Machine.stop reason : Eval F α) where
  unfailing := Meets.stop fun _ started => .inl started
  dropped := Meets.stop fun _ started => started

theorem loseIf {bad : Unit → Prop} (loses : Bool) : Carries bad (loseIf loses : Eval F Unit) := by
  cases loses with
  | false => exact modify fun _ => rfl
  | true =>
      exact {
        unfailing := Meets.modify fun _ started => .inl (started.cons not_false)
        dropped := Meets.modify fun _ started => started.cons .lost }

theorem bind {first : Eval F α} {next : α → Eval F β} (start : Carries bad first)
    (rest : ∀ value, Carries worse (next value))
    (carried : ∀ value, bad value → Passes worse (next value)) : Carries worse (first >>= next) where
  unfailing := by
    refine Meets.bind start.unfailing ?_ ?_
    · intro value st reached
      rcases reached with unfailing | dropped | ⟨broken, other, same, isBad⟩
      · exact (rest value).unfailing st unfailing
      · exact .inr (.inl ((rest value).dropped st dropped))
      · cases same
        exact .inr (carried value isBad st broken)
    · intro reason st reached
      rcases reached with unfailing | dropped | ⟨-, other, same, -⟩
      · exact .inl unfailing
      · exact .inr (.inl dropped)
      · cases same
  dropped := Meets.bind start.dropped (fun value => (rest value).dropped) fun _ _ dropped => dropped

/-- A sequence whose first part has no value that stands for a failure. -/
theorem bind_never {first : Eval F α} {next : α → Eval F β}
    (start : Carries (fun _ => False) first) (rest : ∀ value, Carries worse (next value)) :
    Carries worse (first >>= next) :=
  start.bind rest fun _ impossible => impossible.elim

theorem weaken {first : Eval F α} {weaker : α → Prop} (carries : Carries bad first)
    (implies : ∀ value, bad value → weaker value) : Carries weaker first where
  unfailing := Meets.weaken carries.unfailing fun _ _ reached =>
    reached.imp_right fun unwound => unwound.weaken implies
  dropped := carries.dropped

theorem crash : Carries bad (crash : Eval F α) :=
  (loseIf true).bind_never fun _ => stop .crashed

end Carries

namespace Passes

variable {bad : α → Prop} {worse : β → Prop}

theorem pure {value : α} (isBad : bad value) : Passes bad (Pure.pure value : Eval F α) :=
  Meets.pure fun _ broken => .inr ⟨broken, value, rfl, isBad⟩

theorem get {good : Interp F → Prop} (holds : ∀ st, good st) :
    Passes good (Machine.get : Eval F (Interp F)) :=
  fun st broken => .inr ⟨broken, st, rfl, holds st⟩

theorem modify {change : Interp F → Interp F} (kept : ∀ st, (change st).events = st.events) :
    Passes (fun _ => True) (Machine.modify change) :=
  Meets.modify fun st broken => .inr ⟨by rw [kept st]; exact broken, (), rfl, trivial⟩

theorem loseIf_true {bad : Unit → Prop} : Passes bad (loseIf true : Eval F Unit) :=
  Meets.modify fun _ broken => .inl broken.lost

theorem bind {first : Eval F α} {next : α → Eval F β} (start : Passes bad first)
    (kept : ∀ value, Carries worse (next value))
    (rest : ∀ value, bad value → Passes worse (next value)) : Passes worse (first >>= next) := by
  refine Meets.bind start ?_ ?_
  · intro value st reached
    rcases reached with dropped | ⟨broken, other, same, isBad⟩
    · exact .inl ((kept value).dropped st dropped)
    · cases same
      exact rest value isBad st broken
  · intro reason st reached
    rcases reached with dropped | ⟨-, other, same, -⟩
    · exact .inl dropped
    · cases same

/-- Where the first part loses the failure, the others only have to keep that. -/
theorem bind_lost {first : Eval F α} {next : α → Eval F β} (start : Passes (fun _ => False) first)
    (kept : ∀ value, Carries worse (next value)) : Passes worse (first >>= next) :=
  start.bind kept fun _ impossible => impossible.elim

theorem crash : Passes bad (crash : Eval F α) :=
  loseIf_true.bind_lost fun _ => Carries.stop .crashed

end Passes

end Carries

/-- A null pointer, or an error with a code that is no success. -/
def BadValue {F : Type} (value : Option (UScriptValue F)) : Prop :=
  value = none ∨ ∃ code, code ≠ uscriptSuccess ∧ value = errorValue code

def BadResult {F : Type} (result : StatementResult F) : Prop :=
  ∃ code, code ≠ uscriptSuccess ∧ result = .error code

section Values

variable {F : Type}

theorem BadValue.failed {value : Option (UScriptValue F)} (bad : BadValue value) :
    failed value = true := by
  rcases bad with rfl | ⟨code, -, rfl⟩ <;> rfl

theorem BadValue.not_true {value : Option (UScriptValue F)} (arith : FloatArith F)
    (bad : BadValue value) : value.any (UScriptValue.isTrue arith) = false := by
  rcases bad with rfl | ⟨code, isBad, rfl⟩
  · rfl
  · exact decide_eq_false isBad

theorem badValue_interpret : BadValue (errorValue uscriptErrorInterpret : Option (UScriptValue F)) :=
  .inr ⟨uscriptErrorInterpret, by decide, rfl⟩

theorem badResult_ofValue {value : Option (UScriptValue F)} (undefinedCode : Int)
    (bad : BadValue value) : BadResult (StatementResult.ofValue undefinedCode value) := by
  rcases bad with rfl | ⟨code, isBad, rfl⟩
  · exact ⟨uscriptInvalidParam, by decide, rfl⟩
  · exact ⟨code, isBad, rfl⟩

theorem badValue_value {result : StatementResult F} (bad : BadResult result) :
    BadValue result.value := by
  obtain ⟨code, -, rfl⟩ := bad
  exact .inl rfl

theorem carries_newContext {bad : Nat → Prop} : Carries bad (newContext : Eval F Nat) := by
  refine Carries.get.bind_never fun st => ?_
  refine Carries.bind_never (Carries.modify ?_) fun _ => Carries.pure st.nextContext
  exact fun _ => rfl

theorem events_updateVariable (st : Interp F) (id : String) (value : UScriptValue F) :
    (st.updateVariable id value).events = st.events := by
  unfold Interp.updateVariable
  generalize reach st.contextStack = contexts
  induction contexts generalizing st with
  | nil => rfl
  | cons context contexts ih =>
      rw [List.foldl_cons, ih]
      split
      · rfl
      · rfl

theorem events_bindAll (st : Interp F) (context : Nat) (ids : List String)
    (values : List (Scalar F)) : (st.bindAll context ids values).events = st.events := by
  induction ids generalizing st values with
  | nil => rfl
  | cons id ids ih =>
      cases values with
      | nil => rfl
      | cons value values => exact ih _ values

theorem events_assignVariable (st : Interp F) (localContext : Nat) (name : String)
    (more : List String) (value : UScriptValue F) :
    (st.assignVariable localContext name more value).events = st.events := by
  unfold Interp.assignVariable
  cases st.findVariable name with
  | some _ => exact events_updateVariable st name value
  | none => exact events_bindAll st localContext (name :: more) value.flatten

/-- An assignment behind its value: an update, and the value again. -/
theorem carries_assignResult {bad : Option (UScriptValue F) → Prop} (localContext : Nat)
    (name : String) (more : List String) (result : Option (UScriptValue F)) :
    Carries bad (assignResult localContext name more result) := by
  cases result with
  | none => exact Carries.crash
  | some value =>
      rw [assignResult]
      split
      · exact Carries.pure _
      · exact (Carries.modify fun st => events_assignVariable st _ _ _ _).bind_never
          fun _ => Carries.pure _

theorem passes_assignResult (localContext : Nat) (name : String) (more : List String)
    {result : Option (UScriptValue F)} (isBad : BadValue result) :
    Passes BadValue (assignResult localContext name more result) := by
  rcases isBad with rfl | ⟨code, isBad, rfl⟩
  · exact Passes.crash
  · exact Passes.pure (.inr ⟨code, isBad, rfl⟩)

/-- Whatever the value of an assignment is, it is made no failure of. -/
theorem calm_assignResult (localContext : Nat) (name : String) (more : List String)
    (result : Option (UScriptValue F)) :
    Passes (fun _ => True) (assignResult localContext name more result) := by
  cases result with
  | none => exact Passes.crash
  | some value =>
      rw [assignResult]
      split
      · exact Passes.pure trivial
      · exact (Passes.modify fun st => events_assignVariable st _ _ _ _).bind
          (fun _ => Carries.pure _) fun _ _ => Passes.pure trivial

/-- An error that an operator makes is that of the interpreter. -/
def Interpreted (value : Scalar F) : Prop :=
  value.isError = true → value = .error uscriptErrorInterpret

theorem interpreted_truthInt (value : Bool) : Interpreted (truthInt value : Scalar F) := by
  intro isError
  cases isError

theorem interpreted_toScalar {N : Type} {number : N → Scalar F} {truth : Bool → Scalar F}
    (numbers : ∀ value, Interpreted (number value)) (truths : ∀ value, Interpreted (truth value))
    (computed : Computed N) : Interpreted (computed.toScalar number truth) := by
  cases computed with
  | number value => exact numbers value
  | truth value => exact truths value
  | failed => exact fun _ => rfl

theorem interpreted_integer (value : Int) : Interpreted (.integer value : Scalar F) := by
  intro isError
  cases isError

theorem interpreted_float (value : F) : Interpreted (.float value : Scalar F) := by
  intro isError
  cases isError

theorem interpreted_integerComputer (arith : FloatArith F) (left : Int) (action : ExpressionAction)
    (right : Scalar F) : Interpreted (Scalar.integerComputer arith left action right) := by
  cases right with
  | integer right => exact interpreted_toScalar interpreted_integer interpreted_truthInt _
  | float right => exact interpreted_toScalar interpreted_float interpreted_truthInt _
  | string _ => exact fun _ => rfl
  | error _ => exact fun _ => rfl
  | undefined => exact fun _ => rfl

theorem interpreted_floatComputer (arith : FloatArith F) (left : F) (action : ExpressionAction)
    (right : Scalar F) : Interpreted (Scalar.floatComputer arith left action right) := by
  unfold Scalar.floatComputer
  split
  · exact interpreted_truthInt _
  · exact interpreted_truthInt _
  · split
    · split
      · exact fun _ => rfl
      · exact interpreted_float _
    · split
      · exact fun _ => rfl
      · exact interpreted_float _
    · exact fun _ => rfl
  · split
    · exact interpreted_toScalar interpreted_float (fun _ => interpreted_float _) _
    · exact interpreted_toScalar (fun _ => interpreted_integer _) interpreted_truthInt _
    · exact fun _ => rfl

theorem interpreted_stringComputer (arith : FloatArith F) (left : List Char)
    (action : ExpressionAction) (right : Scalar F) :
    Interpreted (Scalar.stringComputer arith left action right) := by
  unfold Scalar.stringComputer
  split
  · exact fun isError => by cases isError
  · exact fun isError => by cases isError
  · exact fun isError => by cases isError
  · exact fun _ => rfl
  · unfold compareTexts
    split
    all_goals first
      | exact interpreted_truthInt _
      | exact fun _ => rfl
  · exact fun _ => rfl

theorem badValue_scalarComputer (arith : FloatArith F) (left : Scalar F) (action : ExpressionAction)
    (right : Option (Scalar F))
    (isFailed : failed ((left.computer arith action right).map .scalar) = true) :
    BadValue ((left.computer arith action right).map .scalar) := by
  have interpreted (value : Scalar F) (holds : Interpreted value)
      (isFailed : failed (some (.scalar value)) = true) : BadValue (some (.scalar value)) := by
    rw [holds isFailed]
    exact badValue_interpret
  cases left with
  | error _ => exact .inl rfl
  | undefined => exact badValue_interpret
  | integer value =>
      cases right with
      | none => exact badValue_interpret
      | some right =>
          exact interpreted _ (interpreted_integerComputer arith value action right) isFailed
  | float value =>
      cases right with
      | none => exact badValue_interpret
      | some right =>
          exact interpreted _ (interpreted_floatComputer arith value action right) isFailed
  | string value =>
      cases right with
      | none => exact badValue_interpret
      | some right =>
          exact interpreted _ (interpreted_stringComputer arith value action right) isFailed

/-- Where an operator fails, its value stands for a failure. -/
theorem badValue_computer (arith : FloatArith F) (left : UScriptValue F) (action : ExpressionAction)
    (right : UScriptValue F) (isFailed : failed (left.computer arith action right) = true) :
    BadValue (left.computer arith action right) := by
  match left with
  | .scalar value => exact badValue_scalarComputer arith value action _ isFailed
  | .list [] => exact badValue_interpret
  | .list [value] => exact badValue_scalarComputer arith value action _ isFailed
  | .list (_ :: _ :: _) => exact badValue_interpret

theorem badValue_combined_left (arith : FloatArith F) (action : ExpressionAction)
    {left : Option (UScriptValue F)} (right : Option (UScriptValue F)) (isBad : BadValue left) :
    BadValue (combined arith action left right) := by
  rcases isBad with rfl | ⟨code, -, rfl⟩
  · exact badValue_interpret
  · cases right with
    | none => exact badValue_interpret
    | some _ => exact .inl rfl

theorem badValue_combined (arith : FloatArith F) (action : ExpressionAction)
    (left right : Option (UScriptValue F))
    (isFailed : failed (combined arith action left right) = true) :
    BadValue (combined arith action left right) := by
  cases left with
  | none => exact badValue_interpret
  | some left =>
      cases right with
      | none => exact badValue_interpret
      | some right => exact badValue_computer arith left action right isFailed

theorem carries_combine {bad : Option (UScriptValue F) → Prop} (arith : FloatArith F)
    (action : ExpressionAction) (left right : Option (UScriptValue F)) :
    Carries bad (combine arith action left right) :=
  (Carries.loseIf _).bind_never fun _ => Carries.pure _

/-- The failure of an operand is lost, or the operator fails too. -/
theorem passes_combine (arith : FloatArith F) (action : ExpressionAction)
    {left right : Option (UScriptValue F)} (isBad : BadValue left ∨ BadValue right) :
    Passes BadValue (combine arith action left right) := by
  unfold combine
  cases loses : failed right && !failed (combined arith action left right) with
  | true => exact Passes.loseIf_true.bind_lost fun _ => Carries.pure _
  | false =>
      refine (Passes.modify fun _ => rfl).bind (fun _ => Carries.pure _) fun _ _ => Passes.pure ?_
      rcases isBad with isBad | isBad
      · exact badValue_combined_left arith action right isBad
      · rw [isBad.failed, Bool.true_and, Bool.not_eq_false'] at loses
        exact badValue_combined arith action left right loses

/-- Behind the operands, an operator executes nothing. -/
theorem calm_combine (arith : FloatArith F) (action : ExpressionAction)
    (left right : Option (UScriptValue F)) :
    Passes (fun _ => True) (combine arith action left right) := by
  unfold combine
  cases failed right && !failed (combined arith action left right) with
  | true => exact Passes.loseIf_true.bind_lost fun _ => Carries.pure _
  | false =>
      exact (Passes.modify fun _ => rfl).bind (fun _ => Carries.pure _)
        fun _ _ => Passes.pure trivial

/-- The code of an instruction comes back as an error when it is a failure. -/
theorem carries_executeInstruction (name : String)
    (instruction : Nat → List (Scalar F) → Int × List (Scalar F)) (inputs : List (Scalar F)) :
    Carries BadValue (executeInstruction name instruction inputs) := by
  refine Carries.get.bind_never fun st => ?_
  obtain ⟨code, outputs⟩ := instruction st.executedCount inputs
  by_cases fails : code ≠ uscriptSuccess ∧ code ≠ uscriptUpdaterModeValue
  · simp only [if_pos fails]
    exact {
      unfailing := fun st unfailing =>
        .inr (.inr ⟨⟨.executed name code, st.events, rfl, fails, unfailing⟩,
          errorValue code, rfl, .inr ⟨code, fails.1, rfl⟩⟩)
      dropped := fun st dropped => dropped.cons _ }
  · simp only [if_neg fails]
    exact {
      unfailing := fun st unfailing => .inl (unfailing.cons fails)
      dropped := fun st dropped => dropped.cons _ }

theorem carries_runFunction {run : List (Stmt F) → Nat → Eval F (StatementResult F)}
    (runs : ∀ statements context, Carries BadResult (run statements context))
    (function : ScriptFunction F) (funcContext : Nat) :
    Carries BadValue (runFunction run function funcContext) := by
  unfold runFunction
  split
  · exact Carries.crash
  · exact (runs function.statements funcContext).bind (fun _ => Carries.pure _)
      fun _ isBad => Passes.pure (badValue_value isBad)

end Values

section Execute

variable {F : Type} (env : ScriptEnv F) (script : ScriptTree F)
  {run : List (Stmt F) → Nat → Eval F (StatementResult F)} (localContext : Nat)

/-- An operand: it carries failures, and where it has no call it executes nothing behind one. -/
structure Operand (calls : Bool) (computation : Eval F (Option (UScriptValue F))) : Prop where
  carries : Carries BadValue computation
  calm : calls = false → Passes (fun _ => True) computation

theorem Operand.pure (calls : Bool) (value : Option (UScriptValue F)) :
    Operand calls (Pure.pure value : Eval F (Option (UScriptValue F))) where
  carries := Carries.pure value
  calm := fun _ => Passes.pure trivial

theorem Operand.assign {calls : Bool} {computation : Eval F (Option (UScriptValue F))}
    (operand : Operand calls computation) (name : String) (more : List String) :
    Operand calls (computation >>= assignResult localContext name more) where
  carries :=
    operand.carries.bind (fun value => carries_assignResult localContext name more value)
      fun _ isBad => passes_assignResult localContext name more isBad
  calm := fun isCalm =>
    (operand.calm isCalm).bind (fun value => carries_assignResult localContext name more value)
      fun value _ => calm_assignResult localContext name more value

/-- The right operand and the operator, behind the value of the left operand. -/
theorem Operand.right {calls : Bool} {computation : Eval F (Option (UScriptValue F))}
    (operand : Operand calls computation) (action : ExpressionAction)
    (left : Option (UScriptValue F)) :
    Operand calls (do
      loseIf (failed left && calls)
      let right ← computation
      combine env.arith action left right) where
  carries :=
    (Carries.loseIf _).bind_never fun _ =>
      operand.carries.bind (fun right => carries_combine env.arith action left right)
        fun _ isBad => passes_combine env.arith action (.inr isBad)
  calm := by
    intro isCalm
    rw [isCalm, Bool.and_false]
    refine (Passes.modify fun _ => rfl).bind ?_ ?_
    · intro _
      refine operand.carries.bind (fun right => carries_combine env.arith action left right) ?_
      exact fun right _ => calm_combine env.arith action left right
    · intro _ _
      exact (operand.calm isCalm).bind (fun right => carries_combine env.arith action left right)
        fun right _ => calm_combine env.arith action left right

/-- Behind a left operand that stands for a failure, the right one executes nothing or the failure
is lost, and the operator fails. -/
theorem Operand.passes_right {calls : Bool} {computation : Eval F (Option (UScriptValue F))}
    (operand : Operand calls computation) (action : ExpressionAction)
    {left : Option (UScriptValue F)} (isBad : BadValue left) :
    Passes BadValue (do
      loseIf (failed left && calls)
      let right ← computation
      combine env.arith action left right) := by
  have kept : Carries BadValue (do
      let right ← computation
      combine env.arith action left right) :=
    operand.carries.bind (fun right => carries_combine env.arith action left right)
      fun _ isBad => passes_combine env.arith action (.inr isBad)
  rw [isBad.failed, Bool.true_and]
  cases calls with
  | true => exact Passes.loseIf_true.bind_lost fun _ => kept
  | false =>
      refine (Passes.modify fun _ => rfl).bind (fun _ => kept) fun _ _ => ?_
      exact (operand.calm rfl).bind (fun right => carries_combine env.arith action left right)
        fun right _ => passes_combine env.arith action (.inl isBad)

theorem Operand.binary {leftCalls rightCalls : Bool}
    {leftComputation rightComputation : Eval F (Option (UScriptValue F))}
    (left : Operand leftCalls leftComputation) (right : Operand rightCalls rightComputation)
    (action : ExpressionAction) :
    Operand (leftCalls || rightCalls) (do
      let leftValue ← leftComputation
      if action = .or ∧ leftValue.any (UScriptValue.isTrue env.arith) then
        Pure.pure (some (.scalar (.integer 1)))
      else do
        loseIf (failed leftValue && rightCalls)
        let rightValue ← rightComputation
        combine env.arith action leftValue rightValue) where
  carries := by
    refine left.carries.bind ?_ ?_
    · intro leftValue
      split
      · exact Carries.pure _
      · exact (right.right env action leftValue).carries
    · intro leftValue isBad
      rw [if_neg fun taken => by rw [isBad.not_true env.arith] at taken; cases taken.2]
      exact right.passes_right env action isBad
  calm := by
    intro isCalm
    rw [Bool.or_eq_false_iff] at isCalm
    refine (left.calm isCalm.1).bind ?_ ?_
    · intro leftValue
      split
      · exact Carries.pure _
      · exact (right.right env action leftValue).carries.weaken fun _ _ => trivial
    · intro leftValue _
      split
      · exact Passes.pure trivial
      · exact (right.right env action leftValue).calm isCalm.2

section Calls

variable (runs : ∀ statements context, Carries BadResult (run statements context))

include runs

mutual

/-- By the structure of the expression. -/
theorem operand_execute : ∀ expression : Expr F,
    Operand expression.calls (expression.execute env script run localContext)
  | .integer _ => by
      rw [Expr.execute]
      exact Operand.pure _ _
  | .float _ => by
      rw [Expr.execute]
      exact Operand.pure _ _
  | .string _ => by
      rw [Expr.execute]
      exact Operand.pure _ _
  | .identifier name => by
      rw [Expr.execute]
      exact {
        carries := Carries.get.bind_never fun _ => Carries.pure _
        calm := fun _ =>
          (Passes.get fun _ => trivial).bind (fun _ => Carries.pure _) fun _ _ => Passes.pure trivial }
  | .assign name more value => by
      rw [Expr.execute]
      exact (operand_execute value).assign localContext name more
  | .binary action left right => by
      rw [Expr.execute]
      exact (operand_execute left).binary env (operand_execute right) action
  | .call name params => by
      refine ⟨?_, fun isCalm => by cases isCalm⟩
      rw [Expr.execute]
      cases env.findInstruction name with
      | some instruction =>
          refine (carries_inputParams params).bind ?_ ?_
          · intro inputs
            cases inputs with
            | none => exact Carries.pure _
            | some inputs => exact carries_executeInstruction name instruction inputs
          · rintro _ rfl
            exact Passes.pure badValue_interpret
      | none =>
          cases script.findFunction name with
          | none => exact Carries.pure _
          | some function =>
              refine carries_newContext.bind_never fun funcContext => ?_
              split
              · exact Carries.pure _
              · refine (carries_bindParams funcContext params function.paramNames).bind ?_ ?_
                · intro values
                  cases values with
                  | none => exact Carries.pure _
                  | some values => exact carries_runFunction runs function funcContext
                · rintro _ rfl
                  exact Passes.pure (.inr ⟨uscriptNotExistInstruction, by decide, rfl⟩)

theorem carries_inputParams : ∀ params : List (Expr F),
    Carries (fun inputs => inputs = none) (inputParams env script run localContext params)
  | [] => by
      rw [inputParams]
      exact Carries.pure _
  | param :: params => by
      rw [inputParams]
      refine (operand_execute param).carries.bind ?_ ?_
      · intro result
        cases result with
        | none => exact Carries.pure _
        | some value =>
            dsimp only
            split
            · exact Carries.pure _
            · exact (carries_inputParams params).bind (fun _ => Carries.pure _)
                fun _ isBad => Passes.pure (by rw [isBad]; rfl)
      · rintro _ (rfl | ⟨code, -, rfl⟩)
        · exact Passes.pure rfl
        · exact Passes.pure rfl

theorem carries_bindParams (funcContext : Nat) : ∀ (params : List (Expr F)) (names : List String),
    Carries (fun values => values = none)
      (bindParams env script run localContext funcContext params names)
  | [], names => by
      rw [bindParams]
      exact Carries.pure _
  | param :: params, names => by
      rw [bindParams]
      refine (operand_execute param).carries.bind ?_ ?_
      · intro result
        cases result with
        | none => exact Carries.pure _
        | some value =>
            dsimp only
            split
            · exact Carries.pure _
            · refine (Carries.modify fun st => events_bindAll st _ _ _).bind_never fun _ => ?_
              exact (carries_bindParams funcContext params _).bind (fun _ => Carries.pure _)
                fun _ isBad => Passes.pure (by rw [isBad]; rfl)
      · rintro _ (rfl | ⟨code, -, rfl⟩)
        · exact Passes.pure rfl
        · exact Passes.pure rfl

end

theorem carries_execute (expression : Expr F) :
    Carries BadValue (expression.execute env script run localContext) :=
  (operand_execute env script localContext runs expression).carries

/-- A value of a return that stands for a failure is lost among the others. -/
theorem carries_returnParams (params : List (Expr F)) :
    Carries (fun _ => False) (returnParams env script run localContext params) := by
  induction params with
  | nil => exact Carries.pure _
  | cons param params ih =>
      have rest (value : UScriptValue F) : Carries (fun _ => False) (do
          let values ← returnParams env script run localContext params
          pure (value.flatten ++ values)) :=
        ih.bind_never fun _ => Carries.pure _
      refine (carries_execute env script localContext runs param).bind ?_ ?_
      · intro result
        cases result with
        | none => exact Carries.crash
        | some value => exact (Carries.loseIf _).bind_never fun _ => rest value
      · rintro _ (rfl | ⟨code, -, rfl⟩)
        · exact Passes.crash
        · exact Passes.loseIf_true.bind_lost fun _ => rest _

theorem carries_executeCondition (condition : Option (Expr F)) :
    Carries (fun holds => holds = none)
      (executeCondition env script run localContext condition) := by
  cases condition with
  | none => exact Carries.pure _
  | some condition =>
      refine (carries_execute env script localContext runs condition).bind
        (fun _ => Carries.pure _) fun _ isBad => Passes.pure ?_
      rw [isBad.failed]
      rfl

theorem carries_executeDiscarded (expression : Option (Expr F)) :
    Carries (fun _ => False) (executeDiscarded env script run localContext expression) := by
  cases expression with
  | none => exact Carries.pure _
  | some expression =>
      refine (carries_execute env script localContext runs expression).bind
        (fun _ => Carries.loseIf _) fun _ isBad => ?_
      rw [isBad.failed]
      exact Passes.loseIf_true

end Calls

section Statements

variable {condition : Eval F (Option Bool)} {center : Eval F (StatementResult F)}
  {after : Eval F Unit}

theorem carries_executeRounds (conditions : Carries (fun holds => holds = none) condition)
    (centers : Carries BadResult center) (afters : Carries (fun _ => False) after) (fuel : Nat) :
    Carries BadResult (executeRounds condition center after fuel) := by
  induction fuel with
  | zero => exact Carries.stop .outOfFuel
  | succ fuel ih =>
      refine conditions.bind ?_ ?_
      · intro holds
        match holds with
        | none => exact Carries.pure _
        | some false => exact Carries.pure _
        | some true =>
            refine centers.bind ?_ ?_
            · intro result
              cases result with
              | normal _ => exact afters.bind_never fun _ => ih
              | breakLoop => exact Carries.pure _
              | continueLoop => exact afters.bind_never fun _ => ih
              | rtn _ => exact Carries.pure _
              | error _ => exact Carries.pure _
            · rintro _ ⟨code, isBad, rfl⟩
              exact Passes.pure ⟨code, isBad, rfl⟩
      · rintro _ rfl
        exact Passes.pure ⟨uscriptInvalidParam, by decide, rfl⟩

theorem carries_inContext (context : Nat) {statements : Eval F (StatementResult F)}
    (carries : Carries BadResult statements) : Carries BadResult (inContext context statements) := by
  refine Carries.bind_never (Carries.modify fun _ => rfl) fun _ => carries.bind ?_ ?_
  · intro result
    exact Carries.bind_never (Carries.modify fun _ => rfl) fun _ => Carries.pure _
  · intro result isBad
    exact (Passes.modify fun _ => rfl).bind (fun _ => Carries.pure _) fun _ _ => Passes.pure isBad

theorem carries_executeBranch (block : List (Stmt F))
    {statements : Nat → Eval F (StatementResult F)}
    (carries : ∀ context, Carries BadResult (statements context)) :
    Carries BadResult (executeBranch block statements) := by
  cases block with
  | nil => exact Carries.pure _
  | cons _ _ =>
      exact carries_newContext.bind_never fun context => carries_inContext context (carries context)

theorem carries_executeCenter (context : Nat) (block : List (Stmt F))
    {statements : Eval F (StatementResult F)} (carries : Carries BadResult statements) :
    Carries BadResult (executeCenter context block statements) := by
  cases block with
  | nil => exact Carries.crash
  | cons _ _ => exact carries_inContext context carries

variable (runs : ∀ statements context, Carries BadResult (run statements context)) (fuel : Nat)

include runs

mutual

/-- By the structure of the statement. -/
theorem carries_statement (context : Nat) : ∀ statement : Stmt F,
    Carries BadResult (statement.execute env script run fuel context)
  | .expression value => by
      rw [Stmt.execute]
      exact (carries_execute env script context runs value).bind (fun _ => Carries.pure _)
        fun _ isBad => Passes.pure (badResult_ofValue env.undefinedCode isBad)
  | .ifBlock condition trues falses => by
      rw [Stmt.execute]
      refine (carries_executeCondition env script context runs (some condition)).bind ?_ ?_
      · intro holds
        match holds with
        | none => exact Carries.pure _
        | some true => exact carries_executeBranch trues fun inner => carries_executeAll inner _ trues
        | some false =>
            exact carries_executeBranch falses fun inner => carries_executeAll inner _ falses
      · rintro _ rfl
        exact Passes.pure ⟨uscriptInvalidParam, by decide, rfl⟩
  | .ifElseIf condition trues next => by
      rw [Stmt.execute]
      refine (carries_executeCondition env script context runs (some condition)).bind ?_ ?_
      · intro holds
        match holds with
        | none => exact Carries.pure _
        | some true => exact carries_executeBranch trues fun inner => carries_executeAll inner _ trues
        | some false => exact carries_statement context next
      · rintro _ rfl
        exact Passes.pure ⟨uscriptInvalidParam, by decide, rfl⟩
  | .forLoop first condition after body => by
      rw [Stmt.execute]
      refine (carries_executeDiscarded env script context runs first).bind_never fun _ => ?_
      exact carries_executeRounds (carries_executeCondition env script context runs condition)
        (carries_executeCenter context body (carries_executeAll context _ body))
        (carries_executeDiscarded env script context runs after) fuel
  | .whileLoop condition body => by
      rw [Stmt.execute]
      exact carries_executeRounds (carries_executeCondition env script context runs condition)
        (carries_executeCenter context body (carries_executeAll context _ body))
        (Carries.pure ()) fuel
  | .breakLoop => by
      rw [Stmt.execute]
      exact Carries.pure _
  | .continueLoop => by
      rw [Stmt.execute]
      exact Carries.pure _
  | .returnValues [] => by
      rw [Stmt.execute]
      exact Carries.pure _
  | .returnValues (param :: params) => by
      rw [Stmt.execute]
      exact (carries_returnParams env script context runs (param :: params)).bind_never
        fun _ => Carries.pure _

theorem carries_executeAll (context : Nat) (last : StatementResult F) :
    ∀ statements : List (Stmt F),
      Carries BadResult (executeAll env script run fuel context last statements)
  | [] => by
      rw [executeAll]
      exact Carries.pure _
  | statement :: statements => by
      rw [executeAll]
      refine (carries_statement context statement).bind ?_ ?_
      · intro result
        cases result with
        | normal value => exact carries_executeAll context (.normal value) statements
        | breakLoop => exact Carries.pure _
        | continueLoop => exact Carries.pure _
        | rtn _ => exact Carries.pure _
        | error _ => exact Carries.pure _
      · rintro _ ⟨code, isBad, rfl⟩
        exact Passes.pure ⟨code, isBad, rfl⟩

end

end Statements

/-- With every fuel for rounds and calls. -/
theorem carries_runStatements (fuel : Nat) (statements : List (Stmt F)) (context : Nat) :
    Carries BadResult (runStatements env script fuel statements context) := by
  induction fuel generalizing statements context with
  | zero => exact Carries.stop .outOfFuel
  | succ fuel ih =>
      exact carries_inContext context (carries_executeAll env script ih fuel context _ statements)

theorem carries_executeScript (fuel : Nat) :
    Carries (fun code => code ≠ uscriptSuccess) (executeScript env script fuel) := by
  unfold executeScript
  split
  · exact Carries.pure _
  · refine (carries_runStatements env script fuel script.statements topContext).bind ?_ ?_
    · intro result
      cases result with
      | error _ => exact Carries.pure _
      | normal _ => exact Carries.pure _
      | breakLoop => exact Carries.pure _
      | continueLoop => exact Carries.pure _
      | rtn _ => exact Carries.pure _
    · rintro _ ⟨code, isBad, rfl⟩
      exact Passes.pure isBad

/-- Where no failure of a value is lost behind that of an instruction, an instruction that fails is
the last one, and the script ends with a code that is no success. -/
theorem executeScript_failure (fuel : Nat) (kept : ¬ Dropped (executeScript env script fuel .start).2.events)
    {failure : Event} (executed : failure ∈ (executeScript env script fuel .start).2.events)
    (fails : failure.fails) :
    ∃ earlier code, (executeScript env script fuel .start).2.events = failure :: earlier ∧
      (executeScript env script fuel .start).1 = .ok code ∧ code ≠ uscriptSuccess := by
  have unfailing : Unfailing (Interp.start : Interp F).events := by
    intro event member
    cases member
  rcases (carries_executeScript env script fuel).unfailing .start unfailing with
    unfailing | dropped | ⟨⟨latest, earlier, events, -, unfailing⟩, code, ended, isBad⟩
  · exact absurd fails (unfailing failure executed)
  · exact absurd dropped kept
  · rw [events] at executed
    cases executed with
    | head => exact ⟨earlier, code, events, ended, isBad⟩
    | tail _ member => exact absurd fails (unfailing failure member)

end Execute

/-- Whole numbers in the place of floats, for scripts that have none. -/
def wholeFloats : FloatArith Int where
  ofInt := id
  toInt := id
  toText := Utils.formatInt
  add := (· + ·)
  sub := (· - ·)
  mul := (· * ·)
  div := Int.tdiv
  lt left right := left < right
  eq left right := left = right
  isZero value := value = 0
  near left right := left = right

/-- `fail` gives 1, every other instruction success. -/
def failEnv : ScriptEnv Int where
  arith := wholeFloats
  findInstruction name :=
    if name = "fail" then some fun _ _ => (1, [])
    else if name = "next" then some fun _ _ => (uscriptSuccess, [])
    else none
  undefinedCode := uscriptErrorInterpret

/-- `fail(); next();` -/
def failingScript : ScriptTree Int where
  statements := [.expression (.call "fail" []), .expression (.call "next" [])]
  functions := []

theorem failingScript_stops :
    ∃ earlier code, (executeScript failEnv failingScript 1 .start).2.events =
        .executed "fail" 1 :: earlier ∧
      (executeScript failEnv failingScript 1 .start).1 = .ok code ∧ code ≠ uscriptSuccess := by
  have events : (executeScript failEnv failingScript 1 .start).2.events = [.executed "fail" 1] := by
    decide +kernel
  refine executeScript_failure failEnv failingScript 1 ?_ ?_ ⟨by decide, by decide⟩
  · rintro ⟨failure, -, inside⟩
    rw [events] at inside
    exact absurd inside.length_le (Nat.not_succ_le_self 1)
  · rw [events]
    exact List.mem_singleton_self _

/-- `function check() { return fail(); } check(); next();` -/
def returningScript : ScriptTree Int where
  statements := [.expression (.call "check" []), .expression (.call "next" [])]
  functions := [("check", { params := [], statements := [.returnValues [.call "fail" []]] })]

/-- The failure is one of the values that `check` returns: the next instruction is executed, and
the script succeeds. -/
theorem returningScript_succeeds :
    (executeScript failEnv returningScript 2 .start).1 = .ok uscriptSuccess ∧
      (executeScript failEnv returningScript 2 .start).2.events =
        [.executed "next" 0, .lost, .executed "fail" 1] := by
  decide +kernel

end Updater.Script
