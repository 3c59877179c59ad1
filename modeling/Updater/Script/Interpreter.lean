import Updater.Base.Machine
import Updater.Script.Values

/-! The script interpreter: expressions, statements, functions, and the stack of contexts that
variables are looked up in. -/

set_option autoImplicit false

namespace Updater.Script

open Updater.Base

/-- No parameters stand for the null pointer: the grammar has no empty list of them. -/
inductive Expr (F : Type) where
  | integer (value : Int)
  | float (value : F)
  | string (value : List Char)
  | identifier (name : String)
  | assign (name : String) (more : List String) (value : Expr F)
  | binary (action : ExpressionAction) (left right : Expr F)
  | call (name : String) (params : List (Expr F))

/-- No statements in a block stand for the null pointer that an empty one is. -/
inductive Stmt (F : Type) where
  | expression (value : Expr F)
  | ifBlock (condition : Expr F) (trues falses : List (Stmt F))
  | ifElseIf (condition : Expr F) (trues : List (Stmt F)) (next : Stmt F)
  | forLoop (first condition after : Option (Expr F)) (body : List (Stmt F))
  | whileLoop (condition : Option (Expr F)) (body : List (Stmt F))
  | breakLoop
  | continueLoop
  | returnValues (params : List (Expr F))

structure ScriptFunction (F : Type) where
  params : List (Expr F)
  statements : List (Stmt F)

/-- What the parser leaves in the interpreter. -/
structure ScriptTree (F : Type) where
  statements : List (Stmt F)
  functions : List (String × ScriptFunction F)

/-- What is outside the interpreter: the float arithmetic, the instructions, which give a code and
their output parameters by the number of instructions that were executed before, and the code that
is read behind a value of the base class. -/
structure ScriptEnv (F : Type) where
  arith : FloatArith F
  findInstruction : String → Option (Nat → List (Scalar F) → Int × List (Scalar F))
  undefinedCode : Int

/-- An instruction that was executed, or the failure of a value that the interpreter goes on
without. -/
inductive Event where
  | executed (name : String) (code : Int)
  | lost
  deriving DecidableEq, Repr

/-- The contexts by their numbers, the stack of them, innermost first, and what has happened,
latest first: the events, and the names that were assigned to. -/
structure Interp (F : Type) where
  contexts : Nat → String → Option (UScriptValue F)
  nextContext : Nat
  contextStack : List Nat
  events : List Event
  assigned : List String

/-- A null pointer is read, or the fuel for rounds and calls is used up. -/
inductive Halt where
  | crashed
  | outOfFuel
  deriving DecidableEq, Repr

abbrev Eval (F α : Type) := Machine (Interp F) Halt α

inductive StatementResult (F : Type) where
  | normal (value : Option (UScriptValue F))
  | breakLoop
  | continueLoop
  | rtn (value : Option (UScriptValue F))
  | error (code : Int)
  deriving DecidableEq, Repr

/-- The context that is marked top: the outermost one of the script. -/
def topContext : Nat := 0

/-- The contexts that are walked, from the innermost one to the first that is marked top. -/
def reach : List Nat → List Nat
  | [] => []
  | context :: below => if context = topContext then [context] else context :: reach below

def errorValue {F : Type} (code : Int) : Option (UScriptValue F) :=
  some (.scalar (.error code))

/-- A null pointer, or a value with the type of an error. -/
def failed {F : Type} : Option (UScriptValue F) → Bool
  | none => true
  | some value => value.isError

namespace Interp

variable {F : Type}

def start : Interp F where
  contexts := fun _ _ => none
  nextContext := topContext + 1
  contextStack := []
  events := []
  assigned := []

def findVariable (st : Interp F) (id : String) : Option (UScriptValue F) :=
  (reach st.contextStack).findSome? fun context => st.contexts context id

/-- `UScriptInterpretContext::UpdateVariable`. -/
def bind (st : Interp F) (context : Nat) (id : String) (value : UScriptValue F) : Interp F :=
  { st with
    contexts := Function.update st.contexts context
      (Function.update (st.contexts context) id (some value)) }

/-- `ScriptInterpreter::UpdateVariable`. -/
def updateVariable (st : Interp F) (id : String) (value : UScriptValue F) : Interp F :=
  (reach st.contextStack).foldl
    (fun st context => if (st.contexts context id).isSome then st.bind context id value else st) st

/-- `UScriptInterpretContext::UpdateVariables`, with the identifiers from the start index on. -/
def bindAll (st : Interp F) (context : Nat) : List String → List (Scalar F) → Interp F
  | id :: ids, value :: values => (st.bind context id (.scalar value)).bindAll context ids values
  | _, _ => st

def record (st : Interp F) (event : Event) : Interp F :=
  { st with events := event :: st.events }

/-- A variable that is found is updated, with all identifiers but the first left out; otherwise
they are bound in the current context. -/
def assignVariable (st : Interp F) (localContext : Nat) (name : String) (more : List String)
    (value : UScriptValue F) : Interp F :=
  match st.findVariable name with
  | some _ => { st.updateVariable name value with assigned := name :: st.assigned }
  | none =>
      { st.bindAll localContext (name :: more) value.flatten with
        assigned := name :: more ++ st.assigned }

/-- `std::make_shared<UScriptInterpretContext>()`. -/
def withContext (st : Interp F) : Interp F :=
  { st with
    contexts := Function.update st.contexts st.nextContext fun _ => none
    nextContext := st.nextContext + 1 }

def push (st : Interp F) (context : Nat) : Interp F :=
  { st with contextStack := context :: st.contextStack }

def pop (st : Interp F) : Interp F :=
  { st with contextStack := st.contextStack.tail }

/-- The number of instructions that were executed. -/
def executedCount (st : Interp F) : Nat :=
  st.events.countP fun event => event ≠ .lost

end Interp

section Values

variable {F : Type}

def loseIf (loses : Bool) : Eval F Unit :=
  Machine.modify fun st => if loses then st.record .lost else st

/-- The process ends; whatever failure there was is not returned. -/
def crash {α : Type} : Eval F α := do
  loseIf true
  Machine.stop .crashed

def newContext : Eval F Nat := do
  let st ← Machine.get
  Machine.modify Interp.withContext
  pure st.nextContext

/-- `AssignExpression::Execute` behind the value. -/
def assignResult (localContext : Nat) (name : String) (more : List String) :
    Option (UScriptValue F) → Eval F (Option (UScriptValue F))
  | none => crash
  | some value =>
      if value.isError then pure (some value)
      else do
        Machine.modify fun st => st.assignVariable localContext name more value
        pure (some value)

/-- The value that `BinaryExpression::Execute` makes of its operands. -/
def combined (arith : FloatArith F) (action : ExpressionAction)
    (left right : Option (UScriptValue F)) : Option (UScriptValue F) :=
  match left, right with
  | some left, some right => left.computer arith action right
  | _, _ => errorValue uscriptErrorInterpret

def combine (arith : FloatArith F) (action : ExpressionAction)
    (left right : Option (UScriptValue F)) : Eval F (Option (UScriptValue F)) := do
  loseIf (failed right && !failed (combined arith action left right))
  pure (combined arith action left right)

/-- The end of `ExecuteNativeFunc`. -/
def executeInstruction (name : String)
    (instruction : Nat → List (Scalar F) → Int × List (Scalar F)) (inputs : List (Scalar F)) :
    Eval F (Option (UScriptValue F)) := do
  let st ← Machine.get
  let (code, outputs) := instruction st.executedCount inputs
  Machine.modify fun st => st.record (.executed name code)
  if code ≠ uscriptSuccess ∧ code ≠ uscriptUpdaterModeValue then pure (errorValue code)
  else pure (some (.list outputs))

def identifierName : Expr F → Option String
  | .identifier name => some name
  | _ => none

namespace ScriptFunction

/-- `GetParamNames`: up to the first parameter that is no identifier. -/
def paramNames (function : ScriptFunction F) : List String :=
  (function.params.takeWhile fun param => (identifierName param).isSome).filterMap identifierName

end ScriptFunction

namespace StatementResult

/-- `GetResultValue`. -/
def value : StatementResult F → Option (UScriptValue F)
  | .normal value => value
  | .rtn value => value
  | _ => none

/-- `UpdateStatementResult`. -/
def ofValue (undefinedCode : Int) : Option (UScriptValue F) → StatementResult F
  | none => .error uscriptInvalidParam
  | some (.scalar (.error code)) => .error code
  | some (.scalar .undefined) => .error undefinedCode
  | some value => .normal (some value)

end StatementResult

/-- Whether a call stands in the expression. -/
def Expr.calls : Expr F → Bool
  | .assign _ _ value => value.calls
  | .binary _ left right => left.calls || right.calls
  | .call _ _ => true
  | _ => false

end Values

section Execute

variable {F : Type} (env : ScriptEnv F) (script : ScriptTree F)

/-- The first function of a name stays. -/
def ScriptTree.findFunction (name : String) : Option (ScriptFunction F) :=
  script.functions.lookup name

/-- `ScriptFunction::Execute` behind its parameters: the statements are run in the context of the
function. -/
def runFunction (run : List (Stmt F) → Nat → Eval F (StatementResult F))
    (function : ScriptFunction F) (funcContext : Nat) : Eval F (Option (UScriptValue F)) :=
  match function.statements with
  | [] => crash
  | _ :: _ => do
      let result ← run function.statements funcContext
      pure result.value

mutual

variable (run : List (Stmt F) → Nat → Eval F (StatementResult F)) (localContext : Nat)

/-- `Execute` of an expression; `run` executes the statements of a function. -/
def Expr.execute : Expr F → Eval F (Option (UScriptValue F))
  | .integer value => pure (some (.scalar (.integer value)))
  | .float value => pure (some (.scalar (.float value)))
  | .string value => pure (some (.scalar (.string value)))
  | .identifier name => do
      let st ← Machine.get
      pure (some ((st.findVariable name).getD (.scalar .undefined)))
  | .assign name more value => do
      let result ← value.execute
      assignResult localContext name more result
  | .binary action left right => do
      let leftValue ← left.execute
      if action = .or ∧ leftValue.any (UScriptValue.isTrue env.arith) then
        pure (some (.scalar (.integer 1)))
      else do
        loseIf (failed leftValue && right.calls)
        let rightValue ← right.execute
        combine env.arith action leftValue rightValue
  | .call name params =>
      match env.findInstruction name with
      | some instruction => do
          match ← inputParams params with
          | none => pure (errorValue uscriptErrorInterpret)
          | some inputs => executeInstruction name instruction inputs
      | none =>
          match script.findFunction name with
          | none => pure (errorValue uscriptNotExistInstruction)
          | some function => do
              let funcContext ← newContext
              if function.params.length ≠ params.length then
                pure (errorValue uscriptErrorInterpret)
              else
                match ← bindParams funcContext params function.paramNames with
                | none => pure (errorValue uscriptNotExistInstruction)
                | some _ => runFunction run function funcContext

/-- The parameters of an instruction, one by one. -/
def inputParams : List (Expr F) → Eval F (Option (List (Scalar F)))
  | [] => pure (some [])
  | param :: params => do
      match ← param.execute with
      | none => pure none
      | some value =>
          if value.isError then pure none
          else do
            let inputs ← inputParams params
            pure (inputs.map (value.flatten ++ ·))

/-- The parameters of a function, bound to the names that are left; the values come back. -/
def bindParams (funcContext : Nat) : List (Expr F) → List String →
    Eval F (Option (List (UScriptValue F)))
  | [], _ => pure (some [])
  | param :: params, names => do
      match ← param.execute with
      | none => pure none
      | some value =>
          if value.isError ∨ names = [] then pure none
          else do
            Machine.modify fun st => st.bindAll funcContext names value.flatten
            let values ← bindParams funcContext params (names.drop value.flatten.length)
            pure (values.map (value :: ·))

end

/-- The values of a return, with those of lists one by one. -/
def returnParams (run : List (Stmt F) → Nat → Eval F (StatementResult F)) (localContext : Nat) :
    List (Expr F) → Eval F (List (Scalar F))
  | [] => pure []
  | param :: params => do
      match ← param.execute env script run localContext with
      | none => crash
      | some value => do
          loseIf value.isError
          let values ← returnParams run localContext params
          pure (value.flatten ++ values)

/-- The condition of a loop or an `if`; `none` when it fails. -/
def executeCondition (run : List (Stmt F) → Nat → Eval F (StatementResult F)) (localContext : Nat) :
    Option (Expr F) → Eval F (Option Bool)
  | none => pure (some true)
  | some condition => do
      let value ← condition.execute env script run localContext
      pure (if failed value then none else some (value.any (UScriptValue.isTrue env.arith)))

/-- An expression of a `for`, whose value nobody looks at. -/
def executeDiscarded (run : List (Stmt F) → Nat → Eval F (StatementResult F)) (localContext : Nat) :
    Option (Expr F) → Eval F Unit
  | none => pure ()
  | some expression => do
      let value ← expression.execute env script run localContext
      loseIf (failed value)

/-- The rounds of a loop. -/
def executeRounds (condition : Eval F (Option Bool)) (center : Eval F (StatementResult F))
    (after : Eval F Unit) : Nat → Eval F (StatementResult F)
  | 0 => Machine.stop .outOfFuel
  | fuel + 1 => do
      match ← condition with
      | none => pure (.error uscriptInvalidParam)
      | some false => pure (.normal none)
      | some true =>
          match ← center with
          | .breakLoop => pure (.normal none)
          | .rtn value => pure (.rtn value)
          | .error code => pure (.error code)
          | _ => do
              after
              executeRounds condition center after fuel

/-- `UScriptStatementList::Execute` around its statements. -/
def inContext (context : Nat) (statements : Eval F (StatementResult F)) :
    Eval F (StatementResult F) := do
  Machine.modify fun st => st.push context
  let result ← statements
  Machine.modify Interp.pop
  pure result

/-- The block of an `if`, in a context of its own. -/
def executeBranch (block : List (Stmt F)) (statements : Nat → Eval F (StatementResult F)) :
    Eval F (StatementResult F) :=
  match block with
  | [] => pure (.normal none)
  | _ :: _ => do
      let context ← newContext
      inContext context (statements context)

/-- The block of a loop, in the context of the loop. -/
def executeCenter (context : Nat) (block : List (Stmt F)) (statements : Eval F (StatementResult F)) :
    Eval F (StatementResult F) :=
  match block with
  | [] => crash
  | _ :: _ => inContext context statements

mutual

variable (run : List (Stmt F) → Nat → Eval F (StatementResult F)) (fuel : Nat)

/-- `Execute` of a statement. -/
def Stmt.execute (context : Nat) : Stmt F → Eval F (StatementResult F)
  | .expression value => do
      let result ← value.execute env script run context
      pure (.ofValue env.undefinedCode result)
  | .ifBlock condition trues falses => do
      match ← executeCondition env script run context (some condition) with
      | none => pure (.error uscriptInvalidParam)
      | some true => executeBranch trues fun inner => executeAll inner (.normal none) trues
      | some false => executeBranch falses fun inner => executeAll inner (.normal none) falses
  | .ifElseIf condition trues next => do
      match ← executeCondition env script run context (some condition) with
      | none => pure (.error uscriptInvalidParam)
      | some true => executeBranch trues fun inner => executeAll inner (.normal none) trues
      | some false => next.execute context
  | .forLoop first condition after body => do
      executeDiscarded env script run context first
      executeRounds (executeCondition env script run context condition)
        (executeCenter context body (executeAll context (.normal none) body))
        (executeDiscarded env script run context after) fuel
  | .whileLoop condition body =>
      executeRounds (executeCondition env script run context condition)
        (executeCenter context body (executeAll context (.normal none) body)) (pure ()) fuel
  | .breakLoop => pure .breakLoop
  | .continueLoop => pure .continueLoop
  | .returnValues [] => pure (.rtn none)
  | .returnValues (param :: params) => do
      let values ← returnParams env script run context (param :: params)
      pure (.rtn (some (.list values)))

/-- The statements of a list up to one whose result is not a normal one. -/
def executeAll (context : Nat) (last : StatementResult F) :
    List (Stmt F) → Eval F (StatementResult F)
  | [] => pure last
  | statement :: statements => do
      match ← statement.execute context with
      | .normal value => executeAll context (.normal value) statements
      | result => pure result

end

/-- The statements of a function or of the script, in their context. -/
def runStatements : Nat → List (Stmt F) → Nat → Eval F (StatementResult F)
  | 0, _, _ => Machine.stop .outOfFuel
  | fuel + 1, statements, context =>
      inContext context
        (executeAll env script (runStatements fuel) fuel context (.normal none) statements)

/-- `ScriptInterpreter::Execute`. -/
def executeScript (fuel : Nat) : Eval F Int :=
  match script.statements with
  | [] => pure uscriptInvalidParam
  | _ :: _ => do
      match ← runStatements env script fuel script.statements topContext with
      | .error code => pure code
      | _ => pure uscriptSuccess

end Execute

end Updater.Script
