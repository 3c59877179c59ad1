import Updater.Utils.MiscMessage
import Updater.Script.ThreadPool

/-! The values of scripts and what the operators make of them. -/

set_option autoImplicit false

namespace Updater.Script

def uscriptInvalidParam : Int := 500

def uscriptNotExistInstruction : Int := 503

def uscriptErrorInterpret : Int := 509

def uscriptUpdaterModeValue : Int := 511

/-- `float`, as far as scripts calculate with it. -/
structure FloatArith (F : Type) where
  ofInt : Int → F
  toInt : F → Int
  toText : F → List Char
  add : F → F → F
  sub : F → F → F
  mul : F → F → F
  div : F → F → F
  lt : F → F → Bool
  eq : F → F → Bool
  isZero : F → Bool
  /-- The difference is below `0.0001f`. -/
  near : F → F → Bool

/-- A value that is no list. `undefined` is the base class with the type of an error, which an
unknown identifier gives. -/
inductive Scalar (F : Type) where
  | integer (value : Int)
  | float (value : F)
  | string (value : List Char)
  | error (code : Int)
  | undefined
  deriving DecidableEq, Repr

inductive UScriptValue (F : Type) where
  | scalar (value : Scalar F)
  | list (values : List (Scalar F))
  deriving DecidableEq, Repr

inductive ExpressionAction where
  | add | sub | mul | div | gt | ge | lt | le | eq | ne | and | or
  deriving DecidableEq, Repr

/-- `int32_t`; what overflows wraps, where the source has no meaning for it. -/
def int32 (value : Int) : Int :=
  Int.bmod value (2 ^ 32)

/-- What an operator makes of two numbers: a number of their type, or a truth value. -/
inductive Computed (N : Type) where
  | number (value : N)
  | truth (value : Bool)
  | failed

def Computed.toScalar {F N : Type} (number : N → Scalar F) (truth : Bool → Scalar F) :
    Computed N → Scalar F
  | .number value => number value
  | .truth value => truth value
  | .failed => .error uscriptErrorInterpret

def computeInts (action : ExpressionAction) (left right : Int) : Computed Int :=
  match action with
  | .add => .number (int32 (left + right))
  | .sub => .number (int32 (left - right))
  | .mul => .number (int32 (left * right))
  | .div => if right = 0 then .failed else .number (int32 (left.tdiv right))
  | .gt => .truth (left > right)
  | .ge => .truth (left ≥ right)
  | .lt => .truth (left < right)
  | .le => .truth (left ≤ right)
  | .eq => .truth (left = right)
  | .ne => .truth (left ≠ right)
  | .and => .truth (left ≠ 0 ∧ right ≠ 0)
  | .or => .truth (left ≠ 0 ∨ right ≠ 0)

namespace FloatArith

variable {F : Type} (arith : FloatArith F)

def compute (action : ExpressionAction) (left right : F) : Computed F :=
  match action with
  | .add => .number (arith.add left right)
  | .sub => .number (arith.sub left right)
  | .mul => .number (arith.mul left right)
  | .div => if arith.isZero right then .failed else .number (arith.div left right)
  | .gt => .truth (arith.lt right left)
  | .ge => .truth (arith.lt right left || arith.eq right left)
  | .lt => .truth (arith.lt left right)
  | .le => .truth (arith.lt left right || arith.eq left right)
  | .eq => .truth (arith.eq left right)
  | .ne => .truth (!arith.eq left right)
  | .and => .truth (!arith.isZero left && !arith.isZero right)
  | .or => .truth (!arith.isZero left || !arith.isZero right)

end FloatArith

def truthInt {F : Type} (value : Bool) : Scalar F :=
  .integer (if value then 1 else 0)

/-- `StringValue::ComputerReturn`, for texts that are compared. -/
def compareTexts {F : Type} (action : ExpressionAction) (left right : List Char) : Scalar F :=
  match action with
  | .gt => truthInt (right < left)
  | .ge => truthInt (¬ left < right)
  | .lt => truthInt (left < right)
  | .le => truthInt (¬ right < left)
  | .eq => truthInt (left = right)
  | .ne => truthInt (left ≠ right)
  | _ => .error uscriptErrorInterpret

namespace Scalar

variable {F : Type} (arith : FloatArith F)

/-- `VALUE_TYPE_ERROR`. -/
def isError : Scalar F → Bool
  | .error _ => true
  | .undefined => true
  | _ => false

def isTrue : Scalar F → Bool
  | .integer value => value ≠ 0
  | .float value => !arith.isZero value
  | .string value => value ≠ []
  | .error code => code = uscriptSuccess
  | .undefined => false

/-- `IntegerValue::Computer`. -/
def integerComputer (left : Int) (action : ExpressionAction) : Scalar F → Scalar F
  | .integer right => (computeInts action left right).toScalar .integer truthInt
  | .float right => (arith.compute action (arith.ofInt left) right).toScalar .float truthInt
  | _ => .error uscriptErrorInterpret

/-- `FloatValue::ComputerEqual`. -/
def computerEqual (left : F) : Scalar F → Bool
  | .integer right => arith.near left (arith.ofInt right)
  | .float right => arith.near left right
  | _ => false

/-- `FloatValue::Computer`. What it makes of an integer is a float, truth values too; of a float,
an integer, sums too. -/
def floatComputer (left : F) (action : ExpressionAction) (right : Scalar F) : Scalar F :=
  match action with
  | .eq => truthInt (computerEqual arith left right)
  | .ne => truthInt (!computerEqual arith left right)
  | .div =>
      match right with
      | .integer value =>
          if value = 0 then .error uscriptErrorInterpret
          else .float (arith.div left (arith.ofInt value))
      | .float value =>
          if arith.isZero value then .error uscriptErrorInterpret
          else .float (arith.div left value)
      | _ => .error uscriptErrorInterpret
  | action =>
      match right with
      | .integer value =>
          (arith.compute action left (arith.ofInt value)).toScalar .float
            fun truth => .float (arith.ofInt (if truth then 1 else 0))
      | .float value =>
          (arith.compute action left value).toScalar (fun number => .integer (arith.toInt number))
            truthInt
      | _ => .error uscriptErrorInterpret

/-- `StringValue::Computer`. -/
def stringComputer (left : List Char) (action : ExpressionAction) (right : Scalar F) : Scalar F :=
  match action, right with
  | .add, .integer value => .string (left ++ Utils.formatInt value)
  | .add, .float value => .string (left ++ arith.toText value)
  | .add, .string value => .string (left ++ value)
  | .add, _ => .error uscriptErrorInterpret
  | action, .string value => compareTexts action left value
  | _, _ => .error uscriptErrorInterpret

/-- `Computer` of a value that is no list, with what `GetRightCompluteValue` gives; an error has
no result. -/
def computer (left : Scalar F) (action : ExpressionAction) (right : Option (Scalar F)) :
    Option (Scalar F) :=
  match left, right with
  | .error _, _ => none
  | .undefined, _ => some (.error uscriptErrorInterpret)
  | _, none => some (.error uscriptErrorInterpret)
  | .integer value, some right => some (integerComputer arith value action right)
  | .float value, some right => some (floatComputer arith value action right)
  | .string value, some right => some (stringComputer arith value action right)

end Scalar

namespace UScriptValue

variable {F : Type} (arith : FloatArith F)

def isError : UScriptValue F → Bool
  | .scalar value => value.isError
  | .list _ => false

def isTrue : UScriptValue F → Bool
  | .scalar value => value.isTrue arith
  | .list _ => false

/-- The values that are passed on one by one. -/
def flatten : UScriptValue F → List (Scalar F)
  | .scalar value => [value]
  | .list values => values

/-- `GetRightCompluteValue`. -/
def rightCompluteValue : UScriptValue F → Option (Scalar F)
  | .scalar value => some value
  | .list [value] => some value
  | .list _ => none

def computer (left : UScriptValue F) (action : ExpressionAction) (right : UScriptValue F) :
    Option (UScriptValue F) :=
  match left with
  | .scalar value => (value.computer arith action right.rightCompluteValue).map .scalar
  | .list [value] => (value.computer arith action right.rightCompluteValue).map .scalar
  | .list _ => some (.scalar (.error uscriptErrorInterpret))

end UScriptValue

end Updater.Script
