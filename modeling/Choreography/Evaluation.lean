import Choreography.Notice
import Choreography.Table

/-! # Evaluation of expressions

Evaluation never fails. `Env.eval` gives the value, with a default in the place of each fault, and
`Env.faults` lists the faults met on the way in the order of evaluation. -/
namespace Choreography

/-- What the names in a program stand for. -/
structure Env where
  x : Int
  y : Int
  width : Int
  height : Int
  containerWidth : Int
  containerHeight : Int
  constants : Table Value
  source : String → Option Value

namespace Env

/-- The variables that every program has. -/
def builtin? (env : Env) (name : String) : Option Int :=
  if name = "widget.x" then some env.x
  else if name = "widget.y" then some env.y
  else if name = "widget.width" then some env.width
  else if name = "widget.height" then some env.height
  else if name = "container.width" then some env.containerWidth
  else if name = "container.height" then some env.containerHeight
  else none

/-- Built-in variables come first, then the program's constants, then the outer source. -/
def lookup (env : Env) (name : String) : Option Value :=
  match env.builtin? name with
  | some i => some (.int (.ofInt i))
  | none =>
      match env.constants.find? name with
      | some v => some v
      | none => env.source name

end Env

/-- The exact result of an operation on integers; a remainder is exact if its quotient is a
signed integer of sixty-four bits. -/
def Arithmetic.onIntegers (op : Arithmetic) (a b : Int) : Option Int :=
  match op with
  | .add => some (a + b)
  | .sub => some (a - b)
  | .mul => some (a * b)
  | .div => if b = 0 then none else some (a.tdiv b)
  | .rem => if b = 0 ∨ !isSigned 64 (a.tdiv b) then none else some (a.tmod b)

def Arithmetic.isDivision : Arithmetic → Bool
  | .div => true
  | .rem => true
  | _ => false

def Arithmetic.onNumbers : Arithmetic → Binary64 → Binary64 → Binary64
  | .add => .add
  | .sub => .sub
  | .mul => .mul
  | .div => .div
  | .rem => .rem

/-- What an arithmetic operation gives: a value, or the fault that a zero replaces. -/
def Arithmetic.apply (op : Arithmetic) (lhs rhs : Value) : Except Notice Value :=
  match op, lhs, rhs with
  | .add, .str a, .str b => .ok (.str (a ++ b))
  | op, .int a, .int b =>
      if op.isDivision && b == 0 then .error (.integerDivisionByZero op a.toInt)
      else
        match (op.onIntegers a.toInt b.toInt).filter (isSigned 64) with
        | some i => .ok (.int (.ofInt i))
        | none => .error (.integerOverflow op a.toInt b.toInt)
  | op, lhs, rhs =>
      match lhs.number?, rhs.number? with
      | some a, some b =>
          if op.isDivision && b.isZero then .error (.numberDivisionByZero op a)
          else .ok (.float (op.onNumbers a b))
      | _, _ => .error (.typeMismatch op lhs rhs)

/-- Values of one kind are equal as such, an integer and a number as numbers. -/
def Value.equals : Value → Value → Bool
  | .str a, .str b => a == b
  | .bool a, .bool b => a == b
  | .int a, .int b => a == b
  | lhs, rhs =>
      match lhs.number?, rhs.number? with
      | some a, some b => a.sameNumber b
      | _, _ => false

/-- Strings are ordered by code points and numbers by size; nothing else has an order. -/
def Value.order : Value → Value → Option Ordering
  | .str a, .str b => some (compare a b)
  | .int a, .int b => some (compare a.toInt b.toInt)
  | lhs, rhs =>
      match lhs.number?, rhs.number? with
      | some a, some b => a.order b
      | _, _ => none

def Comparison.holds : Comparison → Ordering → Bool
  | .lt, o => o.isLT
  | .le, o => o.isLE
  | .gt, o => o.isGT
  | .ge, o => o.isGE

/-- What a comparison gives: a truth value, or the fault that a falsehood replaces. -/
def Comparison.apply (op : Comparison) (lhs rhs : Value) : Except Notice Bool :=
  match lhs.order rhs with
  | some o => .ok (op.holds o)
  | none => .error (.incomparable op lhs rhs)

/-- The value of a result, or a default in the place of a fault. -/
def orElse (default : α) : Except Notice α → α
  | .ok a => a
  | .error _ => default

def faultOf : Except Notice α → List Notice
  | .ok _ => []
  | .error n => [n]

/-- The value of a binary operator on the values of its operands. -/
def Operator.apply (op : Operator) (lhs rhs : Value) : Value :=
  match op with
  | .arithmetic op => orElse .zero (op.apply lhs rhs)
  | .equal => .bool (lhs.equals rhs)
  | .unequal => .bool (!lhs.equals rhs)
  | .comparison op => .bool (orElse false (op.apply lhs rhs))
  | .and => .bool (lhs.truthy && rhs.truthy)
  | .or => .bool (lhs.truthy || rhs.truthy)

/-- The fault of a binary operator itself, on the values of its operands. -/
def Operator.faults (op : Operator) (lhs rhs : Value) : List Notice :=
  match op with
  | .arithmetic op => faultOf (op.apply lhs rhs)
  | .comparison op => faultOf (op.apply lhs rhs)
  | _ => []

/-- Whether the value of the left operand leaves the right one unevaluated. -/
def Operator.decidedBy (op : Operator) (lhs : Value) : Bool :=
  match op with
  | .and => !lhs.truthy
  | .or => lhs.truthy
  | _ => false

namespace Env

def eval (env : Env) : Expr → Value
  | .literal v => v
  | .variable name => (env.lookup name).getD .zero
  | .negation e => .bool (!(env.eval e).truthy)
  | .binary op lhs rhs => op.apply (env.eval lhs) (env.eval rhs)

/-- The faults that evaluating an expression meets, in order. -/
def faults (env : Env) : Expr → List Notice
  | .literal _ => []
  | .variable name => if (env.lookup name).isSome then [] else [.undefinedVariable name]
  | .negation e => env.faults e
  | .binary op lhs rhs =>
      if op.decidedBy (env.eval lhs) then env.faults lhs
      else env.faults lhs ++ env.faults rhs ++ op.faults (env.eval lhs) (env.eval rhs)

def evalInteger (env : Env) (e : Expr) : Int := (env.eval e).asInteger

/-- The fault of reading a value as an integer. -/
def integerFaults (v : Value) : List Notice :=
  match v, v.integer? with
  | .str s, none => [.notANumber s]
  | _, _ => []

/-- The faults of evaluating an expression to an integer. -/
def evalIntegerFaults (env : Env) (e : Expr) : List Notice :=
  env.faults e ++ integerFaults (env.eval e)

/-- A coordinate or a count of pixels, kept within thirty-two bits. -/
def evalPixels (env : Env) (e : Expr) : Int := clampSigned 32 (env.evalInteger e)

def evalCondition (env : Env) (e : Expr) : Bool := (env.eval e).truthy

end Env
end Choreography
