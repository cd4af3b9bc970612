import Choreography.Value

/-! # Expressions

Conditions and numeric arguments of a program: literals, variables, negation and binary
operators. -/
namespace Choreography

inductive Arithmetic where
  | add | sub | mul | div | rem
deriving DecidableEq, Repr

inductive Comparison where
  | lt | le | gt | ge
deriving DecidableEq, Repr

inductive Operator where
  | arithmetic (op : Arithmetic)
  | equal
  | unequal
  | comparison (op : Comparison)
  | and
  | or
deriving DecidableEq, Repr

namespace Operator

def symbol : Operator → String
  | .arithmetic .add => "+"
  | .arithmetic .sub => "-"
  | .arithmetic .mul => "*"
  | .arithmetic .div => "/"
  | .arithmetic .rem => "%"
  | .equal => "=="
  | .unequal => "!="
  | .comparison .lt => "<"
  | .comparison .le => "<="
  | .comparison .gt => ">"
  | .comparison .ge => ">="
  | .and => "&&"
  | .or => "||"

def all : List Operator :=
  [.arithmetic .add, .arithmetic .sub, .arithmetic .mul, .arithmetic .div, .arithmetic .rem,
    .equal, .unequal, .comparison .lt, .comparison .le, .comparison .gt, .comparison .ge,
    .and, .or]

def ofSymbol? (s : String) : Option Operator := all.find? fun op => op.symbol == s

@[simp] theorem ofSymbol?_symbol (op : Operator) : ofSymbol? op.symbol = some op := by
  cases op with
  | arithmetic a => cases a <;> decide
  | comparison c => cases c <;> decide
  | equal => decide
  | unequal => decide
  | and => decide
  | or => decide

end Operator

inductive Expr where
  | literal (v : Value)
  | variable (name : String)
  | negation (e : Expr)
  | binary (op : Operator) (lhs rhs : Expr)
deriving DecidableEq, Repr, Inhabited

namespace Expr

def int (i : Int64) : Expr := .literal (.int i)

def zero : Expr := .int 0

def one : Expr := .int 1

/-- The integer that a literal stands for. -/
def literalInteger? : Expr → Option Int
  | .literal v => some v.asInteger
  | _ => none

end Expr
end Choreography
