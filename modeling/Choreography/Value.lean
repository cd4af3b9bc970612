import Choreography.Blank
import Choreography.Decimal

/-! # Scalar values

A program computes with truth values, signed integers of sixty-four bits, double-precision numbers
and strings. Each value can be read as an integer and as a condition. -/
namespace Choreography

/-- The least and the greatest signed integer of a given number of bits. -/
def signedRange (bits : Nat) : Int × Int :=
  (-(1 <<< (bits - 1) : Nat), (1 <<< (bits - 1) : Nat) - 1)

/-- Whether an integer is a signed integer of a given number of bits. -/
def isSigned (bits : Nat) (i : Int) : Bool :=
  (signedRange bits).1 ≤ i && i ≤ (signedRange bits).2

/-- The signed integer of a given number of bits that is nearest to an integer. -/
def clampSigned (bits : Nat) (i : Int) : Int :=
  max (signedRange bits).1 (min (signedRange bits).2 i)

/-- The signed integer of a given number of bits that an integer wraps around to. -/
def wrapSigned (bits : Nat) (i : Int) : Int := i.bmod (1 <<< bits)

/-- The unsigned number of a given number of bits that a number wraps around to. -/
def wrapUnsigned (bits n : Nat) : Nat := n % (1 <<< bits)

/-- Result of evaluating an expression. -/
inductive Value where
  | bool (b : Bool)
  | int (i : Int64)
  | float (x : Binary64)
  | str (s : String)
deriving DecidableEq, Repr, Inhabited

namespace Value

def zero : Value := .int 0

/-- Digits in base ten, all of them ASCII. -/
def digits? (chars : List Char) : Option Nat :=
  if chars.isEmpty then none
  else chars.foldl (fun n c => n.bind fun n =>
    if c.isDigit then some (10 * n + (c.toNat - '0'.toNat)) else none) (some 0)

/-- A signed integer of sixty-four bits in base ten, after an optional sign. -/
def integerText? (chars : List Char) : Option Int :=
  let value : Option Int :=
    match chars with
    | '-' :: rest => (digits? rest).map fun n => -(n : Int)
    | '+' :: rest => (digits? rest).map fun n => (n : Int)
    | _ => (digits? chars).map fun n => (n : Int)
  value.filter (isSigned 64)

/-- The integer that a value stands for, if it has one. -/
def integer? : Value → Option Int
  | .bool b => some (if b then 1 else 0)
  | .int i => some i.toInt
  | .float x => some x.truncate
  | .str s => integerText? (Blank.trim s.toList)

/-- The integer view of a value; a string that is no number stands for zero. -/
def asInteger (v : Value) : Int := v.integer?.getD 0

/-- The condition that a value stands for; a NaN is unequal to zero and so holds. -/
def truthy : Value → Bool
  | .bool b => b
  | .int i => i != 0
  | .float x => !x.isZero
  | .str s => !s.isEmpty

/-- The number that a value stands for in mixed arithmetic. -/
def number? : Value → Option Binary64
  | .int i => some (.ofInt i.toInt)
  | .float x => some x
  | _ => none

/-- Strings stand in quotes as they are, numbers in plain digits. -/
def text : Value → String
  | .bool b => if b then "true" else "false"
  | .int i => toString i.toInt
  | .float x => Decimal.plain.text x
  | .str s => "\"" ++ s ++ "\""

end Value
end Choreography
