/-! # Double-precision numbers

A number is its sixty-four bits: a sign, eleven bits of exponent and fifty-two of fraction. A
finite one is a whole number of at most fifty-three bits times a power of two. -/
namespace Choreography

/-- A double-precision number in the interchange format. -/
structure Binary64 where
  bits : UInt64
deriving DecidableEq, Repr, Inhabited

namespace Binary64

def toFloat (x : Binary64) : Float := Float.ofBits x.bits

def ofFloat (x : Float) : Binary64 := ⟨x.toBits⟩

def negative (x : Binary64) : Bool := Nat.pow 2 63 ≤ x.bits.toNat

def exponentBits (x : Binary64) : Nat := x.bits.toNat / Nat.pow 2 52 % Nat.pow 2 11

def fraction (x : Binary64) : Nat := x.bits.toNat % Nat.pow 2 52

def isNaN (x : Binary64) : Bool := x.exponentBits == 2047 && x.fraction != 0

def isInfinite (x : Binary64) : Bool := x.exponentBits == 2047 && x.fraction == 0

def isFinite (x : Binary64) : Bool := x.exponentBits != 2047

/-- The whole number that a finite number scales by a power of two. -/
def significand (x : Binary64) : Nat :=
  if x.exponentBits = 0 then x.fraction else x.fraction + Nat.pow 2 52

/-- The power of two that scales the significand of a finite number. -/
def exponent (x : Binary64) : Int :=
  if x.exponentBits = 0 then -1074 else (x.exponentBits : Int) - 1075

def isZero (x : Binary64) : Bool := x.exponentBits == 0 && x.fraction == 0

def nan : Binary64 := ⟨0x7ff8000000000000⟩

def zero (negative : Bool) : Binary64 := if negative then ⟨0x8000000000000000⟩ else ⟨0⟩

def ofInt (i : Int) : Binary64 :=
  match i with
  | .ofNat n => ofFloat (Float.ofScientific n false 0)
  | .negSucc n => ofFloat (-Float.ofScientific (n + 1) false 0)

def add (x y : Binary64) : Binary64 := ofFloat (x.toFloat + y.toFloat)

def sub (x y : Binary64) : Binary64 := ofFloat (x.toFloat - y.toFloat)

def mul (x y : Binary64) : Binary64 := ofFloat (x.toFloat * y.toFloat)

def div (x y : Binary64) : Binary64 := ofFloat (x.toFloat / y.toFloat)

/-- The number `m * 2 ^ e`, for a product that is a double-precision number. -/
def ofScaled (negative : Bool) (m : Nat) (e : Int) : Binary64 :=
  if m = 0 then zero negative
  else
    let excess := (Nat.log2 m + 1) - 53
    let magnitude := Float.scaleB (Float.ofScientific (m >>> excess) false 0) (e + excess)
    ofFloat (if negative then -magnitude else magnitude)

/-- The exact remainder of a division rounded toward zero; it has the sign of the dividend. -/
def rem (x y : Binary64) : Binary64 :=
  if x.isNaN || y.isNaN || x.isInfinite || y.isZero then nan
  else if y.isInfinite then x
  else
    let e := min x.exponent y.exponent
    let a := x.significand <<< (x.exponent - e).toNat
    let b := y.significand <<< (y.exponent - e).toNat
    ofScaled x.negative (a % b) e

/-- Equality of numbers: the two zeros are equal and a NaN equals nothing. -/
def sameNumber (x y : Binary64) : Bool := x.toFloat == y.toFloat

/-- The order of two numbers, if neither is a NaN. -/
def order (x y : Binary64) : Option Ordering :=
  if x.toFloat < y.toFloat then some .lt
  else if y.toFloat < x.toFloat then some .gt
  else if x.toFloat == y.toFloat then some .eq
  else none

/-- The whole part, kept within the signed numbers of sixty-four bits; a NaN has none. -/
def truncate (x : Binary64) : Int :=
  let least : Int := -9223372036854775808
  let greatest : Int := 9223372036854775807
  if x.isNaN then 0
  else if x.isInfinite then (if x.negative then least else greatest)
  else
    let magnitude : Int :=
      if 0 ≤ x.exponent then x.significand <<< x.exponent.toNat
      else x.significand >>> (-x.exponent).toNat
    max least (min greatest (if x.negative then -magnitude else magnitude))

end Binary64
end Choreography
