import Choreography.Binary64

/-! # Decimal text of double-precision numbers

`shortest` finds the fewest significant digits that read back as a given number: the value's two
neighbours on ever finer decimal grids are tested against the interval of reals that round to it.
A `Layout` says how digits and exponent become text. -/
namespace Choreography.Decimal

/-- A positive rational number. -/
structure Ratio where
  num : Nat
  den : Nat
deriving DecidableEq, Repr

/-- The ratio `n * 2 ^ e`. -/
def Ratio.scaled (n : Nat) (e : Int) : Ratio :=
  if 0 ≤ e then ⟨n <<< e.toNat, 1⟩ else ⟨n, 1 <<< (-e).toNat⟩

/-- The digits `digits` with a unit of `10 ^ exponent` in the last place. -/
structure Digits where
  digits : Nat
  exponent : Int
deriving DecidableEq, Repr

/-- Whether `10 ^ e` is at most the ratio. -/
def Ratio.reaches (r : Ratio) (e : Int) : Bool :=
  if 0 ≤ e then Nat.pow 10 e.toNat * r.den ≤ r.num else r.den ≤ r.num * Nat.pow 10 (-e).toNat

/-- The decimal exponent of the leading digit. -/
def Ratio.magnitude (r : Ratio) : Int :=
  let estimate := ((Nat.log2 r.num : Int) - Nat.log2 r.den) * 30103 / 100000
  if r.reaches (estimate + 1) then estimate + 1
  else if r.reaches estimate then estimate
  else estimate - 1

/-- The reals nearer to a number than to its neighbours; the ends belong to it if its
significand is even. -/
structure Interval where
  low : Ratio
  high : Ratio
  closed : Bool

def interval (m : Nat) (e : Int) : Interval :=
  let low := if m = Nat.pow 2 52 ∧ -1074 < e then Ratio.scaled (4 * m - 1) (e - 2)
    else Ratio.scaled (2 * m - 1) (e - 1)
  ⟨low, Ratio.scaled (2 * m + 1) (e - 1), m % 2 == 0⟩

/-- The decimal `d * 10 ^ e` as a ratio. -/
def Digits.ratio (d : Digits) : Ratio :=
  if 0 ≤ d.exponent then ⟨d.digits * Nat.pow 10 d.exponent.toNat, 1⟩
  else ⟨d.digits, Nat.pow 10 (-d.exponent).toNat⟩

def Ratio.lt (a b : Ratio) : Bool := a.num * b.den < b.num * a.den

def Interval.holds (i : Interval) (d : Digits) : Bool :=
  let r := d.ratio
  if i.closed then !(r.lt i.low) && !(i.high.lt r) else i.low.lt r && r.lt i.high

/-- The two neighbours of a ratio on the decimal grid of a given unit. -/
def neighbours (r : Ratio) (unit : Int) : Digits × Digits :=
  let d := if 0 ≤ unit then r.num / (r.den * Nat.pow 10 unit.toNat)
    else r.num * Nat.pow 10 (-unit).toNat / r.den
  (⟨d, unit⟩, ⟨d + 1, unit⟩)

/-- Whether the lower of two neighbours is the nearer one, or as near and even. -/
def lowerIsNearer (r : Ratio) (d : Digits) : Bool :=
  let twice : Ratio := (⟨2 * d.digits + 1, d.exponent⟩ : Digits).ratio
  let double : Ratio := ⟨2 * r.num, r.den⟩
  double.lt twice || (!(twice.lt double) && d.digits % 2 == 0)

/-- The nearest point of a grid that reads back as the number, if there is one. -/
def onGrid (r : Ratio) (i : Interval) (unit : Int) : Option Digits :=
  let (lower, upper) := neighbours r unit
  match i.holds lower, i.holds upper with
  | true, true => some (if lowerIsNearer r lower then lower else upper)
  | true, false => some lower
  | false, true => some upper
  | false, false => none

/-- Drops final zeros, each of which raises the exponent. -/
def Digits.strip (d : Digits) : Nat → Digits
  | 0 => d
  | fuel + 1 =>
      if d.digits % 10 = 0 ∧ d.digits ≠ 0 then strip ⟨d.digits / 10, d.exponent + 1⟩ fuel else d

def firstHit (r : Ratio) (i : Interval) (unit : Int) : Nat → Digits
  | 0 => (neighbours r unit).1
  | fuel + 1 =>
      match onGrid r i unit with
      | some d => d
      | none => firstHit r i (unit - 1) fuel

/-- The fewest digits that read back as `m * 2 ^ e`, and of those the nearest. -/
def shortest (m : Nat) (e : Int) : Digits :=
  let r := Ratio.scaled m e
  (firstHit r (interval m e) r.magnitude 20).strip 20

/-- How a number is written: the exponents of the leading digit that are written without an
exponent mark, if they are limited, and whether a whole number keeps a point and a zero. -/
structure Layout where
  positional : Option (Int × Int)
  wholePoint : Bool

/-- Every number is written without an exponent mark, a whole one without a point. -/
def plain : Layout := ⟨none, false⟩

/-- Numbers from `1e-4` to below `1e16` are written without an exponent mark. -/
def diagnostic : Layout := ⟨some (-4, 15), true⟩

/-- Numbers from `1e-5` to below `1e16` are written without an exponent mark. -/
def interchange : Layout := ⟨some (-5, 15), true⟩

def zeros (n : Nat) : String := String.ofList (List.replicate n '0')

/-- Digits and zeros alone, with a point where a fraction begins. -/
def Digits.positionalText (d : Digits) (wholePoint : Bool) : String :=
  let text := toString d.digits
  if 0 ≤ d.exponent then
    text ++ zeros d.exponent.toNat ++ (if wholePoint then ".0" else "")
  else
    let places := (-d.exponent).toNat
    if text.length ≤ places then "0." ++ zeros (places - text.length) ++ text
    else
      let chars := text.toList
      String.ofList (chars.take (chars.length - places)) ++ "." ++
        String.ofList (chars.drop (chars.length - places))

/-- One digit before the point, the others behind it, and the exponent of the first. -/
def Digits.exponentText (d : Digits) : String :=
  let chars := (toString d.digits).toList
  let leading := d.exponent + (chars.length - 1 : Nat)
  String.ofList (chars.take 1) ++
    (if chars.length ≤ 1 then "" else "." ++ String.ofList (chars.drop 1)) ++
    "e" ++ toString leading

def Layout.unsigned (layout : Layout) (d : Digits) : String :=
  match layout.positional with
  | none => d.positionalText layout.wholePoint
  | some (least, greatest) =>
      let leading := d.exponent + ((toString d.digits).length - 1 : Nat)
      if d.digits = 0 ∨ (least ≤ leading ∧ leading ≤ greatest) then
        d.positionalText layout.wholePoint
      else d.exponentText

/-- The text of a number; a NaN has no sign. -/
def Layout.text (layout : Layout) (x : Binary64) : String :=
  if x.isNaN then "NaN"
  else
    let sign := if x.negative then "-" else ""
    if x.isInfinite then sign ++ "inf"
    else if x.isZero then sign ++ layout.unsigned ⟨0, 0⟩
    else sign ++ layout.unsigned (shortest x.significand x.exponent)

end Choreography.Decimal
