/-! # Dates and times

A moment is a day of the calendar, a time of the day, or both; one with both may say how far its
clock is from universal time. Its text is one for all ways of writing the moment: a capital `T`
between day and time, no more decimals of a second than needed, offsets in hours and minutes. -/
namespace Choreography

/-- A day of the Gregorian calendar, which also counts the years before it was in use. -/
structure Day where
  year : Nat
  month : Nat
  day : Nat
deriving DecidableEq, Repr

/-- The number of days of a month. -/
def Day.daysIn (year month : Nat) : Nat :=
  if month = 2 then
    (if year % 4 = 0 ∧ (year % 100 ≠ 0 ∨ year % 400 = 0) then 29 else 28)
  else if month = 4 ∨ month = 6 ∨ month = 9 ∨ month = 11 then 30
  else 31

/-- A time of the day. The second sixty is a leap second. -/
structure Clock where
  hour : Nat
  minute : Nat
  second : Nat
  nanosecond : Nat
deriving DecidableEq, Repr

/-- How far a clock is from universal time. -/
inductive Offset where
  | universal
  | minutes (ahead : Int)
deriving DecidableEq, Repr

inductive Moment where
  | day (d : Day)
  | clock (c : Clock)
  | both (d : Day) (c : Clock) (offset : Option Offset)
deriving DecidableEq, Repr

namespace Moment

/-- The last digits of a number in base ten, so many of them. -/
def digits : Nat → Nat → List Char
  | 0, _ => []
  | count + 1, n => digits count (n / 10) ++ [Nat.digitChar (n % 10)]

/-- The decimals of a second, with a point in front if there are any. -/
def decimals (nanosecond : Nat) : List Char :=
  let needed := ((digits 9 nanosecond).reverse.dropWhile (· == '0')).reverse
  if needed.isEmpty then [] else '.' :: needed

end Moment

def Day.chars (d : Day) : List Char :=
  Moment.digits 4 d.year ++ '-' :: Moment.digits 2 d.month ++ '-' :: Moment.digits 2 d.day

def Clock.chars (c : Clock) : List Char :=
  Moment.digits 2 c.hour ++ ':' :: Moment.digits 2 c.minute ++ ':' :: Moment.digits 2 c.second ++
    Moment.decimals c.nanosecond

/-- An offset of no minutes is written with a plus sign. -/
def Offset.chars : Offset → List Char
  | .universal => ['Z']
  | .minutes ahead =>
      (if ahead < 0 then '-' else '+') ::
        (Moment.digits 2 (ahead.natAbs / 60) ++ ':' :: Moment.digits 2 (ahead.natAbs % 60))

/-- The characters of a moment. -/
def Moment.chars : Moment → List Char
  | .day d => d.chars
  | .clock c => c.chars
  | .both d c offset => d.chars ++ 'T' :: c.chars ++ (offset.map Offset.chars).getD []

def Moment.text (m : Moment) : String := String.ofList m.chars

end Choreography
