import Choreography.Unprintable

/-! # Quoted text

A text in double quotes, in which quotes, backslashes and characters without a shape of their own
are written as escapes. -/
namespace Choreography.Quoted

/-- The digits of a number in base sixteen. -/
def hexDigits (n : Nat) : List Char := Nat.toDigits 16 n

/-- How a character is written inside quotes. -/
def escaped (c : Char) : List Char :=
  if c = '\x00' then ['\\', '0']
  else if c = '\t' then ['\\', 't']
  else if c = '\r' then ['\\', 'r']
  else if c = '\n' then ['\\', 'n']
  else if c = '\\' then ['\\', '\\']
  else if c = '"' then ['\\', '"']
  else if Unprintable.isUnprintable c then
    ['\\', 'u', '\x7b'] ++ hexDigits c.toNat ++ ['\x7d']
  else [c]

def text (s : String) : String := "\"" ++ String.ofList (s.toList.flatMap escaped) ++ "\""

/-- A list of texts in quotes, between brackets. -/
def list (items : List String) : String := "[" ++ ", ".intercalate (items.map text) ++ "]"

end Choreography.Quoted
