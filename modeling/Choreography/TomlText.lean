import Choreography.Document

/-! # Writing TOML text

A document of two levels, a table of sections, is written with a header for each section. A string
is written in the first of the forms basic, literal, basic and literal over several lines that
needs no escapes, and with escapes if there is none. -/
namespace Choreography.TomlText

/-- The longest run of a character in a text. -/
def longestRun (c : Char) (current longest : Nat) : List Char → Nat
  | [] => max current longest
  | d :: rest =>
      if d = c then longestRun c (current + 1) longest rest
      else longestRun c 0 (max current longest) rest

/-- Whether a character can only be written as an escape. -/
def needsEscape (c : Char) : Bool :=
  (c.toNat < 0x20 && c != '\t' && c != '\n') || c.toNat == 0x7f

def hexDigit (n : Nat) : Char := if n < 10 then Char.ofNat (48 + n) else Char.ofNat (55 + n)

/-- Four digits in base sixteen. -/
def hexFour (n : Nat) : List Char :=
  [hexDigit (n / 4096 % 16), hexDigit (n / 256 % 16), hexDigit (n / 16 % 16), hexDigit (n % 16)]

/-- How a character other than a quote is written in a basic string. -/
def escaped (multiline : Bool) (c : Char) : List Char :=
  if c = '\x08' then ['\\', 'b']
  else if c = '\t' then ['\\', 't']
  else if c = '\n' then (if multiline then ['\n'] else ['\\', 'n'])
  else if c = '\x0c' then ['\\', 'f']
  else if c = '\r' then ['\\', 'r']
  else if c = '\\' then ['\\', '\\']
  else if needsEscape c then '\\' :: 'u' :: hexFour c.toNat
  else [c]

/-- The inside of a basic string. Over several lines two quotes in a row stand as they are. -/
def basicBody (multiline : Bool) (quotes : Nat) : List Char → List Char
  | [] => []
  | '"' :: rest =>
      if multiline && quotes < 2 then '"' :: basicBody multiline (quotes + 1) rest
      else '\\' :: '"' :: basicBody multiline 0 rest
  | c :: rest => escaped multiline c ++ basicBody multiline 0 rest

/-- The forms of a string. -/
inductive Form where
  | basic
  | literal
  | multilineBasic
  | multilineLiteral
deriving DecidableEq, Repr

def form (chars : List Char) : Form :=
  let codes := chars.any needsEscape
  let doubles := longestRun '"' 0 0 chars
  let singles := longestRun '\'' 0 0 chars
  let newline := chars.contains '\n'
  let backslash := chars.contains '\\'
  if !codes && !backslash && doubles == 0 && !newline then .basic
  else if !codes && singles == 0 && !newline then .literal
  else if !codes && !backslash && doubles ≤ 2 then .multilineBasic
  else if !codes && singles ≤ 2 then .multilineLiteral
  else if newline then .multilineBasic
  else .basic

/-- Quotes on both sides; a string with line breaks begins on a line of its own. -/
def enclosed (quotes : List Char) (newline : Bool) (body : List Char) : List Char :=
  quotes ++ (if newline then ['\n'] else []) ++ body ++ quotes

def string (s : String) : String :=
  let chars := s.toList
  let newline := chars.contains '\n'
  String.ofList (match form chars with
    | .basic => enclosed ['"'] false (basicBody false 0 chars)
    | .literal => enclosed ['\''] false chars
    | .multilineBasic => enclosed ['"', '"', '"'] newline (basicBody true 0 chars)
    | .multilineLiteral => enclosed ['\'', '\'', '\''] newline chars)

/-- The text of a scalar; a whole number must be a signed one of sixty-four bits. -/
def scalar? : Document → Option String
  | .bool b => some (if b then "true" else "false")
  | .natural n => if n < Nat.pow 2 63 then some (toString n) else none
  | .integer i => some (toString i)
  | .string s => some (string s)
  | _ => none

def entries? : List (String × Document) → Option String
  | [] => some ""
  | (name, d) :: rest => do
      let value ← scalar? d
      let rest ← entries? rest
      some (name ++ " = " ++ value ++ "\n" ++ rest)

def sections? : List (String × Document) → Option (List String)
  | [] => some []
  | (name, .object fields) :: rest => do
      let body ← entries? fields
      let rest ← sections? rest
      some (("[" ++ name ++ "]\n" ++ body) :: rest)
  | _ => none

/-- The text of a table of sections, with a blank line between them. -/
def render? : Document → Option String
  | .object fields => (sections? fields).map fun texts => "\n".intercalate texts
  | _ => none

end Choreography.TomlText
