import Choreography.Decimal
import Choreography.Document

/-! # Documents as JSON text

A text is split into tokens by an automaton on characters, and the tokens are put together by an
automaton with a stack of open containers. Numbers with a fraction or an exponent, or beyond
sixty-four bits, are double-precision numbers. -/
namespace Choreography.Json

/-- How deep arrays and objects may nest; what is deeper can only be skipped. -/
def depthLimit : Nat := 127

inductive Token where
  | openArray
  | closeArray
  | openObject
  | closeObject
  | comma
  | colon
  | scalar (d : Document)
  /-- A string; it is missing if an escape in it stands for no character. -/
  | text (s : Option String)
deriving Repr

/-! ## Numbers -/

def digitValue (c : Char) : Nat := c.toNat - '0'.toNat

/-- The digits of a number, kept as far as sixty-four bits hold them. -/
structure Significand where
  value : Nat
  /-- The digits that were left out. -/
  dropped : Nat
  /-- The digits that were taken in. -/
  taken : Nat
deriving DecidableEq, Repr

/-- Takes in digits up to the first one that exceeds sixty-four bits. -/
def Significand.extend (s : Significand) (c : Char) : Significand :=
  let value := 10 * s.value + digitValue c
  if s.dropped = 0 ∧ value < Nat.pow 2 64 then ⟨value, 0, s.taken + 1⟩
  else { s with dropped := s.dropped + 1 }

def Significand.of (start : Nat) (digits : List Char) : Significand :=
  digits.foldl Significand.extend ⟨start, 0, 0⟩

/-- The number nearest to a power of ten. -/
def powerOfTen (n : Nat) : Float := Float.ofScientific 1 false n

/-- Divides by a power of ten in parts that are numbers themselves. -/
def divideByPower (x : Float) : Nat → Nat → Float
  | 0, _ => x
  | fuel + 1, n =>
      if n ≤ 308 then x / powerOfTen n
      else if x == 0 then x
      else divideByPower (x / powerOfTen 308) fuel (n - 308)

/-- A significand of sixty-four bits times a power of ten, in one rounded operation where that is
possible; nothing if the result is too large. -/
def scale (significand : Nat) (exponent : Int) : Option Float :=
  let x := Float.ofScientific significand false 0
  if exponent < 0 then some (divideByPower x 8 (-exponent).toNat)
  else if 308 < exponent then (if significand = 0 then some x else none)
  else
    let y := x * powerOfTen exponent.toNat
    if y.isInf then none else some y

def ofFloat (negative : Bool) : Option Float → Document
  | some x => .float (.ofFloat (if negative then -x else x))
  | none => .unreadable

/-- The parts of a number: digits before the point, behind it, and of the exponent. -/
structure Numeral where
  negative : Bool
  whole : List Char
  fraction : List Char
  exponent : Option (Bool × List Char)

/-- Splits an exponent off: its mark, an optional sign and at least one digit. -/
def exponentPart? (negative : Bool) (whole fraction : List Char) (chars : List Char) :
    Option Numeral :=
  match chars with
  | [] => some ⟨negative, whole, fraction, none⟩
  | c :: rest =>
      if c = 'e' ∨ c = 'E' then
        let (sign, digits) :=
          match rest with
          | '-' :: r => (true, r)
          | '+' :: r => (false, r)
          | r => (false, r)
        if !digits.isEmpty && digits.all Char.isDigit then
          some ⟨negative, whole, fraction, some (sign, digits)⟩
        else none
      else none

/-- Reads the form of a number: no needless zeros in front, and digits on both sides of a point. -/
def numeral? (chars : List Char) : Option Numeral :=
  let (negative, chars) :=
    match chars with
    | '-' :: rest => (true, rest)
    | rest => (false, rest)
  let whole := chars.takeWhile Char.isDigit
  let rest := chars.dropWhile Char.isDigit
  if whole.isEmpty || (whole.head? == some '0' && 1 < whole.length) then none
  else
    match rest with
    | '.' :: rest =>
        let fraction := rest.takeWhile Char.isDigit
        if fraction.isEmpty then none
        else exponentPart? negative whole fraction (rest.dropWhile Char.isDigit)
    | rest => exponentPart? negative whole [] rest

def natural (digits : List Char) : Nat := digits.foldl (fun n c => 10 * n + digitValue c) 0

/-- The greatest exponent that is computed with. -/
def exponentLimit : Nat := 2147483647

/-- The number that a numeral stands for. A whole number of sixty-four bits stays one, save a
negative zero. -/
def Numeral.document (n : Numeral) : Document :=
  let whole := Significand.of 0 n.whole
  if n.fraction.isEmpty ∧ n.exponent.isNone ∧ whole.dropped = 0 then
    if !n.negative then .natural whole.value
    else if 0 < whole.value ∧ whole.value ≤ Nat.pow 2 63 then .integer (-(whole.value : Int))
    else ofFloat true (scale whole.value 0)
  else
    let s := Significand.of whole.value n.fraction
    let shift : Int := (whole.dropped : Int) - s.taken
    match n.exponent with
    | none => ofFloat n.negative (scale s.value shift)
    | some (sign, digits) =>
        let e := natural digits
        if exponentLimit < e then
          if !sign && s.value != 0 then .unreadable else ofFloat n.negative (some 0)
        else ofFloat n.negative (scale s.value (if sign then shift - e else shift + e))

/-! ## Tokens -/

/-- A string that is being read, last character first, with half of a character that two escapes
stand for. -/
structure Spelling where
  chars : List Char
  half : Option Nat
  broken : Bool
deriving DecidableEq, Repr

namespace Spelling

def empty : Spelling := ⟨[], none, false⟩

def push (s : Spelling) (c : Char) : Spelling :=
  ⟨c :: s.chars, none, s.broken || s.half.isSome⟩

/-- Takes in a code unit of sixteen bits that an escape stands for. -/
def pushUnit (s : Spelling) (unit : Nat) : Spelling :=
  if 0xd800 ≤ unit ∧ unit < 0xdc00 then
    { s with half := some unit, broken := s.broken || s.half.isSome }
  else if 0xdc00 ≤ unit ∧ unit < 0xe000 then
    match s.half with
    | some high =>
        let c := Char.ofNat (0x10000 + (high - 0xd800) * 0x400 + (unit - 0xdc00))
        ⟨c :: s.chars, none, s.broken⟩
    | none => { s with broken := true }
  else s.push (Char.ofNat unit)

def token (s : Spelling) : Token :=
  .text (if s.broken || s.half.isSome then none else some (String.ofList s.chars.reverse))

end Spelling

inductive Mode where
  | between
  /-- Inside a number or a word, last character first. -/
  | bare (chars : List Char)
  | string (s : Spelling)
  | escape (s : Spelling)
  /-- Inside an escape with digits of base sixteen, so many of which are missing. -/
  | code (s : Spelling) (unit missing : Nat)
deriving DecidableEq, Repr

structure Scanner where
  tokens : List Token
  mode : Mode

def isSpace (c : Char) : Bool := c == ' ' || c == '\t' || c == '\n' || c == '\r'

def isBare (c : Char) : Bool := c.isAlphanum || c == '-' || c == '+' || c == '.'

def hexDigit? (c : Char) : Option Nat :=
  if c.isDigit then some (c.toNat - '0'.toNat)
  else if 'a' ≤ c ∧ c ≤ 'f' then some (c.toNat - 'a'.toNat + 10)
  else if 'A' ≤ c ∧ c ≤ 'F' then some (c.toNat - 'A'.toNat + 10)
  else none

def bareToken? (chars : List Char) : Option Token :=
  if chars = ['t', 'r', 'u', 'e'] then some (.scalar (.bool true))
  else if chars = ['f', 'a', 'l', 's', 'e'] then some (.scalar (.bool false))
  else if chars = ['n', 'u', 'l', 'l'] then some (.scalar .null)
  else (numeral? chars).map fun n => .scalar n.document

/-- The character that follows a backslash in the short form of an escape. -/
def shortEscape? (c : Char) : Option Char :=
  if c = '"' ∨ c = '\\' ∨ c = '/' then some c
  else if c = 'b' then some '\x08'
  else if c = 'f' then some '\x0c'
  else if c = 'n' then some '\n'
  else if c = 'r' then some '\r'
  else if c = 't' then some '\t'
  else none

namespace Scanner

/-- A character between tokens. -/
def between (tokens : List Token) (c : Char) : Option Scanner :=
  if isSpace c then some ⟨tokens, .between⟩
  else if c = '[' then some ⟨.openArray :: tokens, .between⟩
  else if c = ']' then some ⟨.closeArray :: tokens, .between⟩
  else if c = '\x7b' then some ⟨.openObject :: tokens, .between⟩
  else if c = '\x7d' then some ⟨.closeObject :: tokens, .between⟩
  else if c = ',' then some ⟨.comma :: tokens, .between⟩
  else if c = ':' then some ⟨.colon :: tokens, .between⟩
  else if c = '"' then some ⟨tokens, .string .empty⟩
  else if isBare c then some ⟨tokens, .bare [c]⟩
  else none

def step (s : Scanner) (c : Char) : Option Scanner :=
  match s.mode with
  | .between => between s.tokens c
  | .bare chars =>
      if isBare c then some ⟨s.tokens, .bare (c :: chars)⟩
      else (bareToken? chars.reverse).bind fun t => between (t :: s.tokens) c
  | .string spelling =>
      if c = '"' then some ⟨spelling.token :: s.tokens, .between⟩
      else if c = '\\' then some ⟨s.tokens, .escape spelling⟩
      else if c.toNat < 0x20 then none
      else some ⟨s.tokens, .string (spelling.push c)⟩
  | .escape spelling =>
      if c = 'u' then some ⟨s.tokens, .code spelling 0 4⟩
      else (shortEscape? c).map fun e => ⟨s.tokens, .string (spelling.push e)⟩
  | .code spelling unit missing =>
      (hexDigit? c).map fun d =>
        let unit := 16 * unit + d
        if missing ≤ 1 then ⟨s.tokens, .string (spelling.pushUnit unit)⟩
        else ⟨s.tokens, .code spelling unit (missing - 1)⟩

/-- The tokens of a text that has ended. -/
def finish? (s : Scanner) : Option (List Token) :=
  match s.mode with
  | .between => some s.tokens.reverse
  | .bare chars => (bareToken? chars.reverse).map fun t => (t :: s.tokens).reverse
  | _ => none

end Scanner

def scan? (chars : List Char) : Option (List Token) :=
  (chars.foldlM Scanner.step ⟨[], .between⟩).bind Scanner.finish?

/-! ## Containers -/

/-- An open array or object with what it holds so far, last part first; an object has the name of
the field that comes next. -/
inductive Container where
  | array (items : List Document)
  | object (fields : List (String × Document)) (readable : Bool) (name : String)
deriving Repr

inductive Expectation where
  | value
  | itemOrClose
  | nameOrClose
  | name
  | colon
  | separator
  | done (d : Document)
deriving Repr

structure Reader where
  stack : List Container
  expects : Expectation

namespace Reader

/-- Takes in a complete value. -/
def supply (d : Document) : List Container → Reader
  | [] => ⟨[], .done d⟩
  | .array items :: below => ⟨.array (d :: items) :: below, .separator⟩
  | .object fields readable name :: below =>
      ⟨.object ((name, d) :: fields) readable name :: below, .separator⟩

/-- The document of a container that closes at a given depth. -/
def closed (depth : Nat) : Container → Document
  | .array items => if depthLimit < depth then .unreadable else .array items.reverse
  | .object fields readable _ =>
      if depthLimit < depth || !readable then .unreadable else .object fields.reverse

def closeTop (stack : List Container) : Option Reader :=
  match stack with
  | [] => none
  | top :: below => some (supply (closed stack.length top) below)

def nameField (name : Option String) (stack : List Container) : Option Reader :=
  match stack with
  | .object fields readable _ :: below =>
      some ⟨.object fields (readable && name.isSome) (name.getD "") :: below, .colon⟩
  | _ => none

/-- Begins a value, or takes it in if it is a scalar. -/
def beginValue (stack : List Container) : Token → Option Reader
  | .openArray => some ⟨.array [] :: stack, .itemOrClose⟩
  | .openObject => some ⟨.object [] true "" :: stack, .nameOrClose⟩
  | .scalar d => some (supply d stack)
  | .text (some s) => some (supply (.string s) stack)
  | .text none => some (supply .unreadable stack)
  | _ => none

def step (r : Reader) (t : Token) : Option Reader :=
  match r.expects, t with
  | .value, t => beginValue r.stack t
  | .itemOrClose, .closeArray => closeTop r.stack
  | .itemOrClose, t => beginValue r.stack t
  | .nameOrClose, .closeObject => closeTop r.stack
  | .nameOrClose, .text name => nameField name r.stack
  | .name, .text name => nameField name r.stack
  | .colon, .colon => some ⟨r.stack, .value⟩
  | .separator, t =>
      match r.stack, t with
      | .array _ :: _, .comma => some ⟨r.stack, .value⟩
      | .array _ :: _, .closeArray => closeTop r.stack
      | .object .. :: _, .comma => some ⟨r.stack, .name⟩
      | .object .. :: _, .closeObject => closeTop r.stack
      | _, _ => none
  | _, _ => none

def finish? (r : Reader) : Option Document :=
  match r.expects with
  | .done d => some d
  | _ => none

end Reader

def ofTokens? (tokens : List Token) : Option Document :=
  (tokens.foldlM Reader.step ⟨[], .value⟩).bind Reader.finish?

/-- The document that a text holds. -/
def parse? (text : String) : Option Document := (scan? text.toList).bind ofTokens?

/-! ## Writing -/

mutual

def tokens : Document → List Token
  | .array items => .openArray :: (itemTokens items ++ [.closeArray])
  | .object fields => .openObject :: (fieldTokens fields ++ [.closeObject])
  | .string s => [.text (some s)]
  | d => [.scalar d]

def itemTokens : List Document → List Token
  | [] => []
  | [d] => tokens d
  | d :: rest => tokens d ++ .comma :: itemTokens rest

def fieldTokens : List (String × Document) → List Token
  | [] => []
  | [(name, d)] => .text (some name) :: .colon :: tokens d
  | (name, d) :: rest => .text (some name) :: .colon :: (tokens d ++ .comma :: fieldTokens rest)

end

def hexDigits (width n : Nat) : List Char :=
  match width with
  | 0 => []
  | width + 1 => hexDigits width (n / 16) ++ [Nat.digitChar (n % 16)]

/-- The characters that stand for one character inside a string. -/
def escaped (c : Char) : List Char :=
  if c = '"' then ['\\', '"']
  else if c = '\\' then ['\\', '\\']
  else if c = '\x08' then ['\\', 'b']
  else if c = '\x0c' then ['\\', 'f']
  else if c = '\n' then ['\\', 'n']
  else if c = '\r' then ['\\', 'r']
  else if c = '\t' then ['\\', 't']
  else if c.toNat < 0x20 then '\\' :: 'u' :: hexDigits 4 c.toNat
  else [c]

def scalarText : Document → String
  | .bool b => if b then "true" else "false"
  | .natural n => toString n
  | .integer i => toString i
  | .float x => if x.isFinite then Decimal.interchange.text x else "null"
  | _ => "null"

def Token.spelled : Token → String
  | .openArray => "["
  | .closeArray => "]"
  | .openObject => "\x7b"
  | .closeObject => "\x7d"
  | .comma => ","
  | .colon => ":"
  | .scalar d => scalarText d
  | .text s => "\"" ++ String.ofList ((s.getD "").toList.flatMap escaped) ++ "\""

/-- The text of a document, without blanks. -/
def render (d : Document) : String := (tokens d).foldl (fun text t => text ++ t.spelled) ""

end Choreography.Json
