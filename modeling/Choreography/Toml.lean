import Choreography.Document
import Choreography.Moment
import Choreography.Value

/-! # Reading TOML text

A text is a sequence of lines: entries, headers of tables and blank lines. Entries are put into a
tree of sections, in which each table may be defined once. Values are read by functions that take
characters off the front of a text; a value that spans lines is read in one go. -/
namespace Choreography.Toml

/-- How deep arrays and inline tables may nest, and how many parts a dotted key may have. -/
def depthLimit : Nat := 79

/-! ## Blanks -/

def isBlank (c : Char) : Bool := c == ' ' || c == '\t'

def skipBlanks (chars : List Char) : List Char := chars.dropWhile isBlank

/-- Whether a character may stand in a text as it is, apart from line breaks. -/
def isPlain (c : Char) : Bool := c == '\t' || (0x20 ≤ c.toNat && c.toNat ≠ 0x7f)

/-- Takes a line break off the front of a text. -/
def newline? : List Char → Option (List Char)
  | '\n' :: rest => some rest
  | '\r' :: '\n' :: rest => some rest
  | _ => none

/-- Takes blanks, a comment and a line break off the front of a text, or what is left of it. -/
def endLine? (chars : List Char) : Option (List Char) :=
  let rest :=
    match skipBlanks chars with
    | '#' :: rest => rest.dropWhile isPlain
    | rest => rest
  if rest.isEmpty then some [] else newline? rest

/-- Skips blanks, line breaks and comments, each of which ends with its line. -/
def skipLines (inComment : Bool) : List Char → List Char
  | [] => []
  | '\n' :: rest => skipLines false rest
  | '\r' :: '\n' :: rest => skipLines false rest
  | c :: rest =>
      if inComment then (if isPlain c then skipLines true rest else c :: rest)
      else if isBlank c then skipLines false rest
      else if c = '#' then skipLines true rest
      else c :: rest

/-! ## Strings -/

def hexDigit? (c : Char) : Option Nat :=
  if c.isDigit then some (c.toNat - '0'.toNat)
  else if 'a' ≤ c ∧ c ≤ 'f' then some (c.toNat - 'a'.toNat + 10)
  else if 'A' ≤ c ∧ c ≤ 'F' then some (c.toNat - 'A'.toNat + 10)
  else none

/-- The character whose code point is written in base sixteen. -/
def codePoint? (digits : List Char) : Option Char := do
  let n ← digits.foldlM (fun n c => (hexDigit? c).map fun d => 16 * n + d) 0
  if n.isValidChar then some (Char.ofNat n) else none

def shortEscape? (c : Char) : Option Char :=
  if c = 'b' then some '\x08'
  else if c = 't' then some '\t'
  else if c = 'n' then some '\n'
  else if c = 'f' then some '\x0c'
  else if c = 'r' then some '\r'
  else if c = '"' ∨ c = '\\' then some c
  else none

/-- Reads on to the closing quote of a basic string; `done` is what was read, last first. -/
def basicBody (done : List Char) : List Char → Option (String × List Char)
  | '"' :: rest => some (String.ofList done.reverse, rest)
  | '\\' :: 'u' :: a :: b :: c :: d :: rest =>
      match codePoint? [a, b, c, d] with
      | some x => basicBody (x :: done) rest
      | none => none
  | '\\' :: 'U' :: a :: b :: c :: d :: e :: f :: g :: h :: rest =>
      match codePoint? [a, b, c, d, e, f, g, h] with
      | some x => basicBody (x :: done) rest
      | none => none
  | '\\' :: c :: rest =>
      match shortEscape? c with
      | some x => basicBody (x :: done) rest
      | none => none
  | c :: rest => if isPlain c && c != '\\' then basicBody (c :: done) rest else none
  | [] => none

def literalBody (done : List Char) : List Char → Option (String × List Char)
  | '\'' :: rest => some (String.ofList done.reverse, rest)
  | c :: rest => if isPlain c then literalBody (c :: done) rest else none
  | [] => none

/-- Drops blanks and line breaks. -/
def dropSpace : List Char → List Char
  | '\n' :: rest => dropSpace rest
  | '\r' :: '\n' :: rest => dropSpace rest
  | c :: rest => if isBlank c then dropSpace rest else c :: rest
  | [] => []

/-- What follows a backslash that ends its line, without the space up to the next character. -/
def afterLineEnd? (chars : List Char) : Option (List Char) :=
  (newline? (skipBlanks chars)).map dropSpace

/-- Reads on to the closing quotes of a basic string of several lines. Up to two more quotes before
the closing ones belong to the string. -/
def multilineBasicBody (done : List Char) : Nat → List Char → Option (String × List Char)
  | 0, _ => none
  | fuel + 1, chars =>
      match chars with
      | '"' :: '"' :: '"' :: '"' :: '"' :: rest =>
          some (String.ofList ('"' :: '"' :: done).reverse, rest)
      | '"' :: '"' :: '"' :: '"' :: rest => some (String.ofList ('"' :: done).reverse, rest)
      | '"' :: '"' :: '"' :: rest => some (String.ofList done.reverse, rest)
      | '\\' :: 'u' :: a :: b :: c :: d :: rest =>
          match codePoint? [a, b, c, d] with
          | some x => multilineBasicBody (x :: done) fuel rest
          | none => none
      | '\\' :: 'U' :: a :: b :: c :: d :: e :: f :: g :: h :: rest =>
          match codePoint? [a, b, c, d, e, f, g, h] with
          | some x => multilineBasicBody (x :: done) fuel rest
          | none => none
      | '\\' :: rest =>
          match afterLineEnd? rest, rest with
          | some rest, _ => multilineBasicBody done fuel rest
          | none, c :: rest =>
              match shortEscape? c with
              | some x => multilineBasicBody (x :: done) fuel rest
              | none => none
          | none, [] => none
      | '\n' :: rest => multilineBasicBody ('\n' :: done) fuel rest
      | '\r' :: '\n' :: rest => multilineBasicBody ('\n' :: done) fuel rest
      | c :: rest => if isPlain c then multilineBasicBody (c :: done) fuel rest else none
      | [] => none

def multilineLiteralBody (done : List Char) : List Char → Option (String × List Char)
  | '\'' :: '\'' :: '\'' :: '\'' :: '\'' :: rest =>
      some (String.ofList ('\'' :: '\'' :: done).reverse, rest)
  | '\'' :: '\'' :: '\'' :: '\'' :: rest => some (String.ofList ('\'' :: done).reverse, rest)
  | '\'' :: '\'' :: '\'' :: rest => some (String.ofList done.reverse, rest)
  | '\n' :: rest => multilineLiteralBody ('\n' :: done) rest
  | '\r' :: '\n' :: rest => multilineLiteralBody ('\n' :: done) rest
  | c :: rest => if isPlain c then multilineLiteralBody (c :: done) rest else none
  | [] => none

/-- A string of several lines leaves out a line break right after the opening quotes. -/
def skipFirstNewline (chars : List Char) : List Char := (newline? chars).getD chars

def string? : List Char → Option (String × List Char)
  | '"' :: '"' :: '"' :: rest =>
      let rest := skipFirstNewline rest
      multilineBasicBody [] (rest.length + 1) rest
  | '\'' :: '\'' :: '\'' :: rest => multilineLiteralBody [] (skipFirstNewline rest)
  | '"' :: rest => basicBody [] rest
  | '\'' :: rest => literalBody [] rest
  | _ => none

/-! ## Keys -/

def isBareKey (c : Char) : Bool := c.isAlphanum || c == '-' || c == '_'

def simpleKey? (chars : List Char) : Option (String × List Char) :=
  match chars with
  | '"' :: rest => basicBody [] rest
  | '\'' :: rest => literalBody [] rest
  | _ =>
      let key := chars.takeWhile isBareKey
      if key.isEmpty then none else some (String.ofList key, chars.dropWhile isBareKey)

/-- Keys between points, with blanks around each. -/
def keyParts (done : List String) : Nat → List Char → Option (List String × List Char)
  | 0, _ => none
  | fuel + 1, chars => do
      let (key, rest) ← simpleKey? (skipBlanks chars)
      match skipBlanks rest with
      | '.' :: rest => keyParts (key :: done) fuel rest
      | rest => some ((key :: done).reverse, rest)

/-- A dotted key. -/
def key? (chars : List Char) : Option (List String × List Char) := keyParts [] depthLimit chars

/-! ## Numbers and dates -/

/-- Reads on in digits of a base, with single underscores between them. -/
def digitsFrom (value : Char → Option Nat) (base n : Nat) (afterDigit : Bool) :
    List Char → Option Nat
  | [] => if afterDigit then some n else none
  | '_' :: rest => if afterDigit then digitsFrom value base n false rest else none
  | c :: rest =>
      match value c with
      | some d => digitsFrom value base (base * n + d) true rest
      | none => none

def digitRun? (value : Char → Option Nat) (base : Nat) (chars : List Char) : Option Nat :=
  digitsFrom value base 0 false chars

def digitBelow? (base : Nat) (c : Char) : Option Nat := (hexDigit? c).filter (· < base)

def decimalRun? (chars : List Char) : Option Nat := digitRun? (digitBelow? 10) 10 chars

/-- Whole digits without needless zeros in front. -/
def wholeRun? (chars : List Char) : Option Nat :=
  match chars with
  | ['0'] => some 0
  | '0' :: _ => none
  | _ => decimalRun? chars

/-- Splits a sign off. -/
def sign : List Char → Bool × List Char
  | '-' :: rest => (true, rest)
  | '+' :: rest => (false, rest)
  | rest => (false, rest)

def signed (negative : Bool) (n : Nat) : Int := if negative then -(n : Int) else n

def integerOf? (chars : List Char) : Option Int :=
  let value : Option Int :=
    match chars with
    | '0' :: 'x' :: digits => (digitRun? (digitBelow? 16) 16 digits).map Int.ofNat
    | '0' :: 'o' :: digits => (digitRun? (digitBelow? 8) 8 digits).map Int.ofNat
    | '0' :: 'b' :: digits => (digitRun? (digitBelow? 2) 2 digits).map Int.ofNat
    | _ =>
        let (negative, digits) := sign chars
        (wholeRun? digits).map (signed negative)
  value.filter (isSigned 64)

def digitCount (n : Nat) : Nat := (Nat.toDigits 10 n).length

/-- The number nearest to `m * 10 ^ e`. -/
def nearest (m : Nat) (e : Int) : Float :=
  if m = 0 ∨ e + digitCount m < -400 then 0
  else if 400 < e + digitCount m then Float.ofScientific 1 false 400
  else Float.ofScientific m (e < 0) e.natAbs

/-- A number that is too large is refused; too large a negative one is infinite. -/
def floatOf (negative : Bool) (x : Float) : Option Document :=
  let y := if negative then -x else x
  if y.isInf && 0 < y then none else some (.float (.ofFloat y))

def isExponentMark (c : Char) : Bool := c == 'e' || c == 'E'

/-- A number with a fraction, an exponent or both. -/
def floatOf? (chars : List Char) : Option Document := do
  let (negative, digits) := sign chars
  let whole := digits.takeWhile fun c => c != '.' && !isExponentMark c
  let rest := digits.dropWhile fun c => c != '.' && !isExponentMark c
  let _ ← wholeRun? whole
  let (fraction, rest) ←
    match rest with
    | '.' :: rest =>
        let fraction := rest.takeWhile fun c => !isExponentMark c
        (decimalRun? fraction).map fun _ =>
          (fraction.filter Char.isDigit, rest.dropWhile fun c => !isExponentMark c)
    | [] => none
    | rest => some ([], rest)
  let exponent ←
    match rest with
    | [] => some (0 : Int)
    | _ :: rest =>
        let (down, digits) := sign rest
        (decimalRun? digits).map (signed down)
  let m ← decimalRun? (whole.filter Char.isDigit ++ fraction)
  floatOf negative (nearest m (exponent - fraction.length))

def specialOf? (chars : List Char) : Option Document :=
  let (negative, word) := sign chars
  if word = ['i', 'n', 'f'] then
    some (.float (.ofFloat (if negative then -(1 / 0) else 1 / 0)))
  else if word = ['n', 'a', 'n'] then some (.float .nan)
  else none

def isNumberChar (c : Char) : Bool := c.isAlphanum || c == '_' || c == '+' || c == '-' || c == '.'

def number? (chars : List Char) : Option (Document × List Char) := do
  let word := chars.takeWhile isNumberChar
  let d ← ((integerOf? word).map Document.integer).or ((floatOf? word).or (specialOf? word))
  some (d, chars.dropWhile isNumberChar)

/-- So many digits with a value within bounds. -/
def fixedDigits? (count least greatest : Nat) (chars : List Char) : Option (Nat × List Char) := do
  let digits := chars.take count
  if digits.length = count && digits.all Char.isDigit then
    let n ← decimalRun? digits
    if least ≤ n && n ≤ greatest then some (n, chars.drop count) else none
  else none

def expect? (c : Char) : List Char → Option (List Char)
  | d :: rest => if c = d then some rest else none
  | [] => none

def day? (chars : List Char) : Option (Day × List Char) := do
  let (year, rest) ← fixedDigits? 4 0 9999 chars
  let rest ← expect? '-' rest
  let (month, rest) ← fixedDigits? 2 1 12 rest
  let rest ← expect? '-' rest
  let (day, rest) ← fixedDigits? 2 1 (Day.daysIn year month) rest
  some (⟨year, month, day⟩, rest)

/-- Decimals of a second as nanoseconds; those after the ninth do not count. -/
def nanoseconds? (decimals : List Char) : Option Nat := do
  if decimals.isEmpty then none
  let counted := decimals.take 9
  let n ← decimalRun? counted
  some (n * Nat.pow 10 (9 - counted.length))

def clock? (chars : List Char) : Option (Clock × List Char) := do
  let (hour, rest) ← fixedDigits? 2 0 23 chars
  let rest ← expect? ':' rest
  let (minute, rest) ← fixedDigits? 2 0 59 rest
  let rest ← expect? ':' rest
  let (second, rest) ← fixedDigits? 2 0 60 rest
  match rest with
  | '.' :: rest =>
      let n ← nanoseconds? (rest.takeWhile Char.isDigit)
      some (⟨hour, minute, second, n⟩, rest.dropWhile Char.isDigit)
  | rest => some (⟨hour, minute, second, 0⟩, rest)

/-- Reads hours and minutes; `sign` says whether a clock is ahead of universal time or behind. -/
def minutesAhead? (sign : Int) (chars : List Char) : Option (Offset × List Char) := do
  let (hours, rest) ← fixedDigits? 2 0 23 chars
  let rest ← expect? ':' rest
  let (minutes, rest) ← fixedDigits? 2 0 59 rest
  some (.minutes (sign * (60 * hours + minutes : Nat)), rest)

def offset? (chars : List Char) : Option (Offset × List Char) :=
  match chars with
  | 'Z' :: rest => some (.universal, rest)
  | 'z' :: rest => some (.universal, rest)
  | '+' :: rest => minutesAhead? 1 rest
  | '-' :: rest => minutesAhead? (-1) rest
  | _ => none

def isTimeMark (c : Char) : Bool := c == 'T' || c == 't' || c == ' '

/-- Reads the time after a date, with its offset if there is one. -/
def clockAfter? : List Char → Option ((Clock × Option Offset) × List Char)
  | mark :: rest =>
      if isTimeMark mark then
        (clock? rest).map fun (c, rest) =>
          match offset? rest with
          | some (o, rest) => ((c, some o), rest)
          | none => ((c, none), rest)
      else none
  | [] => none

/-- Reads a date, a time, or both with an optional offset. -/
def moment? (chars : List Char) : Option (Moment × List Char) :=
  match day? chars with
  | some (d, rest) =>
      match clockAfter? rest with
      | some ((c, o), rest) => some (.both d c o, rest)
      | none => some (.day d, rest)
  | none => (clock? chars).map fun (c, rest) => (.clock c, rest)

/-- The field that stands for a date or time. -/
def momentField : String := "$__toml_private_datetime"

/-- A date or time is an object with its text. -/
def momentDocument (m : Moment) : Document := .object [(momentField, .string m.text)]

/-! ## Sections -/

/-- How a table came to be: by its header or as an inline table, by the header of a table inside
it, or by a dotted key. -/
inductive Origin where
  | explicit
  | implied
  | dotted
deriving DecidableEq, Repr

inductive Node where
  | value (d : Document)
  | table (origin : Origin) (fields : List (String × Node))
  /-- An array of tables, the last one first. -/
  | tables (items : List (List (String × Node)))

instance : Inhabited Node := ⟨.value .null⟩

abbrev Fields := List (String × Node)

mutual

def Node.document : Node → Document
  | .value d => d
  | .table _ fields => .object (documents fields)
  | .tables items => .array (sections items)

def documents : List (String × Node) → List (String × Document)
  | [] => []
  | (name, n) :: rest => (name, n.document) :: documents rest

def sections : List (List (String × Node)) → List Document
  | [] => []
  | fields :: rest => sections rest ++ [.object (documents fields)]

end

def lookup (key : String) (fields : Fields) : Option Node :=
  (fields.find? fun f => f.1 == key).map (·.2)

def replace (key : String) (n : Node) (fields : Fields) : Fields :=
  fields.map fun f => if f.1 = key then (key, n) else f

/-- Changes the table at the end of a path; of an array of tables that is the last one. Tables on
the way that do not exist are made. A dotted key does not reach into a table with a header. -/
def alter (dotted : Bool) (change : Origin → Fields → Option (Origin × Fields)) :
    List String → Origin → Fields → Option (Origin × Fields)
  | [], origin, fields => change origin fields
  | key :: path, origin, fields =>
      match lookup key fields with
      | none =>
          (alter dotted change path (if dotted then .dotted else .implied) []).map fun (o, inner) =>
            (origin, fields ++ [(key, .table o inner)])
      | some (.value _) => none
      | some (.table o inner) =>
          if dotted && o == .explicit then none
          else
            (alter dotted change path o inner).map fun (o, inner) =>
              (origin, replace key (.table o inner) fields)
      | some (.tables []) => none
      | some (.tables (last :: before)) =>
          (alter dotted change path .explicit last).map fun (_, last) =>
            (origin, replace key (.tables (last :: before)) fields)

/-- Puts a value under a dotted key of a table. All but the last part of the key name tables that
dotted keys have made. -/
def insert? (path : List String) (d : Document) (origin : Origin) (fields : Fields) :
    Option (Origin × Fields) :=
  match path.getLast? with
  | none => none
  | some key =>
      let put (o : Origin) (fields : Fields) : Option (Origin × Fields) :=
        if (o == .dotted) == (path.length == 1) then none
        else if (lookup key fields).isSome then none
        else some (o, fields ++ [(key, .value d)])
      alter true put path.dropLast origin fields

/-- Opens the table of a header. A table that only the headers inside it have made may still get a
header of its own. -/
def openTable? (path : List String) (fields : Fields) : Option Fields :=
  match path.getLast? with
  | none => none
  | some key =>
      let add (o : Origin) (fields : Fields) : Option (Origin × Fields) :=
        match lookup key fields with
        | none => some (o, fields ++ [(key, .table .explicit [])])
        | some (.table .implied inner) => some (o, replace key (.table .explicit inner) fields)
        | some _ => none
      (alter false add path.dropLast .explicit fields).map (·.2)

/-- Adds a table to the array of a header. -/
def openArrayTable? (path : List String) (fields : Fields) : Option Fields :=
  match path.getLast? with
  | none => none
  | some key =>
      let add (o : Origin) (fields : Fields) : Option (Origin × Fields) :=
        match lookup key fields with
        | none => some (o, fields ++ [(key, .tables [[]])])
        | some (.tables items) => some (o, replace key (.tables ([] :: items)) fields)
        | some _ => none
      (alter false add path.dropLast .explicit fields).map (·.2)

/-! ## Values -/

/-- Reads items up to a closing bracket; a comma may follow the last one. -/
def items (value : List Char → Option (Document × List Char)) (done : List Document) :
    Nat → List Char → Option (List Document × List Char)
  | 0, _ => none
  | fuel + 1, chars =>
      match skipLines false chars with
      | ']' :: rest => some (done.reverse, rest)
      | chars => do
          let (d, rest) ← value chars
          match skipLines false rest with
          | ',' :: rest => items value (d :: done) fuel rest
          | ']' :: rest => some ((d :: done).reverse, rest)
          | _ => none

/-- Reads a key, an equals sign and a value. -/
def entry? (value : List Char → Option (Document × List Char)) (chars : List Char) :
    Option ((List String × Document) × List Char) := do
  let (path, rest) ← key? chars
  let rest ← expect? '=' rest
  let (d, rest) ← value (skipBlanks rest)
  some ((path, d), rest)

/-- Reads the entries of an inline table up to its closing brace. -/
def entries (value : List Char → Option (Document × List Char)) (fields : Fields) :
    Nat → List Char → Option (Fields × List Char)
  | 0, _ => none
  | fuel + 1, chars => do
      let ((path, d), rest) ← entry? value chars
      let (_, fields) ← insert? path d .explicit fields
      match skipBlanks rest with
      | ',' :: rest => entries value fields fuel rest
      | '\x7d' :: rest => some (fields, rest)
      | _ => none

/-- Reads a value that holds no others. -/
def scalar? (chars : List Char) : Option (Document × List Char) :=
  match chars with
  | '"' :: _ => (string? chars).map fun (s, rest) => (.string s, rest)
  | '\'' :: _ => (string? chars).map fun (s, rest) => (.string s, rest)
  | 't' :: 'r' :: 'u' :: 'e' :: rest => some (.bool true, rest)
  | 'f' :: 'a' :: 'l' :: 's' :: 'e' :: rest => some (.bool false, rest)
  | _ => ((moment? chars).map fun (m, rest) => (momentDocument m, rest)).or (number? chars)

/-- Reads a value in which arrays and inline tables nest no deeper than a limit. -/
def value? : Nat → List Char → Option (Document × List Char)
  | 0, chars => scalar? chars
  | depth + 1, chars =>
      match chars with
      | '[' :: rest =>
          (items (value? depth) [] (rest.length + 1) rest).map fun (ds, rest) => (.array ds, rest)
      | '\x7b' :: rest =>
          match skipBlanks rest with
          | '\x7d' :: rest => some (.object [], rest)
          | rest =>
              (entries (value? depth) [] (rest.length + 1) rest).map fun (fields, rest) =>
                (.object (documents fields), rest)
      | _ => scalar? chars

/-! ## Lines -/

/-- What has been read of a text: its sections, and the table that entries belong to. -/
structure Draft where
  fields : Fields
  path : List String

/-- Puts an entry into the current table. -/
def Draft.add? (draft : Draft) (path : List String) (d : Document) : Option Draft :=
  (alter false (insert? path d) draft.path .explicit draft.fields).map fun (_, fields) =>
    { draft with fields := fields }

/-- Reads one line, or an entry that spans lines. -/
def line? (draft : Draft) (chars : List Char) : Option (Draft × List Char) :=
  match skipBlanks chars with
  | '[' :: '[' :: rest => do
      let (path, rest) ← key? rest
      let rest ← expect? ']' rest
      let rest ← expect? ']' rest
      let rest ← endLine? rest
      let fields ← openArrayTable? path draft.fields
      some (⟨fields, path⟩, rest)
  | '[' :: rest => do
      let (path, rest) ← key? rest
      let rest ← expect? ']' rest
      let rest ← endLine? rest
      let fields ← openTable? path draft.fields
      some (⟨fields, path⟩, rest)
  | chars =>
      match endLine? chars with
      | some rest => some (draft, rest)
      | none => do
          let ((path, d), rest) ← entry? (value? depthLimit) chars
          let rest ← endLine? rest
          let draft ← draft.add? path d
          some (draft, rest)

def lines (draft : Draft) : Nat → List Char → Option Draft
  | 0, _ => none
  | fuel + 1, chars =>
      if chars.isEmpty then some draft
      else (line? draft chars).bind fun (draft, rest) => lines draft fuel rest

/-- The document that a text holds; a byte order mark in front is skipped. -/
def parse? (text : String) : Option Document :=
  let chars :=
    match text.toList with
    | '\ufeff' :: rest => rest
    | chars => chars
  (lines ⟨[], []⟩ (chars.length + 1) chars).map fun draft => .object (documents draft.fields)

end Choreography.Toml
