import Choreography.Proofs.Numerals
import Choreography.Proofs.TomlStrings
import Mathlib

/-! # Tables of sections in TOML text

A document of two levels is written with a header for each section and a line for each field, and
the lines are read back one after another. The reader adds each to the end of what it has read, so
that the fields keep their order; a whole number without a sign comes back as a signed one. -/
namespace Choreography.Toml

/-! ## Whole numbers -/

theorem hexDigit?_digit {c : Char} (h : c.isDigit = true) :
    hexDigit? c = some (c.toNat - '0'.toNat) ∧ c.toNat - '0'.toNat < 10 := by
  refine ⟨if_pos h, ?_⟩
  have hrange := Char.isDigit_iff_toNat.mp h
  simp only [Char.reduceToNat] at hrange ⊢
  omega

theorem ne_underscore_of_isDigit {c : Char} (h : c.isDigit = true) : c ≠ '_' := by
  rintro rfl
  exact absurd h (by decide)

theorem digitsFrom_digits {digits : List Char} (h : ∀ c ∈ digits, c.isDigit = true) (n : Nat) :
    digitsFrom (digitBelow? 10) 10 n true digits = some (Nat.ofDigitChars 10 digits n) := by
  induction digits generalizing n with
  | nil => rfl
  | cons c digits ih =>
    obtain ⟨hvalue, hbound⟩ := hexDigit?_digit (h c List.mem_cons_self)
    have hc : c ≠ '_' := ne_underscore_of_isDigit (h c List.mem_cons_self)
    rw [digitsFrom.eq_3 _ _ _ _ _ _ hc, digitBelow?, hvalue,
      Option.filter_some, if_pos (by simpa using hbound), Nat.ofDigitChars_cons]
    exact ih (fun c hmem => h c (List.mem_cons_of_mem _ hmem)) _

theorem isDigit_toDigits {n : Nat} {c : Char} (hc : c ∈ Nat.toDigits 10 n) : c.isDigit = true :=
  Nat.isDigit_of_mem_toDigits (by decide) (by decide) hc

theorem decimalRun?_toDigits (n : Nat) : decimalRun? (Nat.toDigits 10 n) = some n := by
  have hdigits : ∀ c ∈ Nat.toDigits 10 n, c.isDigit = true := fun _ => isDigit_toDigits
  have hread := digitsFrom_digits hdigits 0
  rw [Nat.ofDigitChars_ten_toDigits] at hread
  cases hcase : Nat.toDigits 10 n with
  | nil => exact absurd hcase Nat.toDigits_ne_nil
  | cons c digits =>
    rw [hcase] at hread hdigits
    have hc : c ≠ '_' := ne_underscore_of_isDigit (hdigits c List.mem_cons_self)
    rw [digitsFrom.eq_3 _ _ _ _ _ _ hc] at hread
    rw [decimalRun?, digitRun?, digitsFrom.eq_3 _ _ _ _ _ _ hc, hread]

theorem wholeRun?_toDigits (n : Nat) : wholeRun? (Nat.toDigits 10 n) = some n := by
  by_cases hn : n = 0
  · rw [hn]
    rfl
  · have hhead := Json.head_toDigits hn
    rw [wholeRun?.eq_3]
    · exact decimalRun?_toDigits n
    · intro h
      rw [h] at hhead
      exact hhead rfl
    · intro more h
      rw [h] at hhead
      exact hhead rfl

/-- The characters of a whole number: digits, after a minus sign if it is negative. -/
theorem toList_toString_int (i : Int) :
    (toString i).toList =
      if i < 0 then '-' :: Nat.toDigits 10 i.natAbs else Nat.toDigits 10 i.natAbs := by
  cases i with
  | ofNat n =>
    rw [if_neg (by simp)]
    simp [toString, Int.repr, Nat.repr]
  | negSucc k =>
    rw [if_pos (Int.negSucc_lt_zero k)]
    change (Int.repr (Int.negSucc k)).toList = _
    simp [Int.repr, Nat.repr]

theorem integerOf?_toDigits {n : Nat} (h : isSigned 64 n = true) :
    integerOf? (Nat.toDigits 10 n) = some (n : Int) := by
  have hwhole := wholeRun?_toDigits n
  have hdigits : ∀ c ∈ Nat.toDigits 10 n, c.isDigit = true := fun _ => isDigit_toDigits
  have hzero := Json.length_toDigits_of_head (n := n)
  generalize Nat.toDigits 10 n = digits at hwhole hdigits hzero
  have hsign : sign digits = (false, digits) := by
    unfold sign
    split
    · exact absurd (hdigits '-' List.mem_cons_self) (by decide)
    · exact absurd (hdigits '+' List.mem_cons_self) (by decide)
    · rfl
  unfold integerOf?
  split
  · exact absurd (hzero rfl) (by simp)
  · exact absurd (hzero rfl) (by simp)
  · exact absurd (hzero rfl) (by simp)
  · simp [hsign, hwhole, signed, h]

theorem integerOf?_minus {n : Nat} (h : isSigned 64 (-n) = true) :
    integerOf? ('-' :: Nat.toDigits 10 n) = some (-n : Int) := by
  simp [integerOf?, sign, wholeRun?_toDigits, signed, h]

/-- A word ends before the first character that it cannot hold. -/
theorem span_word {p : Char → Bool} {word : List Char} {c : Char}
    (hword : ∀ c ∈ word, p c = true) (hc : p c = false) (rest : List Char) :
    (word ++ c :: rest).takeWhile p = word ∧ (word ++ c :: rest).dropWhile p = c :: rest := by
  constructor
  · rw [List.takeWhile_append_of_pos hword, List.takeWhile_cons_of_neg (by simp [hc]),
      List.append_nil]
  · rw [List.dropWhile_append_of_pos hword, List.dropWhile_cons_of_neg (by simp [hc])]

/-- Numbers are the words before a character that no number holds. -/
theorem number?_word {word : List Char} {i : Int} (hword : ∀ c ∈ word, isNumberChar c = true)
    (h : integerOf? word = some i) (rest : List Char) :
    number? (word ++ '\n' :: rest) = some (.integer i, '\n' :: rest) := by
  obtain ⟨htake, hdrop⟩ := span_word (c := '\n') hword (by decide) rest
  simp [number?, htake, hdrop, h]

/-- Digits taken from the digits of a line leave digits or the end of the line. -/
theorem expect?_of_fixedDigits {digits rest more : List Char} {count least greatest n : Nat}
    (hdigits : ∀ c ∈ digits, c.isDigit = true)
    (h : fixedDigits? count least greatest (digits ++ '\n' :: rest) = some (n, more))
    (mark : Char) (hmark : mark.isDigit = false) (hline : mark ≠ '\n') :
    expect? mark more = none := by
  simp only [fixedDigits?, Bool.and_eq_true, decide_eq_true_eq, List.all_eq_true] at h
  split_ifs at h with htaken
  obtain ⟨-, hall⟩ := htaken
  obtain ⟨k, -, hk⟩ := Option.bind_eq_some_iff.mp h
  split_ifs at hk
  obtain rfl : (digits ++ '\n' :: rest).drop count = more := (Prod.mk.inj (Option.some.inj hk)).2
  have hcount : count ≤ digits.length := by
    by_contra hover
    refine absurd (hall '\n' ?_) (by decide)
    rw [List.take_append, List.mem_append]
    obtain ⟨j, hj⟩ : ∃ j, count - digits.length = j + 1 := ⟨count - digits.length - 1, by omega⟩
    exact .inr (hj ▸ List.mem_cons_self)
  rw [List.drop_append_of_le_length hcount]
  cases hleft : digits.drop count with
  | nil => exact if_neg hline
  | cons c left =>
    have hc := hdigits c (List.mem_of_mem_drop (hleft ▸ List.mem_cons_self))
    exact if_neg fun heq => by rw [heq, hc] at hmark; cases hmark

/-- A whole number does not begin like a date or a time. -/
theorem moment?_digits {digits : List Char} (hdigits : ∀ c ∈ digits, c.isDigit = true)
    (rest : List Char) : moment? (digits ++ '\n' :: rest) = none := by
  have hday : day? (digits ++ '\n' :: rest) = none := by
    unfold day?
    cases hyear : fixedDigits? 4 0 9999 (digits ++ '\n' :: rest) with
    | none => rfl
    | some taken =>
      simp [expect?_of_fixedDigits hdigits hyear '-' (by decide) (by decide)]
  have hclock : clock? (digits ++ '\n' :: rest) = none := by
    unfold clock?
    cases hhour : fixedDigits? 2 0 23 (digits ++ '\n' :: rest) with
    | none => rfl
    | some taken =>
      simp [expect?_of_fixedDigits hdigits hhour ':' (by decide) (by decide)]
  rw [moment?, hday, hclock]
  rfl

theorem moment?_of_not_digit {c : Char} (h : c.isDigit = false) (rest : List Char) :
    moment? (c :: rest) = none := by
  have hdigits (count least greatest : Nat) :
      fixedDigits? (count + 1) least greatest (c :: rest) = none := by
    rw [fixedDigits?, List.take_succ_cons]
    exact if_neg (by simp [h])
  rw [moment?, day?, clock?, hdigits, hdigits]
  rfl

/-! ## Scalars -/

def IsScalar : Document → Prop
  | .bool _ => True
  | .natural n => n < Nat.pow 2 63
  | .integer i => isSigned 64 i = true
  | .string _ => True
  | _ => False

/-- How a scalar is read: whole numbers are signed. -/
def asRead : Document → Document
  | .natural n => .integer n
  | d => d

theorem scalar?_number {word : List Char} {i : Int} (hne : word ≠ [])
    (hword : ∀ c ∈ word, isNumberChar c = true ∧ c ≠ 't' ∧ c ≠ 'f')
    (hinteger : integerOf? word = some i) (rest : List Char)
    (hmoment : moment? (word ++ '\n' :: rest) = none) :
    scalar? (word ++ '\n' :: rest) = some (.integer i, '\n' :: rest) := by
  have hnumber := number?_word (fun c hc => (hword c hc).1) hinteger rest
  cases word with
  | nil => exact absurd rfl hne
  | cons c word =>
    obtain ⟨hc, htrue, hfalse⟩ := hword c List.mem_cons_self
    rw [List.cons_append] at hmoment hnumber ⊢
    rw [scalar?.eq_5, hmoment, hnumber]
    · rfl
    · rintro _ ⟨⟩
      exact absurd hc (by decide)
    · rintro _ ⟨⟩
      exact absurd hc (by decide)
    · exact fun _ h => htrue (List.cons.inj h).1
    · exact fun _ h => hfalse (List.cons.inj h).1

theorem scalar?_integer {i : Int} (h : isSigned 64 i = true) (rest : List Char) :
    scalar? ((toString i).toList ++ '\n' :: rest) = some (.integer i, '\n' :: rest) := by
  have hdigits : ∀ c ∈ Nat.toDigits 10 i.natAbs, isNumberChar c = true ∧ c ≠ 't' ∧ c ≠ 'f' := by
    intro c hc
    have hdigit := isDigit_toDigits hc
    refine ⟨by simp [isNumberChar, Char.isAlphanum, hdigit], ?_, ?_⟩ <;> rintro rfl <;>
      exact absurd hdigit (by decide)
  rw [toList_toString_int]
  split_ifs with hneg
  · have habs : (-(i.natAbs : Int)) = i := by omega
    refine scalar?_number (List.cons_ne_nil _ _) ?_ ?_ rest (moment?_of_not_digit rfl _)
    · intro c hc
      obtain rfl | hc := List.mem_cons.mp hc
      · decide
      · exact hdigits c hc
    · rw [integerOf?_minus (habs.symm ▸ h), habs]
  · have habs : (i.natAbs : Int) = i := by omega
    refine scalar?_number Nat.toDigits_ne_nil hdigits ?_ rest
      (moment?_digits (fun _ => isDigit_toDigits) rest)
    rw [integerOf?_toDigits (habs.symm ▸ h), habs]

theorem scalar?_string (s : String) (rest : List Char) :
    scalar? ((TomlText.string s).toList ++ '\n' :: rest) = some (.string s, '\n' :: rest) := by
  have hread := string?_written s ('\n' :: rest) (fun _ h => absurd (List.cons.inj h).1 (by decide))
    fun _ h => absurd (List.cons.inj h).1 (by decide)
  obtain ⟨more, hquote | hquote⟩ : ∃ more,
      (TomlText.string s).toList = '"' :: more ∨ (TomlText.string s).toList = '\'' :: more := by
    unfold TomlText.string
    cases hform : TomlText.form s.toList <;> simp [hform, TomlText.enclosed]
  · rw [hquote, List.cons_append] at hread ⊢
    rw [scalar?.eq_1, hread]
    rfl
  · rw [hquote, List.cons_append] at hread ⊢
    rw [scalar?.eq_2, hread]
    rfl

/-- The text of a scalar is read back up to the end of its line. -/
theorem scalar?_written {d : Document} (h : IsScalar d) :
    ∃ text, TomlText.scalar? d = some text ∧
      ∀ rest, scalar? (text.toList ++ '\n' :: rest) = some (asRead d, '\n' :: rest) := by
  cases d with
  | bool b => cases b <;> exact ⟨_, rfl, fun rest => rfl⟩
  | natural n =>
    refine ⟨_, if_pos h, scalar?_integer (i := n) ?_⟩
    have hbound : n < 2 ^ 63 := h
    simp [isSigned, signedRange]
    omega
  | integer i => exact ⟨_, rfl, scalar?_integer h⟩
  | string s => exact ⟨_, rfl, scalar?_string s⟩
  | _ => exact absurd h id

/-! ## Lines -/

def IsBareName (name : String) : Prop := name ≠ "" ∧ ∀ c ∈ name.toList, isBareKey c = true

instance (name : String) : Decidable (IsBareName name) :=
  inferInstanceAs (Decidable (_ ∧ _))

theorem skipBlanks_cons {c : Char} (h : isBlank c = false) (rest : List Char) :
    skipBlanks (c :: rest) = c :: rest :=
  List.dropWhile_cons_of_neg (by simp [h])

theorem isBlank_of_isBareKey {c : Char} (h : isBareKey c = true) : isBlank c = false := by
  by_contra hblank
  simp only [isBlank, Bool.not_eq_false, Bool.or_eq_true, beq_iff_eq] at hblank
  obtain rfl | rfl := hblank <;> exact absurd h (by decide)

theorem IsBareName.head {name : String} (h : IsBareName name) :
    ∃ first letters, name.toList = first :: letters ∧ isBareKey first = true := by
  obtain ⟨hne, hbare⟩ := h
  cases hchars : name.toList with
  | nil => exact absurd (by simpa using hchars) hne
  | cons first letters => exact ⟨first, letters, rfl, hbare first (hchars ▸ List.mem_cons_self)⟩

/-- A bare key ends before the first character that it cannot hold. -/
theorem key?_bare {name : String} (h : IsBareName name) {mark : Char} {tail rest : List Char}
    (htail : skipBlanks tail = mark :: rest) (hpoint : mark ≠ '.')
    (hend : ∃ c more, tail = c :: more ∧ isBareKey c = false) :
    key? (name.toList ++ tail) = some ([name], mark :: rest) := by
  obtain ⟨first, letters, hchars, hfirst⟩ := h.head
  obtain ⟨hne, hbare⟩ := h
  obtain ⟨c, more, rfl, hc⟩ := hend
  obtain ⟨htake, hdrop⟩ := span_word hbare hc more
  rw [hchars] at htake hdrop ⊢
  have hsimple : simpleKey? (first :: letters ++ c :: more) = some (name, c :: more) := by
    rw [simpleKey?.eq_3, htake, hdrop, ← hchars, String.ofList_toList]
    · rw [if_neg (by simpa using hne)]
    · exact fun _ h => absurd hfirst ((List.cons.inj h).1 ▸ by decide)
    · exact fun _ h => absurd hfirst ((List.cons.inj h).1 ▸ by decide)
  rw [key?, depthLimit, keyParts.eq_2, List.cons_append,
    skipBlanks_cons (isBlank_of_isBareKey hfirst), ← List.cons_append, hsimple]
  simp only [Option.bind_eq_bind, Option.bind_some, htail]
  split
  · rename_i heq
    exact absurd (List.cons.inj heq).1 hpoint
  · rfl

theorem endLine?_newline (rest : List Char) : endLine? ('\n' :: rest) = some rest := rfl

theorem line?_blank (draft : Draft) (rest : List Char) :
    line? draft ('\n' :: rest) = some (draft, rest) := rfl

theorem line?_header (draft : Draft) {name : String} (h : IsBareName name) (rest : List Char) :
    line? draft ('[' :: (name.toList ++ ']' :: '\n' :: rest)) =
      (openTable? [name] draft.fields).map fun fields => (⟨fields, [name]⟩, rest) := by
  have hkey : key? (name.toList ++ ']' :: '\n' :: rest) = some ([name], ']' :: '\n' :: rest) :=
    key?_bare h rfl (by decide) ⟨_, _, rfl, by decide⟩
  obtain ⟨first, letters, hchars, hfirst⟩ := h.head
  rw [hchars] at hkey ⊢
  unfold line?
  rw [skipBlanks_cons (by decide)]
  split
  · rename_i heq
    exact absurd hfirst ((List.cons.inj (List.cons.inj heq).2).1 ▸ by decide)
  · rename_i heq
    rw [← (List.cons.inj heq).2, hkey]
    cases hopen : openTable? [name] draft.fields <;>
      simp [expect?, endLine?_newline, hopen]
  · rename_i hno
    exact absurd rfl (hno _)

theorem scalar?_of_not_number {c : Char} (hdouble : c ≠ '"') (hsingle : c ≠ '\'')
    (hc : isNumberChar c = false) (chars : List Char) : scalar? (c :: chars) = none := by
  have hdigit : c.isDigit = false := by
    simp only [isNumberChar, Char.isAlphanum, Bool.or_eq_false_iff] at hc
    exact hc.1.1.1.1.2
  have hnumber : number? (c :: chars) = none := by
    rw [number?, List.takeWhile_cons_of_neg (by simp [hc])]
    rfl
  rw [scalar?.eq_5, moment?_of_not_digit hdigit, hnumber]
  · rfl
  · exact fun _ h => hdouble (List.cons.inj h).1
  · exact fun _ h => hsingle (List.cons.inj h).1
  · rintro _ ⟨⟩
    exact absurd hc (by decide)
  · rintro _ ⟨⟩
    exact absurd hc (by decide)

/-- The text of a scalar begins neither with a blank nor like a value that holds others. -/
theorem value?_of_scalar? {chars rest : List Char} {d : Document}
    (h : scalar? chars = some (d, rest)) (depth : Nat) :
    value? depth chars = some (d, rest) ∧ skipBlanks chars = chars := by
  cases chars with
  | nil => cases h
  | cons c chars =>
    have hno : ∀ other ∈ ['[', '\x7b', ' ', '\t'], c ≠ other := by
      intro other hmem hc
      simp only [List.mem_cons, List.not_mem_nil, or_false] at hmem
      have hnone : scalar? (c :: chars) = none := by
        obtain rfl | rfl | rfl | rfl := hmem <;>
          exact hc ▸ scalar?_of_not_number (by decide) (by decide) (by decide) chars
      rw [hnone] at h
      cases h
    refine ⟨?_, skipBlanks_cons ?_ _⟩
    · cases depth with
      | zero => exact h
      | succ depth =>
        rw [value?.eq_4, h]
        · exact fun _ h => hno '[' (by decide) (List.cons.inj h).1
        · exact fun _ h => hno '\x7b' (by decide) (List.cons.inj h).1
    · simp [isBlank, hno ' ' (by decide), hno '\t' (by decide)]

theorem line?_entry (draft : Draft) {name : String} (h : IsBareName name) {value rest : List Char}
    {d : Document} (hvalue : scalar? (value ++ '\n' :: rest) = some (d, '\n' :: rest)) :
    line? draft (name.toList ++ ' ' :: '=' :: ' ' :: (value ++ '\n' :: rest)) =
      (draft.add? [name] d).map fun draft => (draft, rest) := by
  obtain ⟨hread, hskip⟩ := value?_of_scalar? hvalue depthLimit
  have hkey : key? (name.toList ++ ' ' :: '=' :: ' ' :: (value ++ '\n' :: rest)) =
      some ([name], '=' :: ' ' :: (value ++ '\n' :: rest)) :=
    key?_bare h rfl (by decide) ⟨_, _, rfl, by decide⟩
  have hentry : entry? (value? depthLimit)
      (name.toList ++ ' ' :: '=' :: ' ' :: (value ++ '\n' :: rest)) =
        some (([name], d), '\n' :: rest) := by
    have hblank : skipBlanks (' ' :: (value ++ '\n' :: rest)) = value ++ '\n' :: rest := hskip
    simp [ entry?, hkey, expect?, hblank, hread]
  obtain ⟨first, letters, hchars, hfirst⟩ := h.head
  rw [hchars] at hentry ⊢
  have hno : ∀ other, isBareKey other = false → first ≠ other := by
    rintro other hother rfl
    rw [hfirst] at hother
    cases hother
  have hend (tail : List Char) : endLine? (first :: tail) = none := by
    unfold endLine?
    rw [skipBlanks_cons (isBlank_of_isBareKey hfirst)]
    split
    · rename_i heq
      exact absurd (List.cons.inj heq).1 (hno _ (by decide))
    · exact newline?.eq_3 _ (fun _ h => hno _ (by decide) (List.cons.inj h).1)
        fun _ h => hno _ (by decide) (List.cons.inj h).1
  unfold line?
  rw [List.cons_append, skipBlanks_cons (isBlank_of_isBareKey hfirst)]
  split
  · rename_i heq
    exact absurd (List.cons.inj heq).1 (hno _ (by decide))
  · rename_i heq
    exact absurd (List.cons.inj heq).1 (hno _ (by decide))
  · rw [hend, ← List.cons_append, hentry]
    cases hadd : draft.add? [name] d <;> simp [endLine?_newline, hadd]

/-! ## Sections -/

theorem lookup_append_self {key : String} {fields : Fields} (h : key ∉ fields.map Prod.fst)
    (n : Node) (more : Fields) : lookup key (fields ++ (key, n) :: more) = some n := by
  have hnone : fields.find? (fun f => f.1 == key) = none := by
    rw [List.find?_eq_none]
    intro f hf hkey
    exact h (List.mem_map.mpr ⟨f, hf, by simpa using hkey⟩)
  simp [lookup, List.find?_append, hnone]

theorem lookup_eq_none {key : String} {fields : Fields} (h : key ∉ fields.map Prod.fst) :
    lookup key fields = none := by
  rw [lookup, Option.map_eq_none_iff, List.find?_eq_none]
  intro f hf hkey
  exact h (List.mem_map.mpr ⟨f, hf, by simpa using hkey⟩)

theorem replace_append_self {key : String} {fields : Fields} (h : key ∉ fields.map Prod.fst)
    (n n' : Node) : replace key n' (fields ++ [(key, n)]) = fields ++ [(key, n')] := by
  have hsame : fields.map (fun f => if f.1 = key then (key, n') else f) = fields := by
    refine (List.map_congr_left fun f hf => ?_).trans (List.map_id _)
    exact if_neg fun hkey => h (List.mem_map.mpr ⟨f, hf, hkey⟩)
  rw [replace, List.map_append, hsame]
  simp

theorem openTable?_new {name : String} {fields : Fields} (h : name ∉ fields.map Prod.fst) :
    openTable? [name] fields = some (fields ++ [(name, .table .explicit [])]) := by
  simp [openTable?, alter, lookup_eq_none h]

def openDraft (before : Fields) (name : String) (fields : Fields) : Draft :=
  ⟨before ++ [(name, .table .explicit fields)], [name]⟩

theorem add?_openDraft {before : Fields} {title name : String} {fields : Fields}
    (htitle : title ∉ before.map Prod.fst) (hname : name ∉ fields.map Prod.fst)
    (d : Document) :
    (openDraft before title fields).add? [name] d =
      some (openDraft before title (fields ++ [(name, .value d)])) := by
  simp [Draft.add?, openDraft, alter, insert?, lookup_append_self htitle,
    lookup_eq_none hname, replace_append_self htitle]

/-- What is left of a text is read to its end, whatever is spent on it. -/
def Completes (draft : Draft) (chars : List Char) (result : Draft) : Prop :=
  ∀ fuel, chars.length < fuel → lines draft fuel chars = some result

theorem completes_nil (draft : Draft) : Completes draft [] draft := by
  intro fuel hfuel
  cases fuel with
  | zero => cases hfuel
  | succ fuel => rfl

/-- One line is read, and then what follows it. -/
theorem Completes.line {draft next result : Draft} {chars rest : List Char}
    (hline : line? draft chars = some (next, rest)) (hshort : rest.length < chars.length)
    (h : Completes next rest result) : Completes draft chars result := by
  intro fuel hfuel
  cases fuel with
  | zero => cases hfuel
  | succ fuel =>
    have hne : chars.isEmpty = false := by
      cases chars with
      | nil => cases hshort
      | cons => rfl
    rw [lines.eq_2, hne, if_neg Bool.false_ne_true, hline]
    exact h fuel (by omega)

def readFields (fields : List (String × Document)) : Fields :=
  fields.map fun f => (f.1, .value (asRead f.2))

/-- The entries of a section are added to it, one after another. -/
theorem completes_entries {before : Fields} {title : String}
    (htitle : title ∉ before.map Prod.fst) {fields : List (String × Document)} (done : Fields)
    (hbare : ∀ f ∈ fields, IsBareName f.1 ∧ IsScalar f.2)
    (hnodup : (done.map Prod.fst ++ fields.map Prod.fst).Nodup) :
    ∃ text, TomlText.entries? fields = some text ∧ ∀ {rest : List Char} {result : Draft},
      Completes (openDraft before title (done ++ readFields fields)) rest result →
        Completes (openDraft before title done) (text.toList ++ rest) result := by
  induction fields generalizing done with
  | nil => exact ⟨"", rfl, fun h => by simpa [readFields] using h⟩
  | cons f fields ih =>
    obtain ⟨name, d⟩ := f
    obtain ⟨hname, hd⟩ := hbare (name, d) List.mem_cons_self
    have hnew : name ∉ done.map Prod.fst := fun hmem =>
      (List.nodup_append.mp hnodup).2.2 name hmem name List.mem_cons_self rfl
    obtain ⟨value, hvalue, hread⟩ := scalar?_written hd
    obtain ⟨text, htext, hrest⟩ := ih (done ++ [(name, .value (asRead d))])
      (fun f hf => hbare f (List.mem_cons_of_mem _ hf)) (by simpa using hnodup)
    refine ⟨name ++ " = " ++ value ++ "\n" ++ text, by simp [TomlText.entries?, hvalue, htext], ?_⟩
    intro rest result h
    have hnext : Completes (openDraft before title (done ++ [(name, .value (asRead d))]))
        (text.toList ++ rest) result := hrest (by simpa [readFields] using h)
    have hline := line?_entry (openDraft before title done) hname (hread (text.toList ++ rest))
    rw [add?_openDraft htitle hnew, Option.map_some] at hline
    have hchars : (name ++ " = " ++ value ++ "\n" ++ text).toList ++ rest =
        name.toList ++ ' ' :: '=' :: ' ' :: (value.toList ++ '\n' :: (text.toList ++ rest)) := by
      simp
    rw [hchars]
    exact .line hline (by simp; omega) hnext

structure AreSections (sections : List (String × List (String × Document))) : Prop where
  names : (sections.map Prod.fst).Nodup
  bare : ∀ s ∈ sections, IsBareName s.1
  fieldNames : ∀ s ∈ sections, (s.2.map Prod.fst).Nodup
  fields : ∀ s ∈ sections, ∀ f ∈ s.2, IsBareName f.1 ∧ IsScalar f.2

theorem AreSections.tail {s : String × List (String × Document)}
    {sections : List (String × List (String × Document))} (h : AreSections (s :: sections)) :
    AreSections sections where
  names := (List.nodup_cons.mp h.names).2
  bare t ht := h.bare t (List.mem_cons_of_mem _ ht)
  fieldNames t ht := h.fieldNames t (List.mem_cons_of_mem _ ht)
  fields t ht := h.fields t (List.mem_cons_of_mem _ ht)

def table (sections : List (String × List (String × Document))) : Document :=
  .object (sections.map fun s => (s.1, .object s.2))

def readSections (sections : List (String × List (String × Document))) : Fields :=
  sections.map fun s => (s.1, .table .explicit (readFields s.2))

theorem completes_sections {sections : List (String × List (String × Document))} (draft : Draft)
    (h : AreSections sections)
    (hnodup : (draft.fields.map Prod.fst ++ sections.map Prod.fst).Nodup) :
    ∃ texts, TomlText.sections? (sections.map fun s => (s.1, .object s.2)) = some texts ∧
      ∃ path, Completes draft ("\n".intercalate texts).toList
        ⟨draft.fields ++ readSections sections, path⟩ := by
  induction sections generalizing draft with
  | nil =>
    refine ⟨[], rfl, draft.path, ?_⟩
    simpa [readSections] using completes_nil draft
  | cons s sections ih =>
    obtain ⟨name, fields⟩ := s
    have hmem : (name, fields) ∈ (name, fields) :: sections := List.mem_cons_self
    have hnew : name ∉ draft.fields.map Prod.fst := fun hmem =>
      (List.nodup_append.mp hnodup).2.2 name hmem name List.mem_cons_self rfl
    obtain ⟨body, hbody, hentries⟩ := completes_entries hnew [] (h.fields _ hmem)
      (by simpa using h.fieldNames _ hmem)
    rw [List.nil_append] at hentries
    obtain ⟨texts, htexts, path, hrest⟩ :=
      ih (openDraft draft.fields name (readFields fields)) h.tail
        (by simpa [openDraft] using hnodup)
    have hresult : (openDraft draft.fields name (readFields fields)).fields ++
        readSections sections = draft.fields ++ readSections ((name, fields) :: sections) := by
      simp [openDraft, readSections]
    rw [hresult] at hrest
    refine ⟨("[" ++ name ++ "]\n" ++ body) :: texts, by simp [TomlText.sections?, hbody, htexts],
      path, ?_⟩
    -- A blank line stands before the next section, if there is one.
    obtain ⟨tail, hchars, htail⟩ : ∃ tail : List Char,
        ("\n".intercalate (("[" ++ name ++ "]\n" ++ body) :: texts)).toList =
          '[' :: (name.toList ++ ']' :: '\n' :: (body.toList ++ tail)) ∧
        Completes (openDraft draft.fields name (readFields fields)) tail
          ⟨draft.fields ++ readSections ((name, fields) :: sections), path⟩ := by
      cases texts with
      | nil => exact ⟨[], by simp, hrest⟩
      | cons text texts =>
        refine ⟨'\n' :: ("\n".intercalate (text :: texts)).toList, ?_,
          .line (line?_blank _ _) (Nat.lt_succ_self _) hrest⟩
        simp [String.intercalate_cons_cons]
    rw [hchars]
    have hheader := line?_header draft (h.bare _ hmem) (body.toList ++ tail)
    rw [openTable?_new hnew, Option.map_some] at hheader
    exact .line hheader (by simp; omega) (hentries htail)

def readSection (fields : List (String × Document)) : Document :=
  .object (fields.map fun f => (f.1, asRead f.2))

theorem documents_readFields (fields : List (String × Document)) :
    documents (readFields fields) = fields.map fun f => (f.1, asRead f.2) := by
  induction fields with
  | nil => rfl
  | cons f fields ih =>
    change (f.1, asRead f.2) :: documents (readFields fields) = _
    rw [ih, List.map_cons]

theorem documents_readSections (sections : List (String × List (String × Document))) :
    documents (readSections sections) = sections.map fun s => (s.1, readSection s.2) := by
  induction sections with
  | nil => rfl
  | cons s sections ih =>
    change (s.1, .object (documents (readFields s.2))) :: documents (readSections sections) = _
    rw [ih, documents_readFields, List.map_cons]
    rfl

/-- A text that is not empty begins with a header. -/
theorem head_of_sections? {sections : List (String × List (String × Document))}
    {texts : List String}
    (h : TomlText.sections? (sections.map fun s => (s.1, .object s.2)) = some texts) :
    ∀ c ∈ ("\n".intercalate texts).toList.head?, c = '[' := by
  cases sections with
  | nil =>
    obtain rfl : [] = texts := Option.some.inj h
    simp
  | cons s sections =>
    obtain ⟨body, -, h⟩ := Option.bind_eq_some_iff.mp h
    obtain ⟨others, -, h⟩ := Option.bind_eq_some_iff.mp h
    obtain rfl : ("[" ++ s.1 ++ "]\n" ++ body) :: others = texts := Option.some.inj h
    cases others <;> simp [String.intercalate_cons_cons]

/-- A table of sections has a text, from which the same sections and fields are read. -/
theorem parse?_render {sections : List (String × List (String × Document))}
    (h : AreSections sections) :
    ∃ text, TomlText.render? (table sections) = some text ∧
      parse? text = some (.object (sections.map fun s => (s.1, readSection s.2))) := by
  obtain ⟨texts, htexts, path, hread⟩ := completes_sections ⟨[], []⟩ h
    (by simpa using h.names)
  refine ⟨"\n".intercalate texts, by rw [table, TomlText.render?, htexts, Option.map_some], ?_⟩
  have hlines := hread _ (Nat.lt_succ_self _)
  have hhead := head_of_sections? htexts
  unfold parse?
  split
  · rename_i hmark
    exact absurd (hhead '\ufeff' (by rw [hmark]; rfl)) (by decide)
  · simp only [hlines, Option.map_some, List.nil_append, documents_readSections]

/-! ## Scalars without a text -/

theorem entries?_eq_none {fields : List (String × Document)} {f : String × Document}
    (hmem : f ∈ fields) (h : TomlText.scalar? f.2 = none) : TomlText.entries? fields = none := by
  induction fields with
  | nil => cases hmem
  | cons other fields ih =>
    obtain rfl | hmem := List.mem_cons.mp hmem
    · simp [TomlText.entries?, h]
    · simp [TomlText.entries?, ih hmem]

/-- One scalar without a text leaves the whole table without one. -/
theorem render?_eq_none {sections : List (String × List (String × Document))}
    {s : String × List (String × Document)} {f : String × Document} (hs : s ∈ sections)
    (hf : f ∈ s.2) (h : TomlText.scalar? f.2 = none) :
    TomlText.render? (table sections) = none := by
  have hsections : TomlText.sections? (sections.map fun s => (s.1, .object s.2)) = none := by
    induction sections with
    | nil => cases hs
    | cons other sections ih =>
      obtain rfl | hs := List.mem_cons.mp hs
      · simp [TomlText.sections?, entries?_eq_none hf h]
      · simp [TomlText.sections?, ih hs]
  rw [table, TomlText.render?, hsections, Option.map_none]

end Choreography.Toml
