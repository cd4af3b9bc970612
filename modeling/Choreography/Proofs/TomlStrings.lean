import Choreography.Toml
import Choreography.TomlText
import Mathlib

/-! # Strings in TOML text

Each of the four forms in which a string may be written is read back as the string. Inside of basic
strings a character is spelled in one of few ways; the other forms hold characters as they are,
which is why they are chosen only for strings that allow it. -/
namespace Choreography.Toml
variable {c : Char} {multiline : Bool} {spelling done rest chars : List Char} {fuel : Nat}

/-- How a character may be spelled inside of a basic string. -/
inductive Spelled (multiline : Bool) : Char → List Char → Prop
  | short {e c : Char} (h : shortEscape? e = some c) : Spelled multiline c ['\\', e]
  | code {a b d e c : Char} (h : codePoint? [a, b, d, e] = some c) :
      Spelled multiline c ['\\', 'u', a, b, d, e]
  | plain {c : Char} (hplain : isPlain c = true) (hquote : c ≠ '"') (hslash : c ≠ '\\') :
      Spelled multiline c [c]
  | newline (h : multiline = true) : Spelled multiline '\n' ['\n']

theorem codePoint_hexFour :
    ∀ n < 128, codePoint? (TomlText.hexFour n) = some (Char.ofNat n) := by
  decide +kernel

theorem newline_of_isPlain (h : isPlain c = true) : c ≠ '\n' ∧ c ≠ '\r' := by
  constructor <;> rintro rfl <;> exact absurd h (by decide)

theorem isPlain_of_not_needsEscape (h : TomlText.needsEscape c = false) (hc : c ≠ '\n') :
    isPlain c = true := by
  by_cases htab : c = '\t'
  · rw [htab]
    rfl
  · simp only [TomlText.needsEscape, Bool.or_eq_false_iff, Bool.and_eq_false_iff,
      decide_eq_false_iff_not, bne_eq_false_iff_eq, htab, hc, or_false, beq_eq_false_iff_ne] at h
    simp only [isPlain, Bool.or_eq_true, Bool.and_eq_true, decide_eq_true_eq]
    exact .inr ⟨by omega, h.2⟩

theorem spelled_escaped (multiline : Bool) (hc : c ≠ '"') :
    Spelled multiline c (TomlText.escaped multiline c) := by
  unfold TomlText.escaped
  split_ifs with hback htab hline hmultiline hfeed hreturn hslash hcode
  · exact hback ▸ .short rfl
  · exact htab ▸ .short rfl
  · exact hline ▸ .newline hmultiline
  · exact hline ▸ .short rfl
  · exact hfeed ▸ .short rfl
  · exact hreturn ▸ .short rfl
  · subst hslash
    exact .short rfl
  · refine .code ?_
    have hsmall : c.toNat < 128 := by
      simp only [TomlText.needsEscape, Bool.or_eq_true, Bool.and_eq_true, decide_eq_true_eq,
        beq_iff_eq] at hcode
      omega
    exact (codePoint_hexFour c.toNat hsmall).trans (congrArg some (Char.ofNat_toNat c))
  · exact .plain (isPlain_of_not_needsEscape (by simpa using hcode) hline) hc hslash

/-- No spelling begins with a quote, and only that of a line break may begin with one. -/
theorem Spelled.head (h : Spelled multiline c spelling) :
    ∃ first more, spelling = first :: more ∧ first ≠ '"' ∧ first ≠ '\r' ∧
      (first = '\n' → c = '\n') := by
  cases h with
  | short => exact ⟨_, _, rfl, by decide, by decide, fun h => absurd h (by decide)⟩
  | code => exact ⟨_, _, rfl, by decide, by decide, fun h => absurd h (by decide)⟩
  | plain hplain hquote =>
    exact ⟨_, _, rfl, hquote, (newline_of_isPlain hplain).2, id⟩
  | newline => exact ⟨_, _, rfl, by decide, by decide, fun _ => rfl⟩

theorem mem_of_shortEscape {e : Char} (h : shortEscape? e = some c) :
    e ∈ ['b', 't', 'n', 'f', 'r', '"', '\\'] := by
  unfold shortEscape? at h
  split_ifs at h <;> simp_all

theorem basicBody_spelled (h : Spelled false c spelling) (done rest : List Char) :
    basicBody done (spelling ++ rest) = basicBody (c :: done) rest := by
  cases h with
  | @short e c hshort =>
    have hmem := mem_of_shortEscape hshort
    change basicBody done ('\\' :: e :: rest) = _
    rw [basicBody.eq_4, hshort]
    · rintro _ _ _ _ _ rfl
      simp at hmem
    · rintro _ _ _ _ _ _ _ _ _ rfl
      simp at hmem
  | @code a b d e c hcode =>
    change basicBody done ('\\' :: 'u' :: a :: b :: d :: e :: rest) = _
    rw [basicBody.eq_2, hcode]
  | plain hplain hquote hslash =>
    change basicBody done (c :: rest) = _
    rw [basicBody.eq_5 _ _ _ (fun h => hquote h) (fun _ _ _ _ _ h => absurd h hslash)
      (fun _ _ _ _ _ _ _ _ _ h => absurd h hslash) (fun _ _ h => absurd h hslash),
      if_pos (by simp [hplain, hslash])]
  | newline h => cases h

/-- What is written as the inside of a basic string is read up to the closing quote. -/
theorem basicBody_written (quotes : Nat) (chars done rest : List Char) :
    basicBody done (TomlText.basicBody false quotes chars ++ '"' :: rest) =
      some (String.ofList (done.reverse ++ chars), rest) := by
  induction chars generalizing quotes done with
  | nil =>
    rw [TomlText.basicBody, List.append_nil]
    exact basicBody.eq_1 done rest
  | cons c chars ih =>
    have hnext : basicBody (c :: done) (TomlText.basicBody false 0 chars ++ '"' :: rest) =
        some (String.ofList (done.reverse ++ c :: chars), rest) := by
      rw [ih 0 (c :: done), List.reverse_cons, List.append_assoc, List.singleton_append]
    by_cases hc : c = '"'
    · subst hc
      rw [TomlText.basicBody, Bool.false_and, if_neg Bool.false_ne_true]
      exact (basicBody_spelled (.short (e := '"') rfl) done _).trans hnext
    · rw [TomlText.basicBody.eq_3 _ _ _ _ hc, List.append_assoc,
        basicBody_spelled (spelled_escaped false hc), hnext]

/-- A literal string holds its characters as they are, which may be any but breaks and quotes. -/
theorem literalBody_written (chars done rest : List Char)
    (hplain : ∀ c ∈ chars, isPlain c = true ∧ c ≠ '\'') :
    literalBody done (chars ++ '\'' :: rest) =
      some (String.ofList (done.reverse ++ chars), rest) := by
  induction chars generalizing done with
  | nil =>
    rw [List.nil_append, List.append_nil]
    rfl
  | cons c chars ih =>
    obtain ⟨hc, hquote⟩ := hplain c List.mem_cons_self
    rw [List.cons_append, literalBody.eq_2 _ _ _ hquote, if_pos hc,
      ih _ fun c hmem => hplain c (List.mem_cons_of_mem _ hmem), List.reverse_cons,
      List.append_assoc, List.singleton_append]

/-! ## Several lines -/

theorem multilineBasicBody_plain (hplain : isPlain c = true) (hslash : c ≠ '\\')
    (hquotes : ∀ more, c = '"' → rest ≠ '"' :: '"' :: more) :
    multilineBasicBody done (fuel + 1) (c :: rest) =
      multilineBasicBody (c :: done) fuel rest := by
  obtain ⟨hline, hreturn⟩ := newline_of_isPlain hplain
  rw [multilineBasicBody.eq_12 _ _ _ _ (fun _ hc => hquotes _ hc) (fun _ hc => hquotes _ hc)
    (fun _ hc => hquotes _ hc) (fun _ _ _ _ _ hc => absurd hc hslash)
    (fun _ _ _ _ _ _ _ _ _ hc => absurd hc hslash) hslash hline
    (fun _ hc => absurd hc hreturn), if_pos hplain]

theorem multilineBasicBody_spelled (h : Spelled true c spelling) (done rest : List Char)
    (fuel : Nat) :
    multilineBasicBody done (fuel + 1) (spelling ++ rest) =
      multilineBasicBody (c :: done) fuel rest := by
  cases h with
  | @short e c hshort =>
    have hmem := mem_of_shortEscape hshort
    change multilineBasicBody done (fuel + 1) ('\\' :: e :: rest) = _
    rw [multilineBasicBody.eq_8, hshort]
    · rintro _ _ _ _ _ ⟨⟩
      simp at hmem
    · rintro _ _ _ _ _ _ _ _ _ ⟨⟩
      simp at hmem
    · -- A letter after the backslash is neither a blank nor a line break.
      simp only [List.mem_cons, List.not_mem_nil, or_false] at hmem
      rcases hmem with rfl | rfl | rfl | rfl | rfl | rfl | rfl <;> rfl
  | @code a b d e c hcode =>
    change multilineBasicBody done (fuel + 1) ('\\' :: 'u' :: a :: b :: d :: e :: rest) = _
    rw [multilineBasicBody.eq_5, hcode]
  | plain hplain hquote hslash =>
    exact multilineBasicBody_plain hplain hslash fun _ hc => absurd hc hquote
  | newline h => rfl

/-- Up to two quotes before another character stand for themselves. -/
theorem multilineBasicBody_quotes {first : Char} {k : Nat} (hk : k ≤ 2) (hfirst : first ≠ '"')
    (done more : List Char) (fuel : Nat) :
    multilineBasicBody done (k + fuel) (List.replicate k '"' ++ first :: more) =
      multilineBasicBody (List.replicate k '"' ++ done) fuel (first :: more) := by
  obtain rfl | rfl | rfl : k = 0 ∨ k = 1 ∨ k = 2 := by omega
  · rw [Nat.zero_add, List.replicate_zero, List.nil_append, List.nil_append]
  · rw [Nat.add_comm 1 fuel]
    exact multilineBasicBody_plain rfl (by decide) fun _ _ h => hfirst (List.cons.inj h).1
  · rw [show 2 + fuel = fuel + 1 + 1 by omega]
    refine (multilineBasicBody_plain rfl (by decide) fun _ _ h => ?_).trans
      (multilineBasicBody_plain rfl (by decide) fun _ _ h => hfirst (List.cons.inj h).1)
    exact hfirst (List.cons.inj (List.cons.inj h).2).1

/-- Up to two quotes before the closing ones belong to the string. -/
theorem multilineBasicBody_close {k : Nat} (hk : k ≤ 2) (hrest : ∀ more, rest ≠ '"' :: more)
    (done : List Char) (fuel : Nat) :
    multilineBasicBody done (fuel + 1) (List.replicate k '"' ++ '"' :: '"' :: '"' :: rest) =
      some (String.ofList (done.reverse ++ List.replicate k '"'), rest) := by
  obtain rfl | rfl | rfl : k = 0 ∨ k = 1 ∨ k = 2 := by omega
  · refine (multilineBasicBody.eq_4 _ _ _ (fun _ => hrest _) hrest).trans ?_
    rw [List.replicate_zero, List.append_nil]
  · refine (multilineBasicBody.eq_3 _ _ _ hrest).trans ?_
    rw [List.reverse_cons]
    rfl
  · refine (multilineBasicBody.eq_2 _ _ _).trans ?_
    rw [List.reverse_cons, List.reverse_cons, List.append_assoc]
    rfl

theorem Spelled.length_pos (h : Spelled multiline c spelling) : 0 < spelling.length := by
  obtain ⟨_, _, rfl, -⟩ := h.head
  exact Nat.succ_pos _

/-- A spelled character after up to two quotes is read with them. -/
theorem multilineBasicBody_quotes_spelled {k : Nat} (hk : k ≤ 2) (h : Spelled true c spelling)
    (done rest : List Char) (fuel : Nat) :
    multilineBasicBody done (k + (fuel + 1)) (List.replicate k '"' ++ (spelling ++ rest)) =
      multilineBasicBody (c :: (List.replicate k '"' ++ done)) fuel rest := by
  obtain ⟨first, more, heq, hfirst, -⟩ := h.head
  have hread := multilineBasicBody_spelled h (List.replicate k '"' ++ done) rest fuel
  rw [heq, List.cons_append] at hread ⊢
  rw [multilineBasicBody_quotes hk hfirst, hread]

theorem multilineBasicBody_written (chars : List Char) {quotes : Nat} (hquotes : quotes ≤ 2)
    (done rest : List Char) (hrest : ∀ more, rest ≠ '"' :: more) (fuel : Nat)
    (hfuel : quotes + chars.length < fuel) :
    multilineBasicBody done fuel (List.replicate quotes '"' ++
        (TomlText.basicBody true quotes chars ++ '"' :: '"' :: '"' :: rest)) =
      some (String.ofList (done.reverse ++ (List.replicate quotes '"' ++ chars)), rest) := by
  induction chars generalizing quotes done fuel with
  | nil =>
    obtain ⟨fuel, rfl⟩ : ∃ k, fuel = k + 1 := ⟨fuel - 1, by simp at hfuel; omega⟩
    rw [TomlText.basicBody, List.nil_append, List.append_nil]
    exact multilineBasicBody_close hquotes hrest done fuel
  | cons c chars ih =>
    rw [List.length_cons] at hfuel
    -- A spelled character ends the run of quotes before it.
    have hspelled {spelling : List Char} (h : Spelled true c spelling) :
        multilineBasicBody done fuel (List.replicate quotes '"' ++ ((spelling ++
          TomlText.basicBody true 0 chars) ++ '"' :: '"' :: '"' :: rest)) =
        some (String.ofList (done.reverse ++ (List.replicate quotes '"' ++ c :: chars)), rest) := by
      obtain ⟨fuel, rfl⟩ : ∃ k, fuel = quotes + (k + 1) := ⟨fuel - quotes - 1, by omega⟩
      have hnext := ih (Nat.zero_le 2) (c :: (List.replicate quotes '"' ++ done)) fuel (by omega)
      rw [List.replicate_zero, List.nil_append, List.nil_append, List.reverse_cons,
        List.reverse_append, List.reverse_replicate] at hnext
      rw [List.append_assoc, multilineBasicBody_quotes_spelled hquotes h, hnext]
      simp only [List.append_assoc, List.singleton_append]
    by_cases hc : c = '"'
    · subst hc
      rw [TomlText.basicBody]
      by_cases hmore : quotes < 2
      · have hnext := ih (Nat.succ_le_of_lt hmore) done fuel (by omega)
        rw [List.replicate_succ', List.append_assoc, List.append_assoc] at hnext
        rw [if_pos (by simpa using hmore)]
        exact hnext
      · rw [if_neg (by simpa using hmore)]
        exact hspelled (.short (e := '"') rfl)
    · rw [TomlText.basicBody.eq_3 _ _ _ _ hc]
      exact hspelled (spelled_escaped true hc)

/-! ## Runs of quotes -/

theorem le_longestRun (c : Char) (chars : List Char) (current longest : Nat) :
    max current longest ≤ TomlText.longestRun c current longest chars := by
  induction chars generalizing current longest with
  | nil => exact le_rfl
  | cons d chars ih =>
    rw [TomlText.longestRun]
    split
    · exact le_trans (max_le_max (Nat.le_succ _) le_rfl) (ih _ _)
    · exact le_trans (Nat.le_max_right _ _) (ih _ _)

theorem not_mem_of_longestRun (h : TomlText.longestRun c 0 0 chars = 0) : c ∉ chars := by
  induction chars with
  | nil => exact List.not_mem_nil
  | cons d chars ih =>
    rw [TomlText.longestRun] at h
    split at h
    · have := le_longestRun c chars (0 + 1) 0
      omega
    · rename_i hd
      simp only [List.mem_cons, not_or]
      exact ⟨fun hc => hd hc.symm, ih h⟩

theorem multilineLiteralBody_plain (hplain : isPlain c = true ∨ c = '\n')
    (hquotes : ∀ more, c = '\'' → rest ≠ '\'' :: '\'' :: more) :
    multilineLiteralBody done (c :: rest) = multilineLiteralBody (c :: done) rest := by
  obtain hplain | rfl := hplain
  · obtain ⟨hline, hreturn⟩ := newline_of_isPlain hplain
    rw [multilineLiteralBody.eq_6 _ _ _ (fun _ hc => hquotes _ hc) (fun _ hc => hquotes _ hc)
      (fun _ hc => hquotes _ hc) hline (fun _ hc => absurd hc hreturn), if_pos hplain]
  · rfl

theorem multilineLiteralBody_quotes {first : Char} {k : Nat} (hk : k ≤ 2) (hfirst : first ≠ '\'')
    (done more : List Char) :
    multilineLiteralBody done (List.replicate k '\'' ++ first :: more) =
      multilineLiteralBody (List.replicate k '\'' ++ done) (first :: more) := by
  obtain rfl | rfl | rfl : k = 0 ∨ k = 1 ∨ k = 2 := by omega
  · rfl
  · exact multilineLiteralBody_plain (.inl rfl) fun _ _ h => hfirst (List.cons.inj h).1
  · refine (multilineLiteralBody_plain (.inl rfl) fun _ _ h => ?_).trans
      (multilineLiteralBody_plain (.inl rfl) fun _ _ h => hfirst (List.cons.inj h).1)
    exact hfirst (List.cons.inj (List.cons.inj h).2).1

theorem multilineLiteralBody_close {k : Nat} (hk : k ≤ 2) (hrest : ∀ more, rest ≠ '\'' :: more)
    (done : List Char) :
    multilineLiteralBody done (List.replicate k '\'' ++ '\'' :: '\'' :: '\'' :: rest) =
      some (String.ofList (done.reverse ++ List.replicate k '\''), rest) := by
  obtain rfl | rfl | rfl : k = 0 ∨ k = 1 ∨ k = 2 := by omega
  · refine (multilineLiteralBody.eq_3 _ _ (fun _ => hrest _) hrest).trans ?_
    rw [List.replicate_zero, List.append_nil]
  · refine (multilineLiteralBody.eq_2 _ _ hrest).trans ?_
    rw [List.reverse_cons]
    rfl
  · refine (multilineLiteralBody.eq_1 _ _).trans ?_
    rw [List.reverse_cons, List.reverse_cons, List.append_assoc]
    rfl

/-- A literal string of several lines may hold quotes, of which no more than two are in a row. -/
theorem multilineLiteralBody_written (chars : List Char) {quotes longest : Nat}
    (hruns : TomlText.longestRun '\'' quotes longest chars ≤ 2)
    (hplain : ∀ c ∈ chars, isPlain c = true ∨ c = '\n') (done rest : List Char)
    (hrest : ∀ more, rest ≠ '\'' :: more) :
    multilineLiteralBody done
        (List.replicate quotes '\'' ++ (chars ++ '\'' :: '\'' :: '\'' :: rest)) =
      some (String.ofList (done.reverse ++ (List.replicate quotes '\'' ++ chars)), rest) := by
  have hquotes : quotes ≤ 2 :=
    le_trans (le_trans (Nat.le_max_left _ _) (le_longestRun _ _ _ _)) hruns
  induction chars generalizing quotes longest done with
  | nil =>
    rw [List.nil_append, List.append_nil]
    exact multilineLiteralBody_close hquotes hrest done
  | cons c chars ih =>
    have hc := hplain c List.mem_cons_self
    have hchars : ∀ c ∈ chars, isPlain c = true ∨ c = '\n' :=
      fun c hmem => hplain c (List.mem_cons_of_mem _ hmem)
    rw [TomlText.longestRun] at hruns
    split at hruns
    · rename_i hquote
      subst hquote
      have hnext := ih hruns hchars done
        (le_trans (le_trans (Nat.le_max_left _ _) (le_longestRun _ _ _ _)) hruns)
      rw [List.replicate_succ', List.append_assoc, List.append_assoc] at hnext
      exact hnext
    · rename_i hquote
      have hnext := ih hruns hchars (c :: (List.replicate quotes '\'' ++ done)) (Nat.zero_le 2)
      rw [List.replicate_zero, List.nil_append, List.nil_append, List.reverse_cons,
        List.reverse_append, List.reverse_replicate] at hnext
      rw [List.cons_append, multilineLiteralBody_quotes hquotes hquote,
        multilineLiteralBody_plain hc fun _ h => absurd h hquote, hnext]
      simp only [List.append_assoc, List.singleton_append]

/-! ## Whole strings -/

theorem string?_basic (chars rest : List Char) (hrest : ∀ more, rest ≠ '"' :: more) :
    string? ('"' :: (TomlText.basicBody false 0 chars ++ '"' :: rest)) =
      some (String.ofList chars, rest) := by
  rw [string?.eq_3]
  · exact basicBody_written 0 chars [] rest
  · intro more heq
    cases chars with
    | nil => exact hrest _ (List.cons.inj heq).2
    | cons c chars =>
      by_cases hc : c = '"'
      · rw [hc, TomlText.basicBody, Bool.false_and, if_neg Bool.false_ne_true] at heq
        cases heq
      · obtain ⟨first, tail, hspelled, hfirst, -⟩ := (spelled_escaped false hc).head
        rw [TomlText.basicBody.eq_3 _ _ _ _ hc, hspelled] at heq
        exact hfirst (List.cons.inj heq).1

theorem string?_literal (chars rest : List Char) (hrest : ∀ more, rest ≠ '\'' :: more)
    (hplain : ∀ c ∈ chars, isPlain c = true ∧ c ≠ '\'') :
    string? ('\'' :: (chars ++ '\'' :: rest)) = some (String.ofList chars, rest) := by
  rw [string?.eq_4]
  · exact literalBody_written chars [] rest hplain
  · intro more heq
    cases chars with
    | nil => exact hrest _ (List.cons.inj heq).2
    | cons c chars => exact (hplain c List.mem_cons_self).2 (List.cons.inj heq).1

theorem length_le_basicBody (chars : List Char) (multiline : Bool) (quotes : Nat) :
    chars.length ≤ (TomlText.basicBody multiline quotes chars).length := by
  induction chars generalizing quotes with
  | nil => exact Nat.zero_le _
  | cons c chars ih =>
    by_cases hc : c = '"'
    · rw [hc, TomlText.basicBody]
      split
      · exact Nat.succ_le_succ (ih _)
      · exact le_trans (Nat.succ_le_succ (ih 0)) (Nat.le_succ _)
    · have hpos := (spelled_escaped multiline hc).length_pos
      have hchars := ih 0
      rw [TomlText.basicBody.eq_3 _ _ _ _ hc, List.length_append, List.length_cons]
      omega

/-- A line break is put right after the opening quotes where the string holds one; otherwise the
string does not begin with what would be taken for one. -/
theorem skipFirstNewline_enclosed {newline : Bool} {tail : List Char}
    (h : newline = false → ∃ first more, tail = first :: more ∧ first ≠ '\n' ∧ first ≠ '\r') :
    skipFirstNewline ((if newline then ['\n'] else []) ++ tail) = tail := by
  cases newline with
  | true => rfl
  | false =>
    obtain ⟨first, more, rfl, hline, hreturn⟩ := h rfl
    rw [if_neg Bool.false_ne_true, List.nil_append, skipFirstNewline,
      newline?.eq_3 _ (fun _ h => hline (List.cons.inj h).1)
        (fun _ h => hreturn (List.cons.inj h).1), Option.getD_none]

theorem string?_multilineBasic (chars rest : List Char) (hrest : ∀ more, rest ≠ '"' :: more) :
    string? ('"' :: '"' :: '"' :: ((if chars.contains '\n' then ['\n'] else []) ++
        (TomlText.basicBody true 0 chars ++ '"' :: '"' :: '"' :: rest))) =
      some (String.ofList chars, rest) := by
  rw [string?.eq_1, skipFirstNewline_enclosed]
  · refine multilineBasicBody_written chars (Nat.zero_le 2) [] rest hrest _ ?_
    have hlength := length_le_basicBody chars true 0
    rw [List.length_append]
    omega
  · intro hnewline
    have hlines : '\n' ∉ chars := by simpa using hnewline
    cases chars with
    | nil => exact ⟨_, _, rfl, by decide, by decide⟩
    | cons c chars =>
      by_cases hc : c = '"'
      · subst hc
        exact ⟨_, _, rfl, by decide, by decide⟩
      · obtain ⟨first, tail, hspelled, -, hreturn, hline⟩ := (spelled_escaped true hc).head
        rw [TomlText.basicBody.eq_3 _ _ _ _ hc, hspelled]
        exact ⟨_, _, rfl, fun h => hlines (hline h ▸ List.mem_cons_self), hreturn⟩

theorem string?_multilineLiteral (chars rest : List Char) (hrest : ∀ more, rest ≠ '\'' :: more)
    (hruns : TomlText.longestRun '\'' 0 0 chars ≤ 2)
    (hplain : ∀ c ∈ chars, isPlain c = true ∨ c = '\n') :
    string? ('\'' :: '\'' :: '\'' :: ((if chars.contains '\n' then ['\n'] else []) ++
        (chars ++ '\'' :: '\'' :: '\'' :: rest))) =
      some (String.ofList chars, rest) := by
  rw [string?.eq_2, skipFirstNewline_enclosed]
  · exact multilineLiteralBody_written chars hruns hplain [] rest hrest
  · intro hnewline
    have hlines : '\n' ∉ chars := by simpa using hnewline
    cases chars with
    | nil => exact ⟨_, _, rfl, by decide, by decide⟩
    | cons c chars =>
      have hc : c ≠ '\n' := fun h => hlines (h ▸ List.mem_cons_self)
      have hreturn := (newline_of_isPlain ((hplain c List.mem_cons_self).resolve_right hc)).2
      exact ⟨_, _, rfl, hc, hreturn⟩

theorem plain_or_newline (h : chars.any TomlText.needsEscape = false) :
    ∀ c ∈ chars, isPlain c = true ∨ c = '\n' := fun c hmem =>
  or_iff_not_imp_right.mpr
    (isPlain_of_not_needsEscape (Bool.eq_false_iff.mpr (List.any_eq_false.mp h c hmem)))

/-- The literal form is chosen for strings that need no escapes in it. -/
theorem plain_of_form_literal (h : TomlText.form chars = .literal) :
    ∀ c ∈ chars, isPlain c = true ∧ c ≠ '\'' := by
  simp only [TomlText.form] at h
  split_ifs at h with _ hliteral
  simp only [Bool.and_eq_true, Bool.not_eq_true', beq_iff_eq, List.contains_eq_mem,
    decide_eq_false_iff_not] at hliteral
  obtain ⟨⟨hcodes, hruns⟩, hlines⟩ := hliteral
  intro c hmem
  refine ⟨(plain_or_newline hcodes c hmem).resolve_right ?_, ?_⟩
  · rintro rfl
    exact hlines hmem
  · rintro rfl
    exact not_mem_of_longestRun hruns hmem

theorem plain_of_form_multilineLiteral (h : TomlText.form chars = .multilineLiteral) :
    TomlText.longestRun '\'' 0 0 chars ≤ 2 ∧ ∀ c ∈ chars, isPlain c = true ∨ c = '\n' := by
  simp only [TomlText.form] at h
  split_ifs at h with _ _ _ hliteral
  simp only [Bool.and_eq_true, Bool.not_eq_true', decide_eq_true_eq] at hliteral
  exact ⟨hliteral.2, plain_or_newline hliteral.1⟩

/-- A written string is read back, whatever characters it holds and in whichever form it is
written. -/
theorem string?_written (s : String) (rest : List Char) (hdouble : ∀ more, rest ≠ '"' :: more)
    (hsingle : ∀ more, rest ≠ '\'' :: more) :
    string? ((TomlText.string s).toList ++ rest) = some (s, rest) := by
  unfold TomlText.string
  cases hform : TomlText.form s.toList with
  | basic => simpa [TomlText.enclosed, hform] using string?_basic s.toList rest hdouble
  | literal =>
    simpa [TomlText.enclosed, hform] using
      string?_literal s.toList rest hsingle (plain_of_form_literal hform)
  | multilineBasic =>
    simpa [TomlText.enclosed, hform] using string?_multilineBasic s.toList rest hdouble
  | multilineLiteral =>
    obtain ⟨hruns, hplain⟩ := plain_of_form_multilineLiteral hform
    simpa [TomlText.enclosed, hform] using
      string?_multilineLiteral s.toList rest hsingle hruns hplain

end Choreography.Toml
