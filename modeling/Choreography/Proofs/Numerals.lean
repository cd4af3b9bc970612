import Choreography.Json
import Mathlib

/-! # Numerals

A numeral is made of characters that go on with it, and the digits of a whole number of sixty-four
bits are the numeral of that number. -/
namespace Choreography.Json

theorem isBare_of_isDigit {c : Char} (h : c.isDigit = true) : isBare c = true := by
  simp [isBare, Char.isAlphanum, h]

theorem isBare_of_exponentPart {negative : Bool} {whole fraction chars : List Char} {n : Numeral}
    (h : exponentPart? negative whole fraction chars = some n) : ∀ c ∈ chars, isBare c = true := by
  unfold exponentPart? at h
  split at h
  · exact fun c hc => absurd hc List.not_mem_nil
  · split at h
    · rename_i mark rest hmark
      have hbare : isBare mark = true := by rcases hmark with rfl | rfl <;> decide
      refine List.forall_mem_cons.mpr ⟨hbare, ?_⟩
      split at h
      rename_i sign digits hsign
      have hdigits : ∀ c ∈ digits, isBare c = true := by
        intro c hc
        split at h
        · rename_i hall
          rw [Bool.and_eq_true, List.all_eq_true] at hall
          exact isBare_of_isDigit (hall.2 c hc)
        · cases h
      split at hsign <;> cases hsign
      · exact List.forall_mem_cons.mpr ⟨by decide, hdigits⟩
      · exact List.forall_mem_cons.mpr ⟨by decide, hdigits⟩
      · exact hdigits
    · cases h

/-- No character ends a numeral. -/
theorem isBare_of_numeral {chars : List Char} {n : Numeral} (h : numeral? chars = some n) :
    chars ≠ [] ∧ ∀ c ∈ chars, isBare c = true := by
  have hdigits : ∀ (cs : List Char), ∀ c ∈ cs.takeWhile Char.isDigit, isBare c = true :=
    fun cs c hc => isBare_of_isDigit (List.mem_takeWhile_imp hc)
  unfold numeral? at h
  split at h
  rename_i negative body hsign
  have hbody : body ≠ [] ∧ ∀ c ∈ body, isBare c = true := by
    dsimp only at h
    split at h
    · cases h
    · rename_i hne
      refine ⟨fun hnil => hne (by rw [hnil]; rfl), ?_⟩
      rw [← List.takeWhile_append_dropWhile (p := Char.isDigit) (l := body)]
      refine List.forall_mem_append.mpr ⟨hdigits body, ?_⟩
      split at h
      · rename_i rest hrest
        split at h
        · cases h
        · rw [hrest, ← List.takeWhile_append_dropWhile (p := Char.isDigit) (l := rest)]
          exact List.forall_mem_cons.mpr ⟨by decide, List.forall_mem_append.mpr
            ⟨hdigits rest, isBare_of_exponentPart h⟩⟩
      · exact isBare_of_exponentPart h
  split at hsign <;> cases hsign
  · exact ⟨List.cons_ne_nil _ _, List.forall_mem_cons.mpr ⟨by decide, hbody.2⟩⟩
  · exact hbody

theorem bareToken_of_numeral {chars : List Char} {n : Numeral} (h : numeral? chars = some n) :
    bareToken? chars = some (.scalar n.document) := by
  have hword : ∀ word : List Char, numeral? word = none → chars ≠ word := by
    rintro word hnone rfl
    rw [h] at hnone
    cases hnone
  unfold bareToken?
  rw [if_neg (hword _ rfl), if_neg (hword _ rfl), if_neg (hword _ rfl), h]
  rfl

theorem isBare_of_bareToken {chars : List Char} {t : Token} (h : bareToken? chars = some t) :
    chars ≠ [] ∧ ∀ c ∈ chars, isBare c = true := by
  have hword : ∀ word : List Char, chars = word → word ≠ [] → word.all isBare = true →
      chars ≠ [] ∧ ∀ c ∈ chars, isBare c = true := by
    rintro word rfl hne hall
    exact ⟨hne, List.all_eq_true.mp hall⟩
  unfold bareToken? at h
  split at h
  · exact hword _ ‹_› (List.cons_ne_nil _ _) rfl
  · split at h
    · exact hword _ ‹_› (List.cons_ne_nil _ _) rfl
    · split at h
      · exact hword _ ‹_› (List.cons_ne_nil _ _) rfl
      · obtain ⟨n, hn, -⟩ := Option.map_eq_some_iff.mp h
        exact isBare_of_numeral hn

theorem digitValue_digitChar {d : Nat} (h : d < 10) : digitValue d.digitChar = d := by
  interval_cases d <;> rfl

theorem digitChar_ne_zero {d : Nat} (h : d < 10) (hd : d ≠ 0) : d.digitChar ≠ '0' := by
  interval_cases d <;> first | exact absurd rfl hd | decide

/-- The digits of a number do not begin with a needless zero. -/
theorem head_toDigits {n : Nat} (hn : n ≠ 0) : (Nat.toDigits 10 n).head? ≠ some '0' := by
  induction n using Nat.strong_induction_on with
  | _ n ih =>
    rcases Nat.lt_or_ge n 10 with hlt | hge
    · rw [Nat.toDigits_of_lt_base hlt]
      intro hzero
      exact digitChar_ne_zero hlt hn (Option.some.inj hzero)
    · rw [Nat.toDigits_of_base_le (by decide) hge,
        List.head?_append_of_ne_nil _ Nat.toDigits_ne_nil]
      exact ih (n / 10) (by omega) (by omega)

theorem length_toDigits_of_head {n : Nat} (h : (Nat.toDigits 10 n).head? = some '0') :
    (Nat.toDigits 10 n).length = 1 := by
  by_cases hn : n = 0
  · rw [hn]
    rfl
  · exact absurd h (head_toDigits hn)

/-- The significand of the digits of a number that sixty-four bits hold is the number. -/
theorem significand_toDigits {n : Nat} (hn : n < Nat.pow 2 64) :
    ∃ taken, Significand.of 0 (Nat.toDigits 10 n) = ⟨n, 0, taken⟩ := by
  induction n using Nat.strong_induction_on with
  | _ n ih =>
    rcases Nat.lt_or_ge n 10 with hlt | hge
    · refine ⟨1, ?_⟩
      rw [Nat.toDigits_of_lt_base hlt]
      simp only [Significand.of, List.foldl_cons, List.foldl_nil, Significand.extend,
        digitValue_digitChar hlt, Nat.mul_zero, Nat.zero_add, hn, and_self, if_true]
    · obtain ⟨taken, htaken⟩ := ih (n / 10) (by omega) (by omega)
      have hlast : digitValue (n % 10).digitChar = n % 10 :=
        digitValue_digitChar (Nat.mod_lt n (by decide))
      have hvalue : 10 * (n / 10) + n % 10 = n := Nat.div_add_mod n 10
      refine ⟨taken + 1, ?_⟩
      rw [Nat.toDigits_of_base_le (by decide) hge]
      unfold Significand.of at htaken ⊢
      rw [List.foldl_append, htaken]
      simp only [List.foldl_cons, List.foldl_nil, Significand.extend, hlast, hvalue, hn, and_self,
        if_true]

/-- The digits of a number are the numeral of a whole number, with and without a sign. -/
theorem numeral_toDigits (n : Nat) :
    numeral? (Nat.toDigits 10 n) = some ⟨false, Nat.toDigits 10 n, [], none⟩ ∧
      numeral? ('-' :: Nat.toDigits 10 n) = some ⟨true, Nat.toDigits 10 n, [], none⟩ := by
  have hdigits : ∀ c ∈ Nat.toDigits 10 n, c.isDigit = true :=
    fun c hc => Nat.isDigit_of_mem_toDigits (by decide) (by decide) hc
  have hne : Nat.toDigits 10 n ≠ [] := Nat.toDigits_ne_nil
  have hzero := length_toDigits_of_head (n := n)
  generalize Nat.toDigits 10 n = digits at hdigits hne hzero
  have htake : digits.takeWhile Char.isDigit = digits := List.takeWhile_eq_self_iff.mpr hdigits
  have hdrop : digits.dropWhile Char.isDigit = [] := List.dropWhile_eq_nil_iff.mpr hdigits
  have hform : (digits.isEmpty || (digits.head? == some '0' && decide (1 < digits.length))) =
      false := by
    rw [Bool.or_eq_false_iff, Bool.and_eq_false_iff]
    refine ⟨by simpa using hne, ?_⟩
    by_cases hhead : digits.head? = some '0'
    · exact .inr (by simp [hzero hhead])
    · exact .inl (by simpa using hhead)
  refine ⟨?_, ?_⟩
  · cases digits with
    | nil => exact absurd rfl hne
    | cons c rest =>
      have hc : c ≠ '-' := by
        rintro rfl
        exact absurd (hdigits '-' List.mem_cons_self) (by decide)
      unfold numeral?
      split
      rename_i negative body hsign
      split at hsign
      · rename_i hminus
        cases hminus
        exact absurd rfl hc
      · cases hsign
        simp only [htake, hdrop, hform]
        rfl
  · simp only [numeral?, htake, hdrop, hform]
    rfl

/-- Whole numbers of sixty-four bits have a text that reads back. -/
theorem bareToken_natural {n : Nat} (hn : n < Nat.pow 2 64) :
    bareToken? (toString n).toList = some (.scalar (.natural n)) := by
  obtain ⟨taken, htaken⟩ := significand_toDigits hn
  have htext : (toString n).toList = Nat.toDigits 10 n := by simp [toString, Nat.repr]
  rw [htext, bareToken_of_numeral (numeral_toDigits n).1]
  simp [Numeral.document, htaken]

theorem bareToken_negative {k : Nat} (hk : k < Nat.pow 2 63) :
    bareToken? (toString (Int.negSucc k)).toList = some (.scalar (.integer (.negSucc k))) := by
  have hwide : k + 1 < Nat.pow 2 64 := Nat.lt_of_le_of_lt hk (by decide)
  obtain ⟨taken, htaken⟩ := significand_toDigits hwide
  have htext : (toString (Int.negSucc k)).toList = '-' :: Nat.toDigits 10 (k + 1) := by
    change (Int.repr (Int.negSucc k)).toList = _
    simp [Int.repr, Nat.repr]
  have hnarrow : 0 < k + 1 ∧ k + 1 ≤ Nat.pow 2 63 := ⟨Nat.succ_pos k, hk⟩
  rw [htext, bareToken_of_numeral (numeral_toDigits (k + 1)).2]
  simp only [Numeral.document, htaken, List.isEmpty_nil, Option.isNone_none, and_self, if_true,
    Bool.not_true, Bool.false_eq_true, if_false, if_pos hnarrow]
  rfl

end Choreography.Json
