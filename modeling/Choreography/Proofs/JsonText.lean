import Choreography.Proofs.Numerals

/-! # Reading what was written

The text of a document reads back as the document: the scanner finds the tokens that were written,
each up to the character that ends it, and the reader puts them together again, as long as
containers do not nest too deep. -/
namespace Choreography

/-- A document whose scalars have texts that read back. -/
inductive Document.Writable : Document → Prop
  | string (s : String) : Writable (.string s)
  | scalar {d : Document} (htokens : Json.tokens d = [.scalar d])
      (h : Json.bareToken? (Json.scalarText d).toList = some (.scalar d)) : Writable d
  | array {items : List Document} (h : ∀ d ∈ items, Writable d) : Writable (.array items)
  | object {fields : List (String × Document)} (h : ∀ field ∈ fields, Writable field.2) :
      Writable (.object fields)

namespace Json

/-! ### Scanning -/

namespace Scanner

def run (s : Scanner) (chars : List Char) : Option (List Token) :=
  (chars.foldlM step s).bind finish?

theorem foldlM_cons {s s' : Scanner} {c : Char} (h : s.step c = some s') (chars : List Char) :
    (c :: chars).foldlM step s = chars.foldlM step s' := by
  rw [List.foldlM_cons, h]
  rfl

theorem run_cons {s s' : Scanner} {c : Char} (h : s.step c = some s') (chars : List Char) :
    s.run (c :: chars) = s'.run chars := by
  rw [run, foldlM_cons h]
  rfl

theorem run_append {s s' : Scanner} {first : List Char} (h : first.foldlM step s = some s')
    (chars : List Char) : s.run (first ++ chars) = s'.run chars := by
  rw [run, List.foldlM_append, h]
  rfl

def Delimited (chars : List Char) : Prop := ∀ c ∈ chars.head?, isBare c = false

theorem ne_of_isBare {c other : Char} (h : isBare c = true) (hother : isBare other = false) :
    c ≠ other := by
  rintro rfl
  rw [h] at hother
  cases hother

theorem between_of_isBare {c : Char} (h : isBare c = true) (tokens : List Token) :
    between tokens c = some ⟨tokens, .bare [c]⟩ := by
  have hspace : isSpace c = false := by
    simp only [isSpace, Bool.or_eq_false_iff, beq_eq_false_iff_ne]
    exact ⟨⟨⟨ne_of_isBare h (by decide), ne_of_isBare h (by decide)⟩,
      ne_of_isBare h (by decide)⟩, ne_of_isBare h (by decide)⟩
  unfold between
  rw [hspace, if_neg Bool.false_ne_true, if_neg (ne_of_isBare h (by decide)),
    if_neg (ne_of_isBare h (by decide)), if_neg (ne_of_isBare h (by decide)),
    if_neg (ne_of_isBare h (by decide)), if_neg (ne_of_isBare h (by decide)),
    if_neg (ne_of_isBare h (by decide)), if_neg (ne_of_isBare h (by decide)), if_pos h]

theorem foldlM_bare {chars : List Char} (h : ∀ c ∈ chars, isBare c = true) (tokens : List Token)
    (before : List Char) :
    chars.foldlM step ⟨tokens, .bare before⟩ =
      some ⟨tokens, .bare (chars.reverse ++ before)⟩ := by
  induction chars generalizing before with
  | nil => rfl
  | cons c rest ih =>
    obtain ⟨hc, hrest⟩ := List.forall_mem_cons.mp h
    have hstep : step ⟨tokens, .bare before⟩ c = some ⟨tokens, .bare (c :: before)⟩ := if_pos hc
    rw [foldlM_cons hstep, ih hrest, List.reverse_cons, List.append_assoc]
    rfl

/-- A number or a word is a token as soon as the text does not go on with it. -/
theorem run_bare {chars : List Char} {t : Token} (h : bareToken? chars = some t)
    (tokens : List Token) {rest : List Char} (hrest : Delimited rest) :
    run ⟨tokens, .between⟩ (chars ++ rest) = run ⟨t :: tokens, .between⟩ rest := by
  obtain ⟨hne, hbare⟩ := isBare_of_bareToken h
  have hread : run ⟨tokens, .between⟩ (chars ++ rest) =
      run ⟨tokens, .bare chars.reverse⟩ rest := by
    cases chars with
    | nil => exact absurd rfl hne
    | cons c more =>
      obtain ⟨hc, hmore⟩ := List.forall_mem_cons.mp hbare
      have hfirst : step ⟨tokens, .between⟩ c = some ⟨tokens, .bare [c]⟩ :=
        between_of_isBare hc tokens
      rw [List.cons_append, run_cons hfirst, run_append (foldlM_bare hmore tokens [c]),
        List.reverse_cons]
  rw [hread]
  cases rest with
  | nil =>
    change (bareToken? chars.reverse.reverse).map _ = _
    rw [List.reverse_reverse, h]
    rfl
  | cons c more =>
    have hc : isBare c = false := hrest c rfl
    have hstep : step ⟨tokens, .bare chars.reverse⟩ c = step ⟨t :: tokens, .between⟩ c := by
      simp only [step, hc, Bool.false_eq_true, if_false, List.reverse_reverse, h,
        Option.bind_some]
    unfold run
    rw [List.foldlM_cons, List.foldlM_cons, hstep]

theorem hexDigit_digitChar {d : Nat} (h : d < 16) : hexDigit? d.digitChar = some d := by
  interval_cases d <;> rfl

theorem step_code (tokens : List Token) (s : Spelling) (unit missing : Nat) {d : Nat}
    (hd : d < 16) :
    step ⟨tokens, .code s unit (missing + 2)⟩ d.digitChar =
        some ⟨tokens, .code s (16 * unit + d) (missing + 1)⟩ ∧
      step ⟨tokens, .code s unit 1⟩ d.digitChar =
        some ⟨tokens, .string (s.pushUnit (16 * unit + d))⟩ := by
  simp only [step, hexDigit_digitChar hd]
  exact ⟨rfl, rfl⟩

/-- Four digits stand for a code unit. -/
theorem foldlM_code (tokens : List Token) (s : Spelling) {unit : Nat} (h : unit < 0x10000) :
    (hexDigits 4 unit).foldlM step ⟨tokens, .code s 0 4⟩ =
      some ⟨tokens, .string (s.pushUnit unit)⟩ := by
  have hdigits : hexDigits 4 unit = [(unit / 16 / 16 / 16 % 16).digitChar,
      (unit / 16 / 16 % 16).digitChar, (unit / 16 % 16).digitChar, (unit % 16).digitChar] := rfl
  have hmod : ∀ n : Nat, n % 16 < 16 := fun n => Nat.mod_lt n (by decide)
  have hunit : 16 * (16 * (16 * (16 * 0 + unit / 16 / 16 / 16 % 16) + unit / 16 / 16 % 16) +
      unit / 16 % 16) + unit % 16 = unit := by omega
  rw [hdigits, foldlM_cons (step_code tokens s _ 2 (hmod _)).1,
    foldlM_cons (step_code tokens s _ 1 (hmod _)).1,
    foldlM_cons (step_code tokens s _ 0 (hmod _)).1,
    foldlM_cons (step_code tokens s _ 0 (hmod _)).2, hunit]
  rfl

/-- What stands for a character inside a string is read as the character. -/
theorem foldlM_escaped (tokens : List Token) (before : List Char) (c : Char) :
    (escaped c).foldlM step ⟨tokens, .string ⟨before, none, false⟩⟩ =
      some ⟨tokens, .string ⟨c :: before, none, false⟩⟩ := by
  unfold escaped
  split_ifs with hquote hslash hback hfeed hline hreturn htab hcontrol
  · rw [hquote]; rfl
  · rw [hslash]; rfl
  · rw [hback]; rfl
  · rw [hfeed]; rfl
  · rw [hline]; rfl
  · rw [hreturn]; rfl
  · rw [htab]; rfl
  · have hunit : c.toNat < 0x10000 := Nat.lt_trans hcontrol (by decide)
    have hlow : ¬ (0xd800 ≤ c.toNat ∧ c.toNat < 0xdc00) := by omega
    have hhigh : ¬ (0xdc00 ≤ c.toNat ∧ c.toNat < 0xe000) := by omega
    have hstart : step ⟨tokens, .string ⟨before, none, false⟩⟩ '\\' =
        some ⟨tokens, .escape ⟨before, none, false⟩⟩ := rfl
    have hmark : step ⟨tokens, .escape ⟨before, none, false⟩⟩ 'u' =
        some ⟨tokens, .code ⟨before, none, false⟩ 0 4⟩ := rfl
    rw [foldlM_cons hstart, foldlM_cons hmark, foldlM_code _ _ hunit]
    simp only [Spelling.pushUnit, if_neg hlow, if_neg hhigh, Spelling.push, Char.ofNat_toNat]
    rfl
  · have hstep : step ⟨tokens, .string ⟨before, none, false⟩⟩ c =
        some ⟨tokens, .string ⟨c :: before, none, false⟩⟩ := by
      simp only [step, if_neg hquote, if_neg hslash, if_neg hcontrol]
      rfl
    rw [foldlM_cons hstep]
    rfl

theorem foldlM_string (tokens : List Token) (chars before : List Char) :
    (chars.flatMap escaped).foldlM step ⟨tokens, .string ⟨before, none, false⟩⟩ =
      some ⟨tokens, .string ⟨chars.reverse ++ before, none, false⟩⟩ := by
  induction chars generalizing before with
  | nil => rfl
  | cons c rest ih =>
    rw [List.flatMap_cons, List.foldlM_append, foldlM_escaped, Option.bind_eq_bind,
      Option.bind_some, ih, List.reverse_cons, List.append_assoc]
    rfl

/-- A string is a token as soon as it is closed. -/
theorem run_text (s : String) (tokens : List Token) (rest : List Char) :
    run ⟨tokens, .between⟩ ((Token.text (some s)).spelled.toList ++ rest) =
      run ⟨.text (some s) :: tokens, .between⟩ rest := by
  have hspelled : (Token.text (some s)).spelled.toList ++ rest =
      '"' :: (s.toList.flatMap escaped ++ '"' :: rest) := by
    simp [Token.spelled]
  have hopen : step ⟨tokens, .between⟩ '"' = some ⟨tokens, .string ⟨[], none, false⟩⟩ := rfl
  have hclose : ∀ spelling, step ⟨tokens, .string spelling⟩ '"' =
      some ⟨spelling.token :: tokens, .between⟩ := fun _ => rfl
  have htoken : (⟨s.toList.reverse ++ [], none, false⟩ : Spelling).token = .text (some s) := by
    simp [Spelling.token]
  rw [hspelled, run_cons hopen, run_append (foldlM_string tokens s.toList []),
    run_cons (hclose _), htoken]

/-! ### The tokens of a document -/

def spell (tokens : List Token) : List Char := tokens.flatMap fun t => t.spelled.toList

def Found (written : List Token) : Prop :=
  ∀ (tokens : List Token) (rest : List Char), Delimited rest →
    run ⟨tokens, .between⟩ (spell written ++ rest) =
      run ⟨written.reverse ++ tokens, .between⟩ rest

def isMark : Token → Bool
  | .scalar _ => false
  | .text _ => false
  | _ => true

theorem spelled_mark {t : Token} (h : isMark t = true) :
    ∃ c, t.spelled.toList = [c] ∧ isBare c = false ∧
      ∀ tokens, step ⟨tokens, .between⟩ c = some ⟨t :: tokens, .between⟩ := by
  cases t with
  | openArray => exact ⟨'[', rfl, rfl, fun _ => rfl⟩
  | closeArray => exact ⟨']', rfl, rfl, fun _ => rfl⟩
  | openObject => exact ⟨'\x7b', rfl, rfl, fun _ => rfl⟩
  | closeObject => exact ⟨'\x7d', rfl, rfl, fun _ => rfl⟩
  | comma => exact ⟨',', rfl, rfl, fun _ => rfl⟩
  | colon => exact ⟨':', rfl, rfl, fun _ => rfl⟩
  | scalar d => cases h
  | text s => cases h

namespace Found

theorem nil : Found [] := fun _ _ _ => rfl

theorem mark {t : Token} {written : List Token} (ht : isMark t = true) (h : Found written) :
    Found (t :: written) := by
  intro tokens rest hrest
  obtain ⟨c, hspelled, -, hstep⟩ := spelled_mark ht
  have hchars : spell (t :: written) ++ rest = c :: (spell written ++ rest) := by
    simp [spell, hspelled]
  rw [hchars, run_cons (hstep tokens), h (t :: tokens) rest hrest, List.reverse_cons,
    List.append_assoc]
  rfl

theorem text (s : String) {written : List Token} (h : Found written) :
    Found (.text (some s) :: written) := by
  intro tokens rest hrest
  have hchars : spell (.text (some s) :: written) ++ rest =
      (Token.text (some s)).spelled.toList ++ (spell written ++ rest) := by simp [spell]
  rw [hchars, run_text, h (.text (some s) :: tokens) rest hrest, List.reverse_cons,
    List.append_assoc]
  rfl

theorem scalar {d : Document} (h : bareToken? (scalarText d).toList = some (.scalar d)) :
    Found [.scalar d] := by
  intro tokens rest hrest
  have hchars : spell [.scalar d] ++ rest = (scalarText d).toList ++ rest := by
    simp [spell, Token.spelled]
  rw [hchars, run_bare h tokens hrest]
  rfl

/-- Tokens with one between them that is a single character. -/
theorem append {first written : List Token} {t : Token} (hfirst : Found first)
    (ht : isMark t = true) (h : Found written) : Found (first ++ t :: written) := by
  intro tokens rest hrest
  obtain ⟨c, hspelled, hbare, -⟩ := spelled_mark ht
  have hchars : spell (first ++ t :: written) ++ rest =
      spell first ++ (spell (t :: written) ++ rest) := by simp [spell]
  have hdelimited : Delimited (spell (t :: written) ++ rest) := by
    intro c' hc'
    simp only [spell, List.flatMap_cons, hspelled, List.cons_append, List.head?_cons,
      Option.mem_some_iff] at hc'
    rw [← hc']
    exact hbare
  rw [hchars, hfirst tokens _ hdelimited, mark ht h _ rest hrest, List.reverse_append,
    List.append_assoc]

theorem items {items : List Document} (h : ∀ d ∈ items, Found (Json.tokens d)) :
    Found (itemTokens items) := by
  induction items with
  | nil => exact nil
  | cons d rest ih =>
    obtain ⟨hd, hrest⟩ := List.forall_mem_cons.mp h
    cases rest with
    | nil => exact hd
    | cons d' rest => exact hd.append rfl (ih hrest)

theorem fields {fields : List (String × Document)}
    (h : ∀ field ∈ fields, Found (Json.tokens field.2)) :
    Found (fieldTokens fields) := by
  induction fields with
  | nil => exact nil
  | cons field rest ih =>
    obtain ⟨name, d⟩ := field
    obtain ⟨hd, hrest⟩ := List.forall_mem_cons.mp h
    cases rest with
    | nil => exact text name (mark rfl hd)
    | cons field' rest => exact text name (mark rfl (hd.append rfl (ih hrest)))

end Found

theorem found_tokens {d : Document} (h : d.Writable) : Found (Json.tokens d) := by
  induction h with
  | string s => exact .text s .nil
  | scalar htokens h =>
    rw [htokens]
    exact .scalar h
  | array _ ih => exact .mark rfl ((Found.items ih).append rfl .nil)
  | object _ ih => exact .mark rfl ((Found.fields ih).append rfl .nil)

end Scanner

theorem toList_render (d : Document) : (render d).toList = Scanner.spell (tokens d) := by
  have hfold : ∀ (written : List Token) (text : String),
      (written.foldl (fun text t => text ++ t.spelled) text).toList =
        text.toList ++ Scanner.spell written := by
    intro written
    induction written with
    | nil => exact fun text => (List.append_nil _).symm
    | cons t rest ih =>
      intro text
      rw [List.foldl_cons, ih, String.toList_append, List.append_assoc]
      rfl
  exact hfold (tokens d) ""

/-- The tokens that were written are found again. -/
theorem scan_render {d : Document} (h : d.Writable) :
    scan? (render d).toList = some (tokens d) := by
  have hfound := Scanner.found_tokens h [] [] (fun c hc => by cases hc)
  rw [List.append_nil, List.append_nil] at hfound
  rw [toList_render]
  refine hfound.trans ?_
  change some (tokens d).reverse.reverse = _
  rw [List.reverse_reverse]

/-! ### Reading -/

namespace Reader

def run (r : Reader) (tokens : List Token) : Option Document :=
  (tokens.foldlM step r).bind finish?

theorem run_cons {r r' : Reader} {t : Token} (h : r.step t = some r') (tokens : List Token) :
    r.run (t :: tokens) = r'.run tokens := by
  rw [run, List.foldlM_cons, h]
  rfl

/-- The tokens of a document are read as the document where a value is expected, if containers do
not nest too deep. -/
def Restored (d : Document) : Prop :=
  ∀ (stack : List Container) (expects : Expectation) (rest : List Token),
    stack.length + d.depth ≤ depthLimit → expects = .value ∨ expects = .itemOrClose →
      run ⟨stack, expects⟩ (tokens d ++ rest) = run (supply d stack) rest

theorem closeTop_array (stack : List Container) (before : List Document)
    (h : stack.length + 1 ≤ depthLimit) :
    closeTop (.array before :: stack) = some (supply (.array before.reverse) stack) := by
  have hdepth : ¬ depthLimit < stack.length + 1 := Nat.not_lt_of_le h
  simp only [closeTop, closed, List.length_cons, if_neg hdepth]

theorem closeTop_object (stack : List Container) (before : List (String × Document))
    (name : String) (h : stack.length + 1 ≤ depthLimit) :
    closeTop (.object before true name :: stack) =
      some (supply (.object before.reverse) stack) := by
  have hdepth : ¬ depthLimit < stack.length + 1 := Nat.not_lt_of_le h
  simp [closeTop, closed, hdepth]

theorem run_items {items : List Document} (h : ∀ d ∈ items, Restored d)
    {stack : List Container} (hdepth : stack.length + 1 + Document.depthEach items ≤ depthLimit)
    (before : List Document) {expects : Expectation}
    (hexpects : expects = .value ∧ items ≠ [] ∨ expects = .itemOrClose) (rest : List Token) :
    run ⟨.array before :: stack, expects⟩ (itemTokens items ++ .closeArray :: rest) =
      run (supply (.array (before.reverse ++ items)) stack) rest := by
  have hclose := fun before => closeTop_array stack before (by omega)
  induction items generalizing before expects with
  | nil =>
    have hnone : expects = .itemOrClose := hexpects.resolve_left fun hvalue => hvalue.2 rfl
    have hstep : step ⟨.array before :: stack, .itemOrClose⟩ .closeArray =
        closeTop (.array before :: stack) := rfl
    rw [hnone, itemTokens, List.nil_append, List.append_nil, run_cons (hstep.trans (hclose before))]
  | cons d more ih =>
    obtain ⟨hd, hmore⟩ := List.forall_mem_cons.mp h
    rw [Document.depthEach] at hdepth
    have hvalue := hd (.array before :: stack) expects
    have hfit : (Container.array before :: stack).length + d.depth ≤ depthLimit := by
      rw [List.length_cons]
      omega
    have hbegin : expects = .value ∨ expects = .itemOrClose := hexpects.imp_left And.left
    have hnext : before.reverse ++ d :: more = (d :: before).reverse ++ more := by simp
    cases more with
    | nil =>
      rw [itemTokens, hvalue _ hfit hbegin]
      have hstep : step ⟨.array (d :: before) :: stack, .separator⟩ .closeArray =
          closeTop (.array (d :: before) :: stack) := rfl
      rw [supply, run_cons (hstep.trans (hclose (d :: before))), hnext, List.append_nil]
    | cons d' more =>
      have hcomma : step ⟨.array (d :: before) :: stack, .separator⟩ .comma =
          some ⟨.array (d :: before) :: stack, .value⟩ := rfl
      rw [itemTokens, List.append_assoc, hvalue _ hfit hbegin, supply, List.cons_append,
        run_cons hcomma, hnext]
      · exact ih hmore (by omega) (d :: before) (.inl ⟨rfl, List.cons_ne_nil _ _⟩)
      · exact List.cons_ne_nil _ _

theorem run_fields {fields : List (String × Document)} (h : ∀ field ∈ fields, Restored field.2)
    {stack : List Container}
    (hdepth : stack.length + 1 + Document.depthOfFields fields ≤ depthLimit)
    (before : List (String × Document)) (last : String) {expects : Expectation}
    (hexpects : expects = .name ∧ fields ≠ [] ∨ expects = .nameOrClose) (rest : List Token) :
    run ⟨.object before true last :: stack, expects⟩ (fieldTokens fields ++ .closeObject :: rest) =
      run (supply (.object (before.reverse ++ fields)) stack) rest := by
  have hclose := fun before last => closeTop_object stack before last (by omega)
  induction fields generalizing before last expects with
  | nil =>
    have hnone : expects = .nameOrClose := hexpects.resolve_left fun hvalue => hvalue.2 rfl
    have hstep : step ⟨.object before true last :: stack, .nameOrClose⟩ .closeObject =
        closeTop (.object before true last :: stack) := rfl
    rw [hnone, fieldTokens, List.nil_append, List.append_nil,
      run_cons (hstep.trans (hclose before last))]
  | cons field more ih =>
    obtain ⟨name, d⟩ := field
    obtain ⟨hd, hmore⟩ := List.forall_mem_cons.mp h
    rw [Document.depthOfFields] at hdepth
    have hname : step ⟨.object before true last :: stack, expects⟩ (.text (some name)) =
        some ⟨.object before true name :: stack, .colon⟩ := by
      rcases hexpects with ⟨rfl, -⟩ | rfl <;> rfl
    have hcolon : step ⟨.object before true name :: stack, .colon⟩ .colon =
        some ⟨.object before true name :: stack, .value⟩ := rfl
    have hfit : (Container.object before true name :: stack).length + d.depth ≤ depthLimit := by
      rw [List.length_cons]
      omega
    have hvalue := fun rest => hd _ .value rest hfit (.inl rfl)
    have hnext : before.reverse ++ (name, d) :: more = ((name, d) :: before).reverse ++ more := by
      simp
    cases more with
    | nil =>
      have hstep : step ⟨.object ((name, d) :: before) true name :: stack, .separator⟩
          .closeObject = closeTop (.object ((name, d) :: before) true name :: stack) := rfl
      rw [fieldTokens, List.cons_append, List.cons_append, run_cons hname, run_cons hcolon, hvalue,
        supply, run_cons (hstep.trans (hclose _ _)), hnext, List.append_nil]
    | cons field' more =>
      have hcomma : step ⟨.object ((name, d) :: before) true name :: stack, .separator⟩ .comma =
          some ⟨.object ((name, d) :: before) true name :: stack, .name⟩ := rfl
      rw [fieldTokens, List.cons_append, List.cons_append, List.append_assoc, run_cons hname,
        run_cons hcolon, hvalue, supply, List.cons_append, run_cons hcomma, hnext]
      · exact ih hmore (by omega) _ _ (.inl ⟨rfl, List.cons_ne_nil _ _⟩)
      · exact List.cons_ne_nil _ _

theorem restored {d : Document} (h : d.Writable) : Restored d := by
  have hbegin : ∀ (stack : List Container) {expects : Expectation} {t : Token} {r : Reader},
      expects = .value ∨ expects = .itemOrClose → beginValue stack t = some r →
        step ⟨stack, expects⟩ t = some r := by
    rintro stack expects t r (rfl | rfl) hr
    · cases t <;> exact hr
    · cases t <;> first | exact hr | cases hr
  induction h with
  | string s =>
    intro stack expects rest _ hexpects
    exact run_cons (hbegin stack hexpects rfl) rest
  | scalar htokens _ =>
    intro stack expects rest _ hexpects
    rw [htokens]
    exact run_cons (hbegin stack hexpects rfl) rest
  | @array items _ ih =>
    intro stack expects rest hdepth hexpects
    rw [Document.depth] at hdepth
    have hopen := run_cons (hbegin stack (t := .openArray) hexpects rfl)
    rw [tokens, List.cons_append, List.append_assoc, hopen]
    exact run_items ih (by omega) [] (.inr rfl) rest
  | @object fields _ ih =>
    intro stack expects rest hdepth hexpects
    rw [Document.depth] at hdepth
    have hopen := run_cons (hbegin stack (t := .openObject) hexpects rfl)
    rw [tokens, List.cons_append, List.append_assoc, hopen]
    exact run_fields ih (by omega) [] "" (.inr rfl) rest

end Reader

/-- A document that is written as a text is read back from it. -/
theorem parse_render {d : Document} (h : d.Writable) (hdepth : d.depth ≤ depthLimit) :
    parse? (render d) = some d := by
  have hread := Reader.restored h [] .value [] (by simpa using hdepth) (.inl rfl)
  rw [List.append_nil] at hread
  rw [parse?, scan_render h]
  exact hread

end Json
end Choreography
