import Choreography.Decoding
import Choreography.Encoding
import Choreography.Proofs.JsonText
import Choreography.Proofs.MachineIntegers

/-! # The forms of values and expressions

What is written for a value or an expression is read as the same value or expression, and its text
reads back, as long as that holds of the double-precision numbers in it. Of the forms that a reader
tries in order, none takes what was written in a later one. -/
namespace Choreography

/-- A finite number with a text that reads back as the number. -/
structure Binary64.Preserved (x : Binary64) : Prop where
  finite : x.isFinite = true
  reads : (Json.numeral? (Decimal.interchange.text x).toList).map Json.Numeral.document =
    some (.float x)

/-! ### Records -/

namespace Record

@[simp] theorem required_cons_self (name : String) (d : Document) (rest : Record)
    (read : Document → Option α) : required ((name, d) :: rest) name read = read d := by
  simp [required, field?]

@[simp] theorem required_cons_of_ne {name other : String} (h : other ≠ name) (d : Document)
    (rest : Record) (read : Document → Option α) :
    required ((other, d) :: rest) name read = rest.required name read := by
  simp [required, field?, h]

@[simp] theorem required_nil (name : String) (read : Document → Option α) :
    required [] name read = none := rfl

@[simp] theorem optional_cons_self (name : String) (d : Document) (rest : Record)
    (read : Document → Option α) (default : α) :
    optional ((name, d) :: rest) name read default = read d := by
  simp [optional, field?]

@[simp] theorem optional_cons_of_ne {name other : String} (h : other ≠ name) (d : Document)
    (rest : Record) (read : Document → Option α) (default : α) :
    optional ((other, d) :: rest) name read default = rest.optional name read default := by
  simp [optional, field?, h]

end Record

namespace Document

theorem fieldsNamed_eq_nil {name : String} {fields : List (String × Document)}
    (h : name ∉ fields.map Prod.fst) : fieldsNamed name fields = [] := by
  have hfilter : fields.filter (fun f => f.1 == name) = [] := by
    rw [List.filter_eq_nil_iff]
    rintro f hf hname
    exact h (eq_of_beq hname ▸ List.mem_map_of_mem hf)
  rw [fieldsNamed, hfilter, List.map_nil]

theorem fieldsNamed_cons_of_ne {name : String} {f : String × Document} (h : f.1 ≠ name)
    (fields : List (String × Document)) :
    fieldsNamed name (f :: fields) = fieldsNamed name fields := by
  rw [fieldsNamed, List.filter_cons_of_neg (by simpa using h), fieldsNamed]

theorem fieldsNamed_cons_self (name : String) (d : Document) {fields : List (String × Document)}
    (h : name ∉ fields.map Prod.fst) : fieldsNamed name ((name, d) :: fields) = [d] := by
  have hrest := fieldsNamed_eq_nil h
  rw [fieldsNamed] at hrest ⊢
  rw [List.filter_cons_of_pos (by simp), List.map_cons, hrest]

/-- A field of another name in front is skipped. -/
theorem pick?_cons_of_not_mem {f : String × Document} {names : List String} (h : f.1 ∉ names)
    (fields : List (String × Document)) : pick? names (f :: fields) = pick? names fields := by
  induction names with
  | nil => rfl
  | cons name rest ih =>
    rw [List.mem_cons, not_or] at h
    obtain ⟨hname, hrest⟩ := h
    rw [pick?, pick?, fieldsNamed_cons_of_ne hname, ih hrest]

/-- Fields in the order of the known names are all picked. -/
theorem pick?_of_sublist {names : List String} (hnodup : names.Nodup)
    {fields : List (String × Document)} (h : (fields.map Prod.fst).Sublist names) :
    pick? names fields = some fields := by
  induction names generalizing fields with
  | nil =>
    have hnil : fields = [] := by simpa using h
    rw [hnil]
    rfl
  | cons name rest ih =>
    obtain ⟨hname, hrest⟩ := List.nodup_cons.mp hnodup
    have habsent : ∀ {fields : List (String × Document)}, (fields.map Prod.fst).Sublist rest →
        name ∉ fields.map Prod.fst := fun hsub hmem => hname (hsub.subset hmem)
    rcases List.sublist_cons_iff.mp h with hsub | ⟨others, hothers, hsub⟩
    · rw [pick?, fieldsNamed_eq_nil (habsent hsub)]
      exact ih hrest hsub
    · cases fields with
      | nil => cases hothers
      | cons f more =>
        obtain ⟨key, d⟩ := f
        obtain ⟨rfl, rfl⟩ := List.cons.inj hothers
        rw [pick?, fieldsNamed_cons_self key d (habsent hsub)]
        simp only [pick?_cons_of_not_mem hname, ih hrest hsub, Option.map_some]

/-- The fields of a record that were written in order are the record. -/
@[simp] theorem record?_of_sublist {names : List String} (hnodup : names.Nodup)
    {fields : List (String × Document)} (h : (fields.map Prod.fst).Sublist names) (surplus : Bool) :
    (Document.object fields).record? names surplus = some fields := pick?_of_sublist hnodup h

/-- What is written item by item is read back if each item is. -/
theorem mapM_map_of_forall {write : α → β} {read : β → Option α} {items : List α}
    (h : ∀ a ∈ items, read (write a) = some a) : (items.map write).mapM read = some items := by
  induction items with
  | nil => rfl
  | cons a rest ih =>
    obtain ⟨ha, hrest⟩ := List.forall_mem_cons.mp h
    rw [List.map_cons, List.mapM_cons, ha, ih hrest]
    rfl

theorem areReadable_of_forall {items : List Document} (h : ∀ d ∈ items, d.isReadable = true) :
    areReadable items = true := by
  induction items with
  | nil => rfl
  | cons d rest ih =>
    obtain ⟨hd, hrest⟩ := List.forall_mem_cons.mp h
    rw [areReadable, hd, ih hrest, Bool.and_self]

theorem fieldsAreReadable_of_forall {fields : List (String × Document)}
    (h : ∀ field ∈ fields, field.2.isReadable = true) : fieldsAreReadable fields = true := by
  induction fields with
  | nil => rfl
  | cons field rest ih =>
    obtain ⟨name, d⟩ := field
    obtain ⟨hd, hrest⟩ := List.forall_mem_cons.mp h
    rw [fieldsAreReadable, hd, ih hrest, Bool.and_self]

theorem writable_pair {first second : String × Document} (hfirst : first.2.Writable)
    (hsecond : second.2.Writable) : ∀ field ∈ [first, second], field.2.Writable :=
  List.forall_mem_cons.mpr ⟨hfirst, List.forall_mem_singleton.mpr hsecond⟩

theorem Writable.isReadable {d : Document} (h : d.Writable) : d.isReadable = true := by
  induction h with
  | string s => rfl
  | @scalar d htokens hbare =>
    cases d with
    | array items => cases htokens
    | object fields => cases htokens
    | unreadable =>
      have hnull : Json.bareToken? (Json.scalarText .unreadable).toList =
          some (.scalar .null) := rfl
      rw [hnull] at hbare
      cases hbare
    | _ => rfl
  | array _ ih => exact areReadable_of_forall ih
  | object _ ih => exact fieldsAreReadable_of_forall ih

theorem depthOfFields_eq_zero {fields : List (String × Document)}
    (h : ∀ field ∈ fields, field.2.depth = 0) : depthOfFields fields = 0 := by
  induction fields with
  | nil => rfl
  | cons field rest ih =>
    obtain ⟨name, d⟩ := field
    obtain ⟨hd, hrest⟩ := List.forall_mem_cons.mp h
    rw [depthOfFields, hd, ih hrest, Nat.max_self]

/-! ### Whole numbers -/

@[simp] theorem whole?_ofInt (i : Int) : (ofInt i).whole? = some i := by
  unfold ofInt
  split
  · exact congrArg some (Int.toNat_of_nonneg ‹0 ≤ i›)
  · rfl

theorem depth_ofInt (i : Int) : (ofInt i).depth = 0 := by
  unfold ofInt
  split <;> rfl

theorem signed?_ofInt {bits : Nat} {i : Int} (h : isSigned bits i = true) :
    signed? bits (ofInt i) = some i := by
  rw [signed?, whole?_ofInt, Option.filter_some, if_pos h]

theorem writable_ofInt {i : Int} (h : isSigned 64 i = true) : (ofInt i).Writable := by
  obtain ⟨hlow, hhigh⟩ := (isSigned_iff 63 i).mp h
  unfold ofInt
  split
  · exact .scalar rfl (Json.bareToken_natural (by change i.toNat < 2 ^ 64; omega))
  · obtain ⟨k, rfl⟩ := Int.eq_negSucc_of_lt_zero (not_le.mp ‹¬ 0 ≤ i›)
    exact .scalar rfl (Json.bareToken_negative (by change k < 2 ^ 63; omega))

theorem writable_narrow {i : Int} (h : isSigned 32 i = true) : (ofInt i).Writable := by
  rw [isSigned_iff 31] at h
  exact writable_ofInt ((isSigned_iff 63 i).mpr (by omega))

theorem writable_bool (b : Bool) : (Document.bool b).Writable := by
  cases b <;> exact .scalar rfl rfl

end Document

/-! ### Values -/

namespace Value
open Document

def floats : Value → List Binary64
  | .float x => [x]
  | _ => []

theorem writable_toDocument {v : Value} (h : ∀ x ∈ v.floats, x.Preserved) :
    v.toDocument.Writable := by
  cases v with
  | bool b => exact writable_bool b
  | int i => exact writable_ofInt (isSigned_toInt i)
  | float x =>
    obtain ⟨hfinite, hreads⟩ := h x List.mem_cons_self
    obtain ⟨n, hn, hdocument⟩ := Option.map_eq_some_iff.mp hreads
    rw [toDocument, Binary64.toDocument, if_pos hfinite]
    refine .scalar rfl ?_
    rw [Json.scalarText, if_pos hfinite, Json.bareToken_of_numeral hn, hdocument]
  | str s => exact .string s

/-- A value has the document of its own form, which no earlier form fits. -/
theorem ofDocument_toDocument {v : Value} (h : ∀ x ∈ v.floats, x.Preserved) :
    ofDocument v.toDocument = some v := by
  cases v with
  | bool b => rfl
  | int i =>
    have hrange := (isSigned_iff 63 _).mp (isSigned_toInt i)
    rw [toDocument, ofInt]
    split
    · have hsmall : i.toInt.toNat < Nat.pow 2 63 := by
        change i.toInt.toNat < 2 ^ 63
        omega
      have hvalue : Int64.ofNat i.toInt.toNat = i := by
        rw [← Int64.ofInt_eq_ofNat, Int.toNat_of_nonneg ‹_›, Int64.ofInt_toInt]
      rw [ofDocument, if_pos hsmall, hvalue]
    · rw [ofDocument, if_pos (isSigned_toInt i), Int64.ofInt_toInt]
  | float x =>
    rw [toDocument, Binary64.toDocument, if_pos (h x List.mem_cons_self).finite]
    rfl
  | str s => rfl

end Value

/-! ### Expressions -/

namespace Expr
open Document

def floats : Expr → List Binary64
  | .literal v => v.floats
  | .variable _ => []
  | .negation e => e.floats
  | .binary _ lhs rhs => lhs.floats ++ rhs.floats

def Preserved (e : Expr) : Prop := ∀ x ∈ e.floats, x.Preserved

theorem writable_toDocument {e : Expr} (h : e.Preserved) : e.toDocument.Writable := by
  induction e with
  | literal v => exact v.writable_toDocument h
  | «variable» name => exact .object (List.forall_mem_singleton.mpr (.string name))
  | negation e ih => exact .object (List.forall_mem_singleton.mpr (ih h))
  | binary op lhs rhs ihl ihr =>
    obtain ⟨hl, hr⟩ := List.forall_mem_append.mp h
    exact .object (List.forall_mem_cons.mpr ⟨.string op.symbol, writable_pair (ihl hl) (ihr hr)⟩)

/-- No object stands for a literal, and what is not an object is read as one. -/
theorem ofDocumentIn_literal (n : Nat) {v : Value} (h : ∀ x ∈ v.floats, x.Preserved) :
    ofDocumentIn n v.toDocument = some (.literal v) := by
  have hvalue := v.ofDocument_toDocument h
  cases n with
  | zero => rw [ofDocumentIn, hvalue, Option.map_some]
  | succ n =>
    rw [ofDocumentIn]
    · rw [hvalue, Option.map_some]
    · intro fields hfields
      rw [hfields] at hvalue
      cases hvalue

theorem ofDocumentIn_toDocument {e : Expr} (h : e.Preserved) {n : Nat}
    (hn : e.toDocument.depth ≤ n) : ofDocumentIn n e.toDocument = some e := by
  induction e generalizing n with
  | literal v => exact ofDocumentIn_literal n h
  | «variable» name =>
    cases n with
    | zero => cases hn
    | succ n => rfl
  | negation e ih =>
    rw [toDocument, depth, depthOfFields, depthOfFields] at hn
    cases n with
    | zero => omega
    | succ n =>
      have he := ih h (n := n) (by omega)
      -- The form of a variable is tried first; without its field it does not fit.
      simp [toDocument, ofDocumentIn, pick?, fieldsNamed, he]
  | binary op lhs rhs ihl ihr =>
    obtain ⟨hl, hr⟩ := List.forall_mem_append.mp h
    simp only [toDocument, depth, depthOfFields] at hn
    cases n with
    | zero => omega
    | succ n =>
      have hlhs := ihl hl (n := n) (by omega)
      have hrhs := ihr hr (n := n) (by omega)
      have hop : Operator.ofDocument (.string op.symbol) = some op := Operator.ofSymbol?_symbol op
      simp [toDocument, ofDocumentIn, pick?, fieldsNamed, hlhs, hrhs, hop]

theorem ofDocument_toDocument {e : Expr} (h : e.Preserved) : ofDocument e.toDocument = some e := by
  rw [ofDocument, if_pos (writable_toDocument h).isReadable]
  exact ofDocumentIn_toDocument h (Nat.le_refl _)

end Expr
end Choreography
