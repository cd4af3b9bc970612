import Mathlib.Order.Defs.LinearOrder
import Choreography.Evaluation
import Choreography.Proofs.ExpressionForms

/-! # Exact values

An expression of integers and truth values has an exact value, among the integers of any size.
Evaluation keeps to sixty-four bits: it gives the exact value, or it reports each node that it
cannot evaluate exactly and goes on with the default of the node. -/
namespace Choreography

/-- A truth value or an integer of any size. -/
inductive Exact where
  | bool (b : Bool)
  | int (i : Int)
deriving DecidableEq, Repr

def IsWord (i : Int) : Prop := -2 ^ 63 ≤ i ∧ i < 2 ^ 63

instance (i : Int) : Decidable (IsWord i) := inferInstanceAs (Decidable (_ ∧ _))

theorem isSigned_iff_isWord {i : Int} : isSigned 64 i = true ↔ IsWord i :=
  isSigned_iff 63 i

theorem IsWord.toInt_ofInt {i : Int} (h : IsWord i) : (Int64.ofInt i).toInt = i :=
  Int64.toInt_ofInt_of_le h.1 h.2

theorem IsWord.ofInt_eq_ofInt_iff {i j : Int} (hi : IsWord i) (hj : IsWord j) :
    Int64.ofInt i = .ofInt j ↔ i = j := by
  rw [← Int64.toInt_inj, hi.toInt_ofInt, hj.toInt_ofInt]

theorem IsWord.ofInt_eq_zero_iff {i : Int} (h : IsWord i) : Int64.ofInt i = 0 ↔ i = 0 :=
  h.ofInt_eq_ofInt_iff (j := 0) (by decide)

theorem isWord_toInt (i : Int64) : IsWord i.toInt := ⟨i.le_toInt, i.toInt_lt⟩

namespace Exact

def holds : Exact → Bool
  | .bool b => b
  | .int i => i != 0

def whole : Exact → Int
  | .bool b => if b then 1 else 0
  | .int i => i

def isInteger : Exact → Bool
  | .bool _ => false
  | .int _ => true

def Fits : Exact → Prop
  | .bool _ => True
  | .int i => IsWord i

def value : Exact → Value
  | .bool b => .bool b
  | .int i => .int (.ofInt i)

end Exact

def Value.exactly? : Value → Option Exact
  | .bool b => some (.bool b)
  | .int i => some (.int i.toInt)
  | _ => none

/-- The exact result of an operation, a quotient truncated toward zero. -/
def Arithmetic.exactly? : Arithmetic → Int → Int → Option Int
  | .add, a, b => some (a + b)
  | .sub, a, b => some (a - b)
  | .mul, a, b => some (a * b)
  | .div, a, b => if b = 0 then none else some (a.tdiv b)
  | .rem, a, b => if b = 0 then none else some (a.tmod b)

/-- The result of an operation fits, and so does the quotient that belongs to a remainder. -/
def Arithmetic.InRange (op : Arithmetic) (a b result : Int) : Prop :=
  IsWord result ∧ (op = .rem → IsWord (a.tdiv b))

instance (op : Arithmetic) (a b result : Int) : Decidable (op.InRange a b result) :=
  inferInstanceAs (Decidable (_ ∧ _))

def Comparison.relates : Comparison → Int → Int → Bool
  | .lt, a, b => a < b
  | .le, a, b => a ≤ b
  | .gt, a, b => a > b
  | .ge, a, b => a ≥ b

namespace Operator

/-- The exact result of an operator on the exact values of its operands. -/
def exactly? : Operator → Exact → Exact → Option Exact
  | .arithmetic op, .int a, .int b => (op.exactly? a b).map .int
  | .comparison op, .int a, .int b => some (.bool (op.relates a b))
  | .equal, x, y => some (.bool (x = y))
  | .unequal, x, y => some (.bool (x ≠ y))
  | .and, x, y => some (.bool (x.holds && y.holds))
  | .or, x, y => some (.bool (x.holds || y.holds))
  | _, _, _ => none

def decides : Operator → Exact → Bool
  | .and, x => !x.holds
  | .or, x => x.holds
  | _, _ => false

protected def default : Operator → Exact
  | .arithmetic _ => .int 0
  | _ => .bool false

/-- The faults of an operator on the exact values of its operands, with the notice of each. -/
inductive Fault : Operator → Exact → Exact → Notice → Prop where
  | zeroDivisor {op : Arithmetic} {a : Int} (hdivision : op = .div ∨ op = .rem) :
      Fault (.arithmetic op) (.int a) (.int 0) (.integerDivisionByZero op a)
  | overflow {op : Arithmetic} {a b result : Int} (hresult : op.exactly? a b = some result)
      (hrange : ¬ op.InRange a b result) :
      Fault (.arithmetic op) (.int a) (.int b) (.integerOverflow op a b)
  | mismatch {op : Arithmetic} {x y : Exact} (hmixed : x.isInteger = false ∨ y.isInteger = false) :
      Fault (.arithmetic op) x y (.typeMismatch op x.value y.value)
  | unordered {op : Comparison} {x y : Exact} (hmixed : x.isInteger = false ∨ y.isInteger = false) :
      Fault (.comparison op) x y (.incomparable op x.value y.value)

/-- The result of an operator on the exact values of its operands, with its fault if it has one. -/
inductive Gives : Operator → Exact → Exact → Exact → Option Notice → Prop where
  | sound {op : Operator} {x y z : Exact} (hsound : ∀ n, ¬ op.Fault x y n)
      (hexact : op.exactly? x y = some z) : Gives op x y z none
  | faulty {op : Operator} {x y : Exact} {n : Notice} (hfault : op.Fault x y n) :
      Gives op x y op.default (some n)

end Operator

structure Visit where
  node : Expr
  fault : Option Notice

namespace Env

def meaning? (env : Env) (name : String) : Option Exact :=
  match env.builtin? name with
  | some i => some (.int i)
  | none =>
      match env.constants.find? name with
      | some v => v.exactly?
      | none => (env.source name).bind Value.exactly?

/-- The exact value of an expression. -/
def exactly? (env : Env) : Expr → Option Exact
  | .literal v => v.exactly?
  | .variable name => env.meaning? name
  | .negation e => (env.exactly? e).map fun x => .bool !x.holds
  | .binary op lhs rhs =>
      (env.exactly? lhs).bind fun x =>
        if op.decides x then some (.bool x.holds) else (env.exactly? rhs).bind (op.exactly? x)

/-- Evaluation with a default in the place of each fault, and the nodes it visits. A right operand
is evaluated if the left one does not decide the result. -/
inductive Evaluates (env : Env) : Expr → Exact → List Visit → Prop where
  | literal {v : Value} {x : Exact} (hvalue : v.exactly? = some x) :
      Evaluates env (.literal v) x [⟨.literal v, none⟩]
  | defined {name : String} {x : Exact} (hmeaning : env.meaning? name = some x) :
      Evaluates env (.variable name) x [⟨.variable name, none⟩]
  | undefined {name : String} (hlookup : env.lookup name = none) :
      Evaluates env (.variable name) (.int 0)
        [⟨.variable name, some (.undefinedVariable name)⟩]
  | negation {e : Expr} {x : Exact} {visits : List Visit} (hoperand : Evaluates env e x visits) :
      Evaluates env (.negation e) (.bool !x.holds) (visits ++ [⟨.negation e, none⟩])
  | decided {op : Operator} {lhs rhs : Expr} {x : Exact} {visits : List Visit}
      (hlhs : Evaluates env lhs x visits) (hdecided : op.decides x = true) :
      Evaluates env (.binary op lhs rhs) (.bool x.holds) (visits ++ [⟨.binary op lhs rhs, none⟩])
  | applied {op : Operator} {lhs rhs : Expr} {x y z : Exact} {fault : Option Notice}
      {visits others : List Visit} (hlhs : Evaluates env lhs x visits)
      (hopen : op.decides x = false) (hrhs : Evaluates env rhs y others)
      (hgives : op.Gives x y z fault) :
      Evaluates env (.binary op lhs rhs) z (visits ++ others ++ [⟨.binary op lhs rhs, fault⟩])

/-- The built-in variables have sixty-four bits; those of a widget have thirty-two. -/
structure Fits (env : Env) : Prop where
  x : IsWord env.x
  y : IsWord env.y
  width : IsWord env.width
  height : IsWord env.height
  containerWidth : IsWord env.containerWidth
  containerHeight : IsWord env.containerHeight

/-- Whether an expression is about integers and truth values: its literals are of these kinds, and
so is what its names stand for, if they stand for anything. -/
def isWhole (env : Env) : Expr → Bool
  | .literal v => v.exactly?.isSome
  | .variable name => (env.lookup name).all fun v => v.exactly?.isSome
  | .negation e => env.isWhole e
  | .binary _ lhs rhs => env.isWhole lhs && env.isWhole rhs

end Env

variable {env : Env} {e : Expr} {v : Value} {x y z : Exact} {op : Operator} {visits : List Visit}

/-! ### Values -/

namespace Exact

@[simp] theorem value_bool (b : Bool) : (Exact.bool b).value = .bool b := rfl

@[simp] theorem fits_bool (b : Bool) : (Exact.bool b).Fits := trivial

theorem fits_zero : (Exact.int 0).Fits := by
  rw [Fits]
  decide

theorem truthy_value (h : x.Fits) : x.value.truthy = x.holds := by
  cases x with
  | bool b => rfl
  | int i =>
    have hzero : Int64.ofInt i = 0 ↔ i = 0 := h.ofInt_eq_zero_iff
    simp [value, Value.truthy, holds, bne, hzero, Bool.beq_eq_decide_eq]

theorem asInteger_value (h : x.Fits) : x.value.asInteger = x.whole := by
  cases x with
  | bool b => rfl
  | int i => exact h.toInt_ofInt

theorem integerFaults_value (x : Exact) : Env.integerFaults x.value = [] := by
  cases x <;> rfl

theorem fits_of_exactly? (h : v.exactly? = some x) : x.Fits := by
  cases v with
  | bool b => cases h; trivial
  | int i => cases h; exact isWord_toInt i
  | float f => cases h
  | str s => cases h

theorem value_of_exactly? (h : v.exactly? = some x) : x.value = v := by
  cases v with
  | bool b => cases h; rfl
  | int i => cases h; exact congrArg Value.int (Int64.ofInt_toInt i)
  | float f => cases h
  | str s => cases h

theorem equals_value (hx : x.Fits) (hy : y.Fits) : x.value.equals y.value = decide (x = y) := by
  cases x with
  | bool a =>
    cases y with
    | bool b => simp [value, Value.equals, Bool.beq_eq_decide_eq]
    | int j => rfl
  | int i =>
    cases y with
    | bool b => rfl
    | int j =>
      have hinj : Int64.ofInt i = .ofInt j ↔ i = j := hx.ofInt_eq_ofInt_iff hy
      simp [value, Value.equals, hinj, beq_eq_decide]

end Exact

/-! ### Operators -/

namespace Arithmetic
variable {op : Arithmetic} {a b i : Int}

theorem exactly?_eq_none_iff : op.exactly? a b = none ↔ (op = .div ∨ op = .rem) ∧ b = 0 := by
  cases op <;> simp [exactly?]

theorem isDivision_iff : op.isDivision = true ↔ op = .div ∨ op = .rem := by
  cases op <;> simp [isDivision]

theorem onIntegers_filter (h : op.exactly? a b = some i) :
    (op.onIntegers a b).filter (isSigned 64) = if op.InRange a b i then some i else none := by
  -- Only a remainder has a second condition, that of its quotient.
  by_cases hrem : op = .rem
  · subst hrem
    obtain ⟨hb, rfl⟩ : b ≠ 0 ∧ a.tmod b = i := by simpa [exactly?] using h
    by_cases hquotient : IsWord (a.tdiv b)
    · have hsigned := isSigned_iff_isWord.mpr hquotient
      simp [onIntegers, InRange, hb, hquotient, hsigned, isSigned_iff_isWord, Option.filter_some]
    · simp [onIntegers, InRange, hquotient, isSigned_iff_isWord]
  · have hsame : op.onIntegers a b = op.exactly? a b := by
      cases op <;> first | rfl | exact absurd rfl hrem
    simp [hsame, h, InRange, hrem, isSigned_iff_isWord, Option.filter_some]

theorem apply_int (op : Arithmetic) (a b : Int64) :
    op.apply (.int a) (.int b) =
      if op.isDivision && b == 0 then .error (.integerDivisionByZero op a.toInt)
      else
        match (op.onIntegers a.toInt b.toInt).filter (isSigned 64) with
        | some i => .ok (.int (.ofInt i))
        | none => .error (.integerOverflow op a.toInt b.toInt) := by
  cases op <;> rfl

/-- Words are operated on exactly, or with the fault that stands in the way. -/
theorem apply_words (op : Arithmetic) (ha : IsWord a) (hb : IsWord b) :
    op.apply (.int (.ofInt a)) (.int (.ofInt b)) =
      match op.exactly? a b with
      | none => .error (.integerDivisionByZero op a)
      | some i =>
          if op.InRange a b i then .ok (.int (.ofInt i)) else .error (.integerOverflow op a b) := by
  have hzero : Int64.ofInt b = 0 ↔ b = 0 := hb.ofInt_eq_zero_iff
  rw [apply_int, ha.toInt_ofInt, hb.toInt_ofInt]
  cases hexact : op.exactly? a b with
  | none =>
    obtain ⟨hdivision, hb⟩ := exactly?_eq_none_iff.mp hexact
    simp [isDivision_iff.mpr hdivision, hzero.mpr hb]
  | some i =>
    have hdivides : ¬ (op.isDivision && Int64.ofInt b == 0) = true := by
      intro hboth
      rw [Bool.and_eq_true, beq_iff_eq, hzero, isDivision_iff] at hboth
      rw [exactly?_eq_none_iff.mpr hboth] at hexact
      cases hexact
    rw [if_neg hdivides, onIntegers_filter hexact]
    by_cases hrange : op.InRange a b i
    · simp only [if_pos hrange]
    · simp only [if_neg hrange]

theorem apply_mismatch (op : Arithmetic) (h : x.isInteger = false ∨ y.isInteger = false) :
    op.apply x.value y.value = .error (.typeMismatch op x.value y.value) := by
  cases x <;> cases y <;> cases op <;> first | rfl | simp [Exact.isInteger] at h

end Arithmetic

namespace Comparison

theorem holds_compare (op : Comparison) (a b : Int) : op.holds (compare a b) = op.relates a b := by
  rcases lt_trichotomy a b with h | rfl | h
  · rw [compare_lt_iff_lt.mpr h]
    cases op <;> simp [holds, relates, h, h.le, h.not_gt]
  · rw [compare_eq_iff_eq.mpr rfl]
    cases op <;> simp [holds, relates]
  · rw [compare_gt_iff_gt.mpr h]
    cases op <;> simp [holds, relates, h, h.le, h.not_gt]

theorem apply_words {a b : Int} (op : Comparison) (ha : IsWord a) (hb : IsWord b) :
    op.apply (.int (.ofInt a)) (.int (.ofInt b)) = .ok (op.relates a b) := by
  change Except.ok (op.holds (compare (Int64.ofInt a).toInt (Int64.ofInt b).toInt)) = _
  rw [ha.toInt_ofInt, hb.toInt_ofInt, holds_compare]

theorem apply_unordered (op : Comparison) (h : x.isInteger = false ∨ y.isInteger = false) :
    op.apply x.value y.value = .error (.incomparable op x.value y.value) := by
  cases x <;> cases y <;> first | rfl | simp [Exact.isInteger] at h

end Comparison

namespace Operator

theorem decidedBy_value (op : Operator) (h : x.Fits) : op.decidedBy x.value = op.decides x := by
  cases op <;> simp [decidedBy, decides, Exact.truthy_value h]

/-- An operand that decides the result is the result, whatever the other operand is. -/
theorem apply_of_decides (h : op.decides x = true) (hx : x.Fits) (rhs : Value) :
    op.apply x.value rhs = .bool x.holds := by
  cases op with
  | and =>
    have hx' : x.holds = false := by simpa [decides] using h
    simp [apply, Exact.truthy_value hx, hx']
  | or =>
    have hx' : x.holds = true := h
    simp [apply, Exact.truthy_value hx, hx']
  | _ => cases h

theorem exists_integers (h : ¬ (x.isInteger = false ∨ y.isInteger = false)) :
    ∃ a b, x = .int a ∧ y = .int b := by
  cases x with
  | bool b => exact absurd (.inl rfl) h
  | int a =>
    cases y with
    | bool b => exact absurd (.inr rfl) h
    | int b => exact ⟨a, b, rfl, rfl⟩

/-- An operator without a fault has an exact result. -/
theorem exists_exact (hsound : ∀ n, ¬ op.Fault x y n) : ∃ z, op.exactly? x y = some z := by
  cases op with
  | arithmetic op =>
    obtain ⟨a, b, rfl, rfl⟩ := exists_integers fun hmixed => hsound _ (.mismatch hmixed)
    cases hexact : op.exactly? a b with
    | none =>
      obtain ⟨hdivision, rfl⟩ := Arithmetic.exactly?_eq_none_iff.mp hexact
      exact absurd (.zeroDivisor hdivision) (hsound _)
    | some i => exact ⟨.int i, congrArg (Option.map Exact.int) hexact⟩
  | comparison op =>
    obtain ⟨a, b, rfl, rfl⟩ := exists_integers fun hmixed => hsound _ (.unordered hmixed)
    exact ⟨_, rfl⟩
  | _ => exact ⟨_, rfl⟩

theorem exists_gives (op : Operator) (x y : Exact) : ∃ z fault, op.Gives x y z fault := by
  by_cases hfault : ∃ n, op.Fault x y n
  · obtain ⟨n, hn⟩ := hfault
    exact ⟨_, _, .faulty hn⟩
  · have hsound := not_exists.mp hfault
    obtain ⟨z, hz⟩ := exists_exact hsound
    exact ⟨z, _, .sound hsound hz⟩

theorem fits_default (op : Operator) : op.default.Fits := by
  cases op with
  | arithmetic op => exact Exact.fits_zero
  | _ => trivial

theorem spec_of_error {op : Arithmetic} {lhs rhs : Value} {n : Notice}
    (h : op.apply lhs rhs = .error n) :
    (arithmetic op).apply lhs rhs = (Exact.int 0).value ∧
      (arithmetic op).faults lhs rhs = [n] := by
  rw [apply, faults, h]
  exact ⟨rfl, rfl⟩

/-- A faulty operator gives its default and reports the fault alone. -/
theorem Fault.spec {n : Notice} (h : op.Fault x y n) (hx : x.Fits) (hy : y.Fits) :
    op.apply x.value y.value = op.default.value ∧ op.faults x.value y.value = [n] := by
  cases h with
  | @zeroDivisor op a hdivision =>
    have hnone : op.exactly? a 0 = none := Arithmetic.exactly?_eq_none_iff.mpr ⟨hdivision, rfl⟩
    exact spec_of_error ((op.apply_words hx hy).trans (by rw [hnone]))
  | @overflow op a b result hresult hrange =>
    exact spec_of_error ((op.apply_words hx hy).trans (by simp only [hresult, if_neg hrange]))
  | mismatch hmixed => exact spec_of_error (Arithmetic.apply_mismatch _ hmixed)
  | unordered hmixed =>
    rw [apply, faults, Comparison.apply_unordered _ hmixed]
    exact ⟨rfl, rfl⟩

theorem Fault.unique {n m : Notice} (hn : op.Fault x y n) (hm : op.Fault x y m) (hx : x.Fits)
    (hy : y.Fits) : n = m :=
  List.singleton_inj.mp ((hn.spec hx hy).2.symm.trans (hm.spec hx hy).2)

/-- A sound operator gives its exact result, which fits, and reports nothing. -/
theorem spec_of_sound (hsound : ∀ n, ¬ op.Fault x y n) (hexact : op.exactly? x y = some z)
    (hx : x.Fits) (hy : y.Fits) :
    z.Fits ∧ op.apply x.value y.value = z.value ∧ op.faults x.value y.value = [] := by
  cases op with
  | arithmetic op =>
    obtain ⟨a, b, rfl, rfl⟩ := exists_integers fun hmixed => hsound _ (.mismatch hmixed)
    obtain ⟨i, hi, rfl⟩ := Option.map_eq_some_iff.mp hexact
    have hrange : op.InRange a b i := by
      by_contra hrange
      exact hsound _ (.overflow hi hrange)
    have happly : op.apply (Exact.int a).value (Exact.int b).value = .ok (.int (.ofInt i)) :=
      (op.apply_words hx hy).trans (by simp only [hi, if_pos hrange])
    simp only [apply, faults, happly]
    exact ⟨hrange.1, rfl, rfl⟩
  | comparison op =>
    obtain ⟨a, b, rfl, rfl⟩ := exists_integers fun hmixed => hsound _ (.unordered hmixed)
    cases hexact
    simp only [apply, faults, Exact.value, op.apply_words hx hy]
    exact ⟨trivial, rfl, rfl⟩
  | equal =>
    cases hexact
    exact ⟨trivial, congrArg Value.bool (Exact.equals_value hx hy), rfl⟩
  | unequal =>
    cases hexact
    simp [apply, faults, Exact.equals_value hx hy]
  | and =>
    cases hexact
    simp [apply, faults, Exact.truthy_value hx, Exact.truthy_value hy]
  | or =>
    cases hexact
    simp [apply, faults, Exact.truthy_value hx, Exact.truthy_value hy]

/-- What an operator gives is what it computes, and it fits. -/
theorem Gives.spec {fault : Option Notice} (h : op.Gives x y z fault) (hx : x.Fits)
    (hy : y.Fits) :
    z.Fits ∧ op.apply x.value y.value = z.value ∧ op.faults x.value y.value = fault.toList := by
  cases h with
  | sound hsound hexact => exact spec_of_sound hsound hexact hx hy
  | faulty hfault => exact ⟨op.fits_default, hfault.spec hx hy⟩

theorem Gives.unique {w : Exact} {fault other : Option Notice} (hz : op.Gives x y z fault)
    (hw : op.Gives x y w other) (hx : x.Fits) (hy : y.Fits) : w = z ∧ other = fault := by
  cases hz with
  | sound hsound hexact =>
    cases hw with
    | sound _ hexact' => exact ⟨Option.some.inj (hexact'.symm.trans hexact), rfl⟩
    | faulty hfault => exact absurd hfault (hsound _)
  | faulty hfault =>
    cases hw with
    | sound hsound _ => exact absurd hfault (hsound _)
    | faulty hfault' => exact ⟨rfl, congrArg some (hfault'.unique hfault hx hy)⟩

end Operator

/-! ### Expressions -/

namespace Env

theorem Fits.builtin (henv : env.Fits) {name : String} {i : Int}
    (h : env.builtin? name = some i) : IsWord i := by
  rw [builtin?] at h
  split_ifs at h <;> cases h
  exacts [henv.x, henv.y, henv.width, henv.height, henv.containerWidth, henv.containerHeight]

theorem Fits.lookup (henv : env.Fits) {name : String} (h : env.meaning? name = some x) :
    x.Fits ∧ env.lookup name = some x.value := by
  rw [meaning?] at h
  rw [Env.lookup]
  cases hbuiltin : env.builtin? name with
  | some i =>
    rw [hbuiltin] at h
    cases h
    exact ⟨henv.builtin hbuiltin, rfl⟩
  | none =>
    rw [hbuiltin] at h
    cases hconstant : env.constants.find? name with
    | some v =>
      simp only [hconstant] at h
      exact ⟨Exact.fits_of_exactly? h, congrArg some (Exact.value_of_exactly? h).symm⟩
    | none =>
      simp only [hconstant] at h
      obtain ⟨v, hv, hx⟩ := Option.bind_eq_some_iff.mp h
      have hvalue : env.source name = some x.value :=
        hv.trans (congrArg some (Exact.value_of_exactly? hx).symm)
      exact ⟨Exact.fits_of_exactly? hx, hvalue⟩

theorem exists_meaning {name : String} (hlookup : env.lookup name = some v)
    (hv : v.exactly?.isSome) : ∃ x, env.meaning? name = some x := by
  obtain ⟨x, hx⟩ := Option.isSome_iff_exists.mp hv
  rw [Env.lookup] at hlookup
  rw [meaning?]
  cases hbuiltin : env.builtin? name with
  | some i => exact ⟨_, rfl⟩
  | none =>
    rw [hbuiltin] at hlookup
    cases hconstant : env.constants.find? name with
    | some w =>
      simp only [hconstant, Option.some.injEq] at hlookup
      exact ⟨x, hlookup ▸ hx⟩
    | none =>
      simp only [hconstant] at hlookup
      exact ⟨x, by simp only [hlookup, Option.bind_some, hx]⟩

theorem exists_evaluates (h : env.isWhole e = true) : ∃ x visits, env.Evaluates e x visits := by
  induction e with
  | literal v =>
    obtain ⟨x, hx⟩ := Option.isSome_iff_exists.mp h
    exact ⟨x, _, .literal hx⟩
  | «variable» name =>
    cases hlookup : env.lookup name with
    | none => exact ⟨_, _, .undefined hlookup⟩
    | some v =>
      rw [isWhole, hlookup] at h
      obtain ⟨x, hx⟩ := exists_meaning hlookup h
      exact ⟨x, _, .defined hx⟩
  | negation e ih =>
    obtain ⟨x, visits, hx⟩ := ih h
    exact ⟨_, _, .negation hx⟩
  | binary op lhs rhs ihl ihr =>
    obtain ⟨hwhole, hwhole'⟩ := Bool.and_eq_true_iff.mp h
    obtain ⟨x, visits, hx⟩ := ihl hwhole
    obtain ⟨y, others, hy⟩ := ihr hwhole'
    cases hdecides : op.decides x with
    | true => exact ⟨_, _, .decided hx hdecides⟩
    | false =>
      obtain ⟨z, fault, hz⟩ := op.exists_gives x y
      exact ⟨z, _, .applied hx hdecides hy hz⟩

namespace Evaluates

/-- What is derived is what is computed. -/
theorem spec (henv : env.Fits) (h : env.Evaluates e x visits) :
    x.Fits ∧ env.eval e = x.value ∧ env.faults e = visits.filterMap Visit.fault := by
  -- That the values of the operands fit carries the induction: only then do they determine what
  -- the operator computes.
  induction h with
  | literal hvalue =>
    exact ⟨Exact.fits_of_exactly? hvalue, (Exact.value_of_exactly? hvalue).symm, rfl⟩
  | defined hmeaning =>
    obtain ⟨hx, hlookup⟩ := henv.lookup hmeaning
    simp [hx, eval, faults, hlookup]
  | undefined hlookup =>
    refine ⟨Exact.fits_zero, ?_, ?_⟩
    · rw [eval, hlookup]
      rfl
    · simp [faults, hlookup]
  | negation hoperand ih =>
    obtain ⟨hx, heval, hfaults⟩ := ih
    simp [eval, faults, heval, hfaults, Exact.truthy_value hx]
  | @decided op lhs rhs x visits hlhs hdecided ih =>
    obtain ⟨hx, heval, hfaults⟩ := ih
    simp [eval, faults, heval, hfaults, op.decidedBy_value hx, hdecided,
      Operator.apply_of_decides hdecided hx]
  | @applied op lhs rhs x y z fault visits others hlhs hopen hrhs hgives ihl ihr =>
    obtain ⟨hx, hxeval, hxfaults⟩ := ihl
    obtain ⟨hy, hyeval, hyfaults⟩ := ihr
    obtain ⟨hz, happly, hfaults⟩ := hgives.spec hx hy
    cases fault <;>
      simp [hz, eval, faults, hxeval, hxfaults, hyeval, hyfaults, op.decidedBy_value hx, hopen,
        happly, hfaults]

/-- An evaluation without a fault gives the exact value. -/
theorem exactly?_of_sound (h : env.Evaluates e x visits)
    (hsound : ∀ visit ∈ visits, visit.fault = none) : env.exactly? e = some x := by
  induction h with
  | literal hvalue => exact hvalue
  | defined hmeaning => exact hmeaning
  | undefined hlookup => cases hsound _ (List.mem_singleton_self _)
  | negation hoperand ih =>
    simp [exactly?, ih fun visit hvisit => hsound visit (List.mem_append_left _ hvisit)]
  | decided hlhs hdecided ih =>
    simp [exactly?, ih fun visit hvisit => hsound visit (List.mem_append_left _ hvisit), hdecided]
  | applied hlhs hopen hrhs hgives ihl ihr =>
    have hx := ihl fun visit hvisit =>
      hsound visit (List.mem_append_left _ (List.mem_append_left _ hvisit))
    have hy := ihr fun visit hvisit =>
      hsound visit (List.mem_append_left _ (List.mem_append_right _ hvisit))
    cases hgives with
    | sound _ hexact => simp [exactly?, hx, hopen, hy, hexact]
    | faulty hfault => cases hsound _ (List.mem_append_right _ (List.mem_singleton_self _))

theorem unique (henv : env.Fits) {others : List Visit} (hx : env.Evaluates e x visits)
    (hy : env.Evaluates e y others) : y = x ∧ others = visits := by
  -- The left operands agree first, and their value tells which rule the second derivation ends in.
  induction hx generalizing y others with
  | literal hvalue =>
    cases hy with
    | literal hvalue' => exact ⟨Option.some.inj (hvalue'.symm.trans hvalue), rfl⟩
  | defined hmeaning =>
    cases hy with
    | defined hmeaning' => exact ⟨Option.some.inj (hmeaning'.symm.trans hmeaning), rfl⟩
    | undefined hlookup => cases hlookup.symm.trans (henv.lookup hmeaning).2
  | undefined hlookup =>
    cases hy with
    | defined hmeaning => cases hlookup.symm.trans (henv.lookup hmeaning).2
    | undefined _ => exact ⟨rfl, rfl⟩
  | negation hoperand ih =>
    cases hy with
    | negation hoperand' =>
      obtain ⟨rfl, rfl⟩ := ih hoperand'
      exact ⟨rfl, rfl⟩
  | decided hlhs hdecided ih =>
    cases hy with
    | decided hlhs' hdecided' =>
      obtain ⟨rfl, rfl⟩ := ih hlhs'
      exact ⟨rfl, rfl⟩
    | applied hlhs' hopen =>
      obtain ⟨rfl, rfl⟩ := ih hlhs'
      cases hopen.symm.trans hdecided
  | applied hlhs hopen hrhs hgives ihl ihr =>
    cases hy with
    | decided hlhs' hdecided =>
      obtain ⟨rfl, rfl⟩ := ihl hlhs'
      cases hopen.symm.trans hdecided
    | applied hlhs' _ hrhs' hgives' =>
      obtain ⟨rfl, rfl⟩ := ihl hlhs'
      obtain ⟨rfl, rfl⟩ := ihr hrhs'
      obtain ⟨rfl, rfl⟩ := hgives.unique hgives' (hlhs.spec henv).1 (hrhs.spec henv).1
      exact ⟨rfl, rfl⟩

end Evaluates

/-- Each expression of integers and truth values has one evaluation, and that is the one that is
computed: its value, kept within thirty-two bits for a count of pixels, and one notice for each
visited node that has a fault. If no node has one, the value is exact. -/
theorem eval_exact_or_reported (henv : env.Fits) (he : env.isWhole e = true) :
    ∃ x visits, env.Evaluates e x visits ∧
      (∀ y others, env.Evaluates e y others → y = x ∧ others = visits) ∧
      x.Fits ∧ env.eval e = x.value ∧
      env.faults e = visits.filterMap Visit.fault ∧ env.evalIntegerFaults e = env.faults e ∧
      env.evalPixels e = max (-2 ^ 31) (min (2 ^ 31 - 1) x.whole) ∧
      ((∀ visit ∈ visits, visit.fault = none) → env.exactly? e = some x ∧ env.faults e = []) := by
  obtain ⟨x, visits, h⟩ := exists_evaluates he
  obtain ⟨hx, heval, hfaults⟩ := h.spec henv
  refine ⟨x, visits, h, fun y others hy => h.unique henv hy, hx, heval, hfaults, ?_, ?_, ?_⟩
  · rw [evalIntegerFaults, heval, x.integerFaults_value, List.append_nil]
  · rw [evalPixels, evalInteger, heval, Exact.asInteger_value hx]
    rfl
  · intro hsound
    exact ⟨h.exactly?_of_sound hsound, hfaults.trans (List.filterMap_eq_nil_iff.mpr hsound)⟩

def onTheWay : Env where
  x := 12
  y := 0
  width := 64
  height := 16
  containerWidth := 128
  containerHeight := 16
  constants := Table.empty.insert "speed" (.int 4)
  source := fun _ => none

/-- The expression
`widget.x % 0 == 0 && 9223372036854775807 + speed < missing + true * 2 || true < 1`. -/
def mistaken : Expr :=
  let remainder : Expr := .binary (.arithmetic .rem) (.variable "widget.x") (.int 0)
  let sum : Expr := .binary (.arithmetic .add) (.int 9223372036854775807) (.variable "speed")
  let product : Expr := .binary (.arithmetic .mul) (.literal (.bool true)) (.int 2)
  let comparison : Expr :=
    .binary (.comparison .lt) sum (.binary (.arithmetic .add) (.variable "missing") product)
  .binary .or (.binary .and (.binary .equal remainder (.int 0)) comparison)
    (.binary (.comparison .lt) (.literal (.bool true)) (.int 1))

/-- The expression `speed < 4 && 1 / 0 == 0 || -7 / 2 == -3`, whose zero divisor is not reached. -/
def guarded : Expr :=
  let unreached : Expr := .binary .equal (.binary (.arithmetic .div) (.int 1) (.int 0)) (.int 0)
  let quotient : Expr := .binary (.arithmetic .div) (.int (-7)) (.int 2)
  .binary .or (.binary .and (.binary (.comparison .lt) (.variable "speed") (.int 4)) unreached)
    (.binary .equal quotient (.int (-3)))

theorem eval_exact_or_reported_onTheWay :
    (∃ x visits, onTheWay.Evaluates mistaken x visits ∧ x.value = .bool false ∧
      visits.filterMap Visit.fault =
        [.integerDivisionByZero .rem 12, .integerOverflow .add 9223372036854775807 4,
          .undefinedVariable "missing", .typeMismatch .mul (.bool true) (.int 2),
          .incomparable .lt (.bool true) (.int 1)]) ∧
    ∃ visits, onTheWay.Evaluates guarded (.bool true) visits ∧
      (∀ visit ∈ visits, visit.fault = none) ∧ onTheWay.evalPixels guarded = 1 := by
  have hfits : onTheWay.Fits :=
    ⟨by decide, by decide, by decide, by decide, by decide, by decide⟩
  obtain ⟨x, visits, h, -, -, heval, hfaults, -⟩ :=
    eval_exact_or_reported hfits (e := mistaken) (by decide +kernel)
  obtain ⟨y, others, h', -, -, -, hfaults', -, -, hexact⟩ :=
    eval_exact_or_reported hfits (e := guarded) (by decide +kernel)
  have hsound : ∀ visit ∈ others, visit.fault = none :=
    List.filterMap_eq_nil_iff.mp (hfaults'.symm.trans (by decide +kernel))
  have hguarded : onTheWay.exactly? guarded = some (.bool true) := by decide +kernel
  obtain rfl : .bool true = y := Option.some.inj (hguarded.symm.trans (hexact hsound).1)
  exact ⟨⟨x, visits, h, heval.symm.trans (by decide +kernel),
    hfaults.symm.trans (by decide +kernel)⟩, others, h', hsound, by decide +kernel⟩

end Env
end Choreography
