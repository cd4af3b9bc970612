import Choreography.Evaluation
import Mathlib.Algebra.Group.Int.Defs
import Mathlib.Algebra.Group.Nat.Defs

/-! # Machine integers

What has a given number of bits stays as it is where integers are limited or wrapped around, and every
integer that an expression stands for has sixty-four bits. -/
namespace Choreography

variable {bits : Nat} {i : Int}

theorem isSigned_iff (bits : Nat) (i : Int) :
    isSigned (bits + 1) i = true ↔ -2 ^ bits ≤ i ∧ i < 2 ^ bits := by
  rw [isSigned, Bool.and_eq_true, decide_eq_true_eq, decide_eq_true_eq]
  simp only [signedRange, Nat.add_sub_cancel, Nat.one_shiftLeft, Int.natCast_pow, Int.cast_ofNat_Int]
  omega

theorem clampSigned_of_isSigned (h : isSigned bits i = true) : clampSigned bits i = i := by
  simp only [isSigned, Bool.and_eq_true, decide_eq_true_eq] at h
  simp only [clampSigned]
  omega

theorem wrapSigned_of_isSigned (h : isSigned (bits + 1) i = true) :
    wrapSigned (bits + 1) i = i := by
  obtain ⟨hlow, hhigh⟩ := (isSigned_iff bits i).mp h
  have htwice : ((1 <<< (bits + 1) : Nat) : Int) = 2 * 2 ^ bits := by
    rw [Nat.one_shiftLeft, Int.natCast_pow, Int.cast_ofNat_Int, Int.pow_succ, Int.mul_comm]
  exact Int.bmod_eq_of_le (by omega) (by omega)

/-- Only the sum of wrapped integers matters to where it wraps around to. -/
theorem wrapSigned_add_mul_wrapSigned (bits : Nat) (a b c : Int) :
    wrapSigned bits (a + b * wrapSigned bits c) = wrapSigned bits (a + b * c) := by
  rw [wrapSigned, ← Int.add_bmod_bmod]
  simp only [wrapSigned, Int.mul_bmod_bmod, Int.add_bmod_bmod]

theorem wrapUnsigned_of_lt {n : Nat} (h : n < 2 ^ bits) : wrapUnsigned bits n = n := by
  rw [wrapUnsigned, Nat.one_shiftLeft]
  exact Nat.mod_eq_of_lt h

/-! ### Values -/

theorem Binary64.isSigned_truncate (x : Binary64) : isSigned 64 x.truncate = true := by
  have hbounds : -9223372036854775808 ≤ x.truncate ∧ x.truncate ≤ 9223372036854775807 := by
    simp only [truncate]
    split
    · decide
    · split
      · split <;> decide
      · omega
  exact (isSigned_iff 63 _).mpr ⟨hbounds.1, Int.lt_add_one_of_le hbounds.2⟩

namespace Value

theorem isSigned_toInt (i : Int64) : isSigned 64 i.toInt = true :=
  (isSigned_iff 63 _).mpr ⟨i.le_toInt, i.toInt_lt⟩

theorem isSigned_asInteger (v : Value) : isSigned 64 v.asInteger = true := by
  cases v with
  | bool b => cases b <;> decide
  | int i => exact isSigned_toInt i
  | float x => exact x.isSigned_truncate
  | str s =>
    cases h : integerText? (Blank.trim s.toList) with
    | none => simp only [asInteger, integer?, h, Option.getD_none]; decide
    | some i =>
      simp only [asInteger, integer?, h, Option.getD_some]
      exact (Option.filter_eq_some_iff.mp h).2

end Value

theorem Env.isSigned_evalInteger (env : Env) (e : Expr) :
    isSigned 64 (env.evalInteger e) = true := (env.eval e).isSigned_asInteger

end Choreography
