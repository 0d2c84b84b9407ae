import Mathlib.Algebra.Field.ZMod
import Mathlib.Algebra.Polynomial.Div
import Mathlib.Algebra.Polynomial.Monic
import Mathlib.Data.ZMod.Basic

/-!
# Doubling in a binary field

The bits of a word are the coefficients of a polynomial over `GF(2)`, the least
significant one first. A word is doubled by a shift, and by one exclusive or
where the shift loses a bit: that multiplies by `X` modulo `X ^ w + r`.
-/
namespace BinaryField

open Polynomial

variable {w : Nat}

/-- The polynomial whose coefficients are the bits of `v`. -/
noncomputable def poly (v : BitVec w) : (ZMod 2)[X] :=
  ∑ i ∈ Finset.range w, if v.getLsbD i then X ^ i else 0

/-- Double `v`: `r` holds the lower terms of the modulus. -/
def double (r v : BitVec w) : BitVec w := if v.msb then (v <<< 1) ^^^ r else v <<< 1

theorem coeff_poly (v : BitVec w) (d : Nat) : (poly v).coeff d = if v.getLsbD d then 1 else 0 := by
  have hterm (i : Nat) : (if v.getLsbD i then (X : (ZMod 2)[X]) ^ i else 0).coeff d =
      if i = d then (if v.getLsbD d then 1 else 0) else 0 := by
    by_cases hi : i = d
    · rw [hi, if_pos rfl]
      cases v.getLsbD d <;> simp
    · rw [if_neg hi]
      cases v.getLsbD i <;> simp [coeff_X_pow, Ne.symm hi]
  rw [poly, finsetSum_coeff, Finset.sum_congr rfl fun i _ => hterm i, Finset.sum_ite_eq']
  by_cases hd : d < w
  · rw [if_pos (Finset.mem_range.mpr hd)]
  · rw [if_neg (by simpa using hd), BitVec.getLsbD_of_ge v d (Nat.le_of_not_lt hd),
      if_neg Bool.false_ne_true]

theorem degree_poly_lt (v : BitVec w) : (poly v).degree < w := by
  rw [degree_lt_iff_coeff_zero]
  intro d hd
  rw [coeff_poly, BitVec.getLsbD_of_ge v d hd, if_neg Bool.false_ne_true]

theorem poly_xor (a b : BitVec w) : poly (a ^^^ b) = poly a + poly b := by
  have htwo : (1 : ZMod 2) + 1 = 0 := rfl
  ext d
  rw [coeff_add, coeff_poly, coeff_poly, coeff_poly, BitVec.getLsbD_xor]
  cases a.getLsbD d <;> cases b.getLsbD d <;> simp [htwo]

/-- A single bit is a power of `X`. -/
theorem poly_twoPow {i : Nat} (hi : i < w) : poly (BitVec.twoPow w i) = X ^ i := by
  ext d
  rw [coeff_poly, coeff_X_pow, BitVec.getLsbD_twoPow]
  by_cases hd : i = d
  · simp [← hd, hi]
  · simp [hd, Ne.symm hd]

/-- The shift multiplies by `X`, but for the bit it loses. -/
theorem X_mul_poly (v : BitVec w) : X * poly v = poly (v <<< 1) + if v.msb then X ^ w else 0 := by
  have hcoeff (d : Nat) : (if v.msb then (X : (ZMod 2)[X]) ^ w else 0).coeff d =
      if d = w ∧ v.msb then 1 else 0 := by
    cases hmsb : v.msb <;> simp [coeff_X_pow]
  ext d
  rw [coeff_add, hcoeff, coeff_poly, BitVec.getLsbD_shiftLeft]
  cases d with
  | zero =>
    rw [mul_coeff_zero, coeff_X_zero, zero_mul]
    by_cases hw : w = 0
    · subst hw
      simp [BitVec.msb]
    · simp [Ne.symm hw]
  | succ d =>
    rw [coeff_X_mul, coeff_poly]
    by_cases hd : d + 1 < w
    · simp [hd, hd.ne]
    · by_cases heq : d + 1 = w
      · subst heq
        simp [BitVec.msb_eq_getLsbD_last]
      · have hge : w ≤ d := by omega
        simp [hd, heq, BitVec.getLsbD_of_ge v d hge]

/-- Doubling is multiplication by `X` in `GF(2)[X] / (X ^ w + r)`. -/
theorem poly_double (r v : BitVec w) : poly (double r v) = (X * poly v) %ₘ (X ^ w + poly r) := by
  have hmonic : (X ^ w + poly r : (ZMod 2)[X]).Monic := monic_X_pow_add (degree_poly_lt r)
  have hdegree : (X ^ w + poly r : (ZMod 2)[X]).degree = w := by
    rw [degree_add_eq_left_of_degree_lt, degree_X_pow]
    rw [degree_X_pow]
    exact degree_poly_lt r
  have hself : poly r + poly r = 0 := by rw [← poly_xor, BitVec.xor_self]; simp [poly]
  apply Eq.symm
  refine (div_modByMonic_unique (if v.msb then 1 else 0) _ hmonic ⟨?_, ?_⟩).2
  · rw [X_mul_poly, double]
    cases v.msb with
    | false => simp
    | true =>
      rw [if_pos rfl, if_pos rfl, if_pos rfl, poly_xor, mul_one, add_assoc, ← add_assoc (poly r),
        add_comm (poly r), add_assoc (X ^ w), hself, add_zero]
  · rw [hdegree]
    exact degree_poly_lt _

end BinaryField
