import Aacs.EcField

/-!
# Field and scalar arithmetic as arithmetic of residues

Every operation on field elements and scalars gives the canonical representative
of the operation on residues, and the subtracting loops end.
-/
namespace Ec

open U160

/-- `while v >= m { v -= m }` ends at `r` after `k` turns. -/
inductive Subtracts (m : U160) : U160 → Nat → U160 → Prop where
  | done {v : U160} : v.cmp m = .lt → Subtracts m v 0 v
  | turn {v r : U160} {k : Nat} : v.cmp m ≠ .lt → Subtracts m (v.sbb m).1 k r →
    Subtracts m v (k + 1) r

theorem subtracts_reduceLoop (m : U160) (hm : 0 < m.toNat) (v : U160) :
    Subtracts m v (v.toNat / m.toNat) (reduceLoop m hm v) := by
  induction v using reduceLoop.induct m hm with
  | case1 v h =>
    rw [reduceLoop, if_pos h, Nat.div_eq_of_lt (cmp_eq_lt.mp h)]
    exact .done h
  | case2 v h ih =>
    have hle : m.toNat ≤ v.toNat := by
      rw [cmp_eq_lt] at h
      exact Nat.not_lt.mp h
    rw [sbb_of_le hle] at ih
    rw [reduceLoop, if_neg h, Nat.div_eq_sub_div hm hle]
    exact .turn h ih

theorem two_pow_lt_fieldPrime : 2 ^ 160 < 2 * fieldPrime := by decide +kernel

theorem two_pow_lt_groupOrder : 2 ^ 160 < 2 * groupOrder := by decide +kernel

/-- A modulus above `2^159` is subtracted at most once. -/
theorem div_le_one {m : Nat} (hm : 2 ^ 160 < 2 * m) (v : U160) : v.toNat / m ≤ 1 := by
  have hlt := v.toNat_lt
  exact Nat.lt_succ_iff.mp (Nat.div_lt_of_lt_mul (by omega))

/-- A reduced number is the representative of its residue. -/
theorem val_natCast_of_lt {m k : Nat} (h : k < m) : k = (k : ZMod m).val :=
  (ZMod.val_natCast_of_lt h).symm

theorem fp_eq_val {a : Fp} {x : ZMod fieldPrime} (h : a.toZMod = x) : a.value.toNat = x.val := by
  have hlt := a.reduced
  rw [P_toNat] at hlt
  rw [← h]
  exact val_natCast_of_lt hlt

theorem scalar_eq_val {v : U160} {x : ZMod groupOrder} (hlt : v.toNat < groupOrder)
    (h : toScalar v = x) :
    v.toNat = x.val := by
  rw [← h]
  exact val_natCast_of_lt hlt

theorem scalarAdd_lt (a b : U160) : (scalarAdd a b).toNat < groupOrder := by
  rw [scalarAdd]
  by_cases h : (a.adc b).2 = 1
  · simp only [h, if_true]
    exact scalarReduce_lt _
  · simp only [h, if_false]
    exact scalarReduce_lt _

/-- Every turn of the ladder ends in a multiplication, which is reduced. -/
theorem scalarPow_lt (base exp : U160) : (scalarPow base exp).toNat < groupOrder := by
  have hone : U160.one.toNat < groupOrder := groupOrder_prime.one_lt
  rw [scalarPow]
  apply Ladder.msbFold_invariant (fun result : U160 => result.toNat < groupOrder) _ _ _ _ _ hone
  intro result b _
  dsimp only
  by_cases hb : b = true
  · rw [if_pos hb]
    exact scalarMul_lt _ _
  · rw [if_neg hb]
    exact scalarMul_lt _ _

theorem scalarInv_lt (a : U160) : (scalarInv a).toNat < groupOrder := by
  rw [scalarInv]
  by_cases h : a.isZero = true
  · rw [if_pos h]
    exact groupOrder_prime.pos
  · rw [if_neg h]
    exact scalarPow_lt _ _

theorem toScalar_ne_zero {a : U160} (hlt : a.toNat < groupOrder) (ha : a.toNat ≠ 0) :
    toScalar a ≠ 0 := by
  rw [Ne, toScalar_eq_zero hlt]
  exact ha

theorem fp_mul_inv {a : Fp} (ha : a ≠ Fp.zero) : a.mul a.inv = Fp.one := by
  have hne : a.toZMod ≠ 0 := by
    rw [← Fp.toZMod_zero]
    exact fun h => ha (Fp.toZMod_inj.mp h)
  rw [← Fp.toZMod_inj, Fp.toZMod_mul, Fp.toZMod_inv, Fp.toZMod_one, mul_inv_cancel₀ hne]

theorem scalarMul_inv {a : U160} (hlt : a.toNat < groupOrder) (ha : a.toNat ≠ 0) :
    scalarMul a (scalarInv a) = U160.one := by
  have hne := toScalar_ne_zero hlt ha
  have hval := scalar_eq_val (scalarMul_lt a (scalarInv a)) (x := 1) (by
    rw [toScalar_mul, toScalar_inv a hne, mul_inv_cancel₀ hne])
  rw [ZMod.val_one] at hval
  exact toNat_inj.mp hval

/-- Every operation on reduced inputs gives the canonical representative of the operation
modulo `p` or `n`, and reduction ends, after one turn at most, with that of its argument. -/
theorem residue_arithmetic :
    (∀ a b : Fp, (a.add b).value.toNat = (a.toZMod + b.toZMod).val ∧
      (a.sub b).value.toNat = (a.toZMod - b.toZMod).val ∧
      (a.mul b).value.toNat = (a.toZMod * b.toZMod).val) ∧
    (∀ a : Fp, a.neg.value.toNat = (-a.toZMod).val ∧ a.square.value.toNat = (a.toZMod ^ 2).val ∧
      (∀ exp : U160, (a.pow exp).value.toNat = (a.toZMod ^ exp.toNat).val) ∧
      a.inv.value.toNat = (a.toZMod⁻¹).val ∧ (a ≠ Fp.zero → a.mul a.inv = Fp.one)) ∧
    (∀ a b : U160, a.toNat < groupOrder → b.toNat < groupOrder →
      (scalarAdd a b).toNat = (toScalar a + toScalar b).val ∧
      (scalarMul a b).toNat = (toScalar a * toScalar b).val) ∧
    (∀ a : U160, a.toNat < groupOrder → a.toNat ≠ 0 →
      (scalarInv a).toNat = ((toScalar a)⁻¹).val ∧ scalarMul a (scalarInv a) = U160.one) ∧
    ∀ v : U160, (∃ k ≤ 1, Subtracts P v k (Fp.fromU160 v).value) ∧
      (Fp.fromU160 v).value.toNat = (v.toNat : ZMod fieldPrime).val ∧
      (∃ k ≤ 1, Subtracts N v k (scalarReduce v)) ∧
      (scalarReduce v).toNat = (v.toNat : ZMod groupOrder).val := by
  refine ⟨?_, ?_, ?_, ?_, ?_⟩
  · intro a b
    exact ⟨fp_eq_val (Fp.toZMod_add a b), fp_eq_val (Fp.toZMod_sub a b),
      fp_eq_val (Fp.toZMod_mul a b)⟩
  · intro a
    exact ⟨fp_eq_val (Fp.toZMod_neg a), fp_eq_val (Fp.toZMod_square a),
      fun exp => fp_eq_val (Fp.toZMod_pow a exp), fp_eq_val (Fp.toZMod_inv a), fp_mul_inv⟩
  · intro a b ha hb
    exact ⟨scalar_eq_val (scalarAdd_lt a b) (toScalar_add ha hb),
      scalar_eq_val (scalarMul_lt a b) (toScalar_mul a b)⟩
  · intro a hlt ha
    exact ⟨scalar_eq_val (scalarInv_lt a) (toScalar_inv a (toScalar_ne_zero hlt ha)),
      scalarMul_inv hlt ha⟩
  · intro v
    have hP := subtracts_reduceLoop P P_pos v
    have hN := subtracts_reduceLoop N N_pos v
    rw [P_toNat] at hP
    rw [N_toNat] at hN
    exact ⟨⟨_, div_le_one two_pow_lt_fieldPrime v, hP⟩, fp_eq_val (Fp.toZMod_fromU160 v),
      ⟨_, div_le_one two_pow_lt_groupOrder v, hN⟩, scalar_eq_val (scalarReduce_lt v)
        (toScalar_reduce v)⟩

/-- `1 + 1` and the inverse of one, as the general statement gives them. -/
theorem residue_arithmetic_one :
    (scalarAdd U160.one U160.one).toNat = (toScalar U160.one + toScalar U160.one).val ∧
      scalarMul U160.one (scalarInv U160.one) = U160.one ∧ Fp.one.mul Fp.one.inv = Fp.one := by
  have hlt : U160.one.toNat < groupOrder := groupOrder_prime.one_lt
  obtain ⟨-, hunary, hscalar, hinv, -⟩ := residue_arithmetic
  have hone : Fp.one ≠ Fp.zero := by
    intro h
    have hval := congrArg (fun a : Fp => a.value.toNat) h
    exact absurd hval (by decide)
  exact ⟨(hscalar _ _ hlt hlt).1, (hinv _ hlt (by decide)).2, (hunary _).2.2.2.2 hone⟩

end Ec
