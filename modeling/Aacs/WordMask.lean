import Mathlib.Data.Nat.Bitwise

/-!
# Masks of 32-bit words

A mask whose low bits are clear keeps the bits of a word from a level on.
-/
namespace WordMask

/-- The mask with `k` zero bits, none set from 32 on. -/
def highMask (k : Nat) : UInt32 := if 32 ≤ k then 0 else 0xFFFFFFFF <<< UInt32.ofNat k

theorem toUInt32_eq_ofNat (b : UInt8) : b.toUInt32 = UInt32.ofNat b.toNat := by
  rw [← UInt32.toNat_inj, UInt8.toNat_toUInt32, UInt32.toNat_ofNat_of_lt'
    (b.toNat_lt.trans (by decide))]

theorem eq_iff_testBit {a b : UInt32} :
    a = b ↔ ∀ j < 32, a.toNat.testBit j = b.toNat.testBit j := by
  constructor
  · intro h j _
    rw [h]
  · intro h
    rw [← UInt32.toNat_inj]
    apply Nat.eq_of_testBit_eq
    intro j
    by_cases hj : j < 32
    · exact h j hj
    · have hpow : 2 ^ 32 ≤ 2 ^ j := Nat.pow_le_pow_right (by decide) (Nat.not_lt.mp hj)
      rw [Nat.testBit_lt_two_pow (a.toNat_lt.trans_le hpow),
        Nat.testBit_lt_two_pow (b.toNat_lt.trans_le hpow)]

theorem testBit_highMask (k : Nat) {j : Nat} (hj : j < 32) :
    (highMask k).toNat.testBit j = decide (k ≤ j) := by
  rw [highMask]
  by_cases hk : 32 ≤ k
  · have hjk : ¬k ≤ j := by omega
    rw [if_pos hk, UInt32.toNat_zero, Nat.zero_testBit, decide_eq_false hjk]
  · have hones : (0xFFFFFFFF : UInt32).toNat = 2 ^ 32 - 1 := rfl
    have hplace : (UInt32.ofNat k).toNat % 32 = k := by
      rw [UInt32.toNat_ofNat_of_lt' (Nat.lt_trans (Nat.not_le.mp hk) (by decide)),
        Nat.mod_eq_of_lt (Nat.not_le.mp hk)]
    rw [if_neg hk, UInt32.toNat_shiftLeft, hplace, hones, Nat.testBit_mod_two_pow,
      Nat.testBit_shiftLeft, Nat.testBit_two_pow_sub_one, decide_eq_true hj, Bool.true_and]
    by_cases hkj : k ≤ j
    · have hlt : j - k < 32 := by omega
      simp [hkj, hlt]
    · simp [hkj]

theorem highMask_zero : highMask 0 = 0xFFFFFFFF := by decide

/-- Two words agree under a mask when they agree from its level on. -/
theorem and_highMask_eq_iff (a b : UInt32) (k : Nat) :
    a &&& highMask k = b &&& highMask k ↔ ∀ j < 32, k ≤ j → a.toNat.testBit j =
      b.toNat.testBit j := by
  rw [eq_iff_testBit]
  apply forall₂_congr
  intro j hj
  rw [UInt32.toNat_and, UInt32.toNat_and, Nat.testBit_and, Nat.testBit_and, testBit_highMask k hj]
  by_cases hk : k ≤ j <;> simp [hk]

theorem highMask_shiftLeft_one (k : Nat) : highMask k <<< 1 = highMask (k + 1) := by
  rw [eq_iff_testBit]
  intro j hj
  have hone : (1 : UInt32).toNat % 32 = 1 := by decide
  rw [UInt32.toNat_shiftLeft, hone, Nat.testBit_mod_two_pow, Nat.testBit_shiftLeft,
    decide_eq_true hj, Bool.true_and, testBit_highMask (k + 1) hj]
  by_cases hpos : 1 ≤ j
  · rw [decide_eq_true hpos, Bool.true_and, testBit_highMask k (by omega)]
    exact decide_eq_decide.mpr (by omega)
  · rw [decide_eq_false hpos, Bool.false_and, decide_eq_false (by omega)]

theorem testBit_not (m : UInt32) {j : Nat} (hj : j < 32) :
    (~~~m).toNat.testBit j = !m.toNat.testBit j := by
  have hnot : (~~~m).toNat = 2 ^ 32 - (m.toNat + 1) := by
    rw [UInt32.toNat_not, UInt32.size]
    omega
  rw [hnot, Nat.testBit_two_pow_sub_succ m.toNat_lt, decide_eq_true hj, Bool.true_and]

/-- No bit is left outside a mask when the bits below its level are clear. -/
theorem and_not_highMask_eq_zero_iff (a : UInt32) (k : Nat) :
    a &&& ~~~highMask k = 0 ↔ ∀ j < 32, j < k → a.toNat.testBit j = false := by
  rw [eq_iff_testBit]
  apply forall₂_congr
  intro j hj
  rw [UInt32.toNat_and, Nat.testBit_and, testBit_not _ hj, testBit_highMask k hj, UInt32.toNat_zero,
    Nat.zero_testBit]
  by_cases hk : k ≤ j
  · have hjk : ¬j < k := by omega
    simp [hk, hjk]
  · have hjk : j < k := by omega
    simp [hk, hjk]

structure LowestOne (x : UInt32) (z : Nat) : Prop where
  one : x.toNat.testBit z = true
  zeros : ∀ j < z, x.toNat.testBit j = false

theorem LowestOne.lt {x : UInt32} {z : Nat} (h : LowestOne x z) : z < 32 := by
  by_contra hz
  have hpow : 2 ^ 32 ≤ 2 ^ z := Nat.pow_le_pow_right (by decide) (Nat.not_lt.mp hz)
  have hclear := Nat.testBit_lt_two_pow (x.toNat_lt.trans_le hpow)
  rw [h.one] at hclear
  cases hclear

end WordMask
