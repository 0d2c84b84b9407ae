import Aacs.Bytes
import Aacs.Limbs
import Aacs.Ladder

/-!
# 160-bit integers, the field `GF(p)` and scalars modulo `n`

Numbers are five 32-bit limbs. Reduction is the generic one: subtract the
modulus while the value is not below it, or long division bit by bit for a
320-bit product. Each operation is specified by the natural number `toNat` it
produces.
-/

/-- A 160-bit unsigned integer, least significant limb first. -/
@[ext] structure U160 where
  limbs : List UInt32
  length_limbs : limbs.length = 5
  deriving DecidableEq

namespace U160

def toNat (v : U160) : Nat := Limbs.value v.limbs

theorem toNat_lt (v : U160) : v.toNat < 2 ^ 160 := by
  simpa [toNat, v.length_limbs] using Limbs.value_lt v.limbs

theorem toNat_inj {a b : U160} : a.toNat = b.toNat ↔ a = b := by
  constructor
  · intro h
    exact U160.ext (Limbs.value_inj (by rw [a.length_limbs, b.length_limbs]) h)
  · exact congrArg toNat

def ofLimbs (l₀ l₁ l₂ l₃ l₄ : UInt32) : U160 := ⟨[l₀, l₁, l₂, l₃, l₄], rfl⟩

@[simp] theorem toNat_ofLimbs (l₀ l₁ l₂ l₃ l₄ : UInt32) : (ofLimbs l₀ l₁ l₂ l₃ l₄).toNat =
    l₀.toNat + 2 ^ 32 *
      (l₁.toNat + 2 ^ 32 * (l₂.toNat + 2 ^ 32 * (l₃.toNat + 2 ^ 32 * l₄.toNat))) := by
  simp [toNat, ofLimbs]

def zero : U160 := ofLimbs 0 0 0 0 0

def one : U160 := ofLimbs 1 0 0 0 0

@[simp] theorem toNat_zero : zero.toNat = 0 := rfl
@[simp] theorem toNat_one : one.toNat = 1 := rfl

def cmp (a b : U160) : Ordering := Limbs.cmp a.limbs b.limbs

theorem cmp_eq_compare (a b : U160) : a.cmp b = compare a.toNat b.toNat :=
  Limbs.cmp_spec _ _ (by rw [a.length_limbs, b.length_limbs])

theorem cmp_eq_lt {a b : U160} : a.cmp b = .lt ↔ a.toNat < b.toNat := by
  rw [cmp_eq_compare, compare_lt_iff_lt]

/-- Limb `i` covers the big-endian bytes from `16 - 4 * i` on. -/
def fromBeBytes (b : Bytes 20) : U160 :=
  ⟨List.ofFn fun i : Fin 5 =>
    let off := 16 - 4 * i.val
    u32FromBe (b.get ⟨off, by omega⟩) (b.get ⟨off + 1, by omega⟩) (b.get ⟨off + 2, by omega⟩)
      (b.get ⟨off + 3, by omega⟩), List.length_ofFn⟩

theorem length_flatMap_u32ToBe (xs : List UInt32) :
    (xs.flatMap u32ToBe).length = 4 * xs.length := by
  simp [List.length_flatMap, u32ToBe, Nat.mul_comm]

def toBeBytes (v : U160) : Bytes 20 :=
  ⟨v.limbs.reverse.flatMap u32ToBe, by
    rw [length_flatMap_u32ToBe, List.length_reverse, v.length_limbs]⟩

theorem fromBeBytes_toNat (b : Bytes 20) : (fromBeBytes b).toNat = beNat b.toList := by
  obtain ⟨l, hl⟩ := b
  match l, hl with
  | [b₀, b₁, b₂, b₃, b₄, b₅, b₆, b₇, b₈, b₉, b₁₀, b₁₁, b₁₂, b₁₃, b₁₄, b₁₅, b₁₆, b₁₇, b₁₈, b₁₉], _ =>
    simp only [toNat, fromBeBytes, List.ofFn_succ, List.ofFn_zero, Limbs.value_cons,
      Limbs.value_nil, u32FromBe_toNat, beNat, List.foldl_cons, List.foldl_nil, Bytes.get]
    simp
    ring

theorem beNat_limbs (xs : List UInt32) : beNat (xs.reverse.flatMap u32ToBe) = Limbs.value xs := by
  induction xs with
  | nil => rfl
  | cons x xs ih =>
    rw [List.reverse_cons, List.flatMap_append, beNat_append, ih, Limbs.value_cons,
      List.flatMap_singleton, beNat_u32ToBe]
    simp [u32ToBe]
    ring

theorem toBeBytes_toNat (v : U160) : beNat v.toBeBytes.toList = v.toNat := beNat_limbs v.limbs

@[simp] theorem fromBeBytes_toBeBytes (v : U160) : fromBeBytes v.toBeBytes = v := by
  rw [← toNat_inj, fromBeBytes_toNat, toBeBytes_toNat]

@[simp] theorem toBeBytes_fromBeBytes (b : Bytes 20) : (fromBeBytes b).toBeBytes = b := by
  apply Bytes.ext
  apply beNat_inj (by simp)
  rw [toBeBytes_toNat, fromBeBytes_toNat]

def isZero (v : U160) : Bool := v.limbs == [0, 0, 0, 0, 0]

theorem isZero_iff {v : U160} : v.isZero = true ↔ v.toNat = 0 := by
  rw [isZero, beq_iff_eq, ← toNat_zero, toNat_inj, U160.ext_iff]
  rfl

def bit (v : U160) (i : Nat) : Bool :=
  if i ≥ 160 then false else Limbs.bit v.limbs i

def bitLen (v : U160) : Nat := Limbs.bitLen v.limbs

theorem bit_eq (v : U160) (i : Nat) : v.bit i = v.toNat.testBit i := by
  rw [bit, Limbs.bit_spec]
  split
  · next h =>
    exact (Nat.testBit_lt_two_pow (Nat.lt_of_lt_of_le v.toNat_lt
      (Nat.pow_le_pow_right (by decide) h))).symm
  · rfl

theorem bitLen_eq (v : U160) : v.bitLen = v.toNat.size := Limbs.bitLen_spec v.limbs

/-- `(sum mod 2^160, carry_out)`. -/
def adc (a b : U160) : U160 × UInt32 :=
  let r := Limbs.adc a.limbs b.limbs 0
  (⟨r.1, by
    have h := Limbs.adc_spec a.limbs b.limbs 0 (by rw [a.length_limbs, b.length_limbs]) (by simp)
    rw [h.1, a.length_limbs]⟩, r.2.toUInt32)

/-- `(diff mod 2^160, borrow_out)`. -/
def sbb (a b : U160) : U160 × UInt32 :=
  let r := Limbs.sbb a.limbs b.limbs 0
  (⟨r.1, by
    have h := Limbs.sbb_spec a.limbs b.limbs 0 (by rw [a.length_limbs, b.length_limbs]) (.inl rfl)
    rw [h.1, a.length_limbs]⟩, UInt32.ofNat r.2.toNat)

theorem adc_spec (a b : U160) :
    (a.adc b).2.toNat ≤ 1 ∧ (a.adc b).1.toNat + 2 ^ 160 *
    (a.adc b).2.toNat = a.toNat + b.toNat := by
  obtain ⟨-, hc, hv⟩ := Limbs.adc_spec a.limbs b.limbs 0 (by rw [a.length_limbs, b.length_limbs])
    (by simp)
  have hcarry : (a.adc b).2.toNat = (Limbs.adc a.limbs b.limbs 0).2.toNat := by
    rw [adc, UInt64.toNat_toUInt32]
    omega
  have hsum : (a.adc b).1.toNat = Limbs.value (Limbs.adc a.limbs b.limbs 0).1 := rfl
  rw [a.length_limbs] at hv
  refine ⟨by omega, ?_⟩
  rw [hcarry, hsum]
  simpa [toNat] using hv

theorem sbb_spec (a b : U160) :
    (a.sbb b).2.toNat ≤ 1 ∧ (a.sbb b).1.toNat + b.toNat = a.toNat + 2 ^ 160 *
    (a.sbb b).2.toNat := by
  obtain ⟨-, hb, hv⟩ := Limbs.sbb_spec a.limbs b.limbs 0 (by rw [a.length_limbs, b.length_limbs])
    (.inl rfl)
  rw [a.length_limbs] at hv
  have hdiff : (a.sbb b).1.toNat = Limbs.value (Limbs.sbb a.limbs b.limbs 0).1 := rfl
  have hborrow : (a.sbb b).2.toNat = (Limbs.sbb a.limbs b.limbs 0).2.toNat := by
    rcases hb with h | h <;> simp [sbb, h]
  rw [hdiff, hborrow]
  simp only [toNat]
  omega

theorem carry_eq_one {c : UInt32} : c = 1 ↔ c.toNat = 1 := by
  rw [← UInt32.toNat_inj]
  rfl

theorem sbb_of_le {a b : U160} (h : b.toNat ≤ a.toNat) : (a.sbb b).1.toNat = a.toNat - b.toNat := by
  have hs := sbb_spec a b
  have hlt := (a.sbb b).1.toNat_lt
  have ha := a.toNat_lt
  omega

end U160

namespace Ec

open U160

/-- `while v >= m { v -= m }`. -/
def reduceLoop (m : U160) (hm : 0 < m.toNat) (v : U160) : U160 :=
  if v.cmp m = .lt then v else reduceLoop m hm (v.sbb m).1
termination_by v.toNat
decreasing_by
  rename_i h
  rw [cmp_eq_lt, Nat.not_lt] at h
  rw [sbb_of_le h]
  omega

theorem reduceLoop_toNat (m : U160) (hm : 0 < m.toNat) (v : U160) :
    (reduceLoop m hm v).toNat = v.toNat % m.toNat := by
  induction v using reduceLoop.induct m hm with
  | case1 v h =>
    rw [reduceLoop, if_pos h]
    exact (Nat.mod_eq_of_lt (cmp_eq_lt.mp h)).symm
  | case2 v h ih =>
    rw [reduceLoop, if_neg h, ih]
    rw [cmp_eq_lt, Nat.not_lt] at h
    rw [sbb_of_le h, ← Nat.mod_eq_sub_mod h]

/-- `limbs[0] |= w`. -/
def orLow : List UInt32 → UInt32 → List UInt32
  | [], _ => []
  | x :: xs, w => (x ||| w) :: xs

theorem orLow_shl1 (xs : List UInt32) (w : UInt32) (hxs : xs ≠ []) :
    orLow (Limbs.shl1 xs 0).1 w = (Limbs.shl1 xs w).1 ∧
      (Limbs.shl1 xs 0).2 = (Limbs.shl1 xs w).2 := by
  cases xs with
  | nil => exact absurd rfl hxs
  | cons x xs => simp [Limbs.shl1, orLow]

theorem length_orLow (xs : List UInt32) (w : UInt32) : (orLow xs w).length = xs.length := by
  cases xs <;> rfl

def bitWord (b : Bool) : UInt32 := if b then 1 else 0

theorem bitWord_toNat (b : Bool) : (bitWord b).toNat = b.toNat := by
  cases b <;> rfl

/-- Shift the next bit of the dividend in, and subtract the modulus if it fits. -/
def reduceStep (m rem : U160) (wbit : Bool) : U160 :=
  let shifted := Limbs.shl1 rem.limbs 0
  let rem' : U160 := ⟨orLow shifted.1 (bitWord wbit), by
    have h := Limbs.shl1_spec rem.limbs 0 (by simp)
    rw [length_orLow, h.1, rem.length_limbs]⟩
  if shifted.2 = 1 ∨ rem'.cmp m ≠ .lt then (rem'.sbb m).1 else rem'

/-- Reduce a 320-bit value modulo `m` by long division. -/
def reduceWide (wide : List UInt32) (m : U160) : U160 :=
  Ladder.msbFold (reduceStep m) (Limbs.bit wide) 320 zero

/-- What a shift leaves: the doubled value with the new bit, as limbs and a carry. -/
theorem shifted_spec (rem : U160) (wbit : Bool) :
    (Limbs.shl1 rem.limbs 0).2.toNat ≤ 1 ∧
      Limbs.value (orLow (Limbs.shl1 rem.limbs 0).1 (bitWord wbit)) +
        2 ^ 160 * (Limbs.shl1 rem.limbs 0).2.toNat = 2 * rem.toNat + wbit.toNat := by
  have hne : rem.limbs ≠ [] := List.ne_nil_of_length_pos (by simp [rem.length_limbs])
  have hbit : (bitWord wbit).toNat ≤ 1 := by cases wbit <;> decide
  obtain ⟨hor, hcarry⟩ := orLow_shl1 rem.limbs (bitWord wbit) hne
  obtain ⟨-, hc, hv⟩ := Limbs.shl1_spec rem.limbs (bitWord wbit) hbit
  rw [rem.length_limbs] at hv
  rw [hor, hcarry]
  exact ⟨hc, by rw [← bitWord_toNat]; exact hv⟩

theorem reduceStep_toNat (m rem : U160) (wbit : Bool) (h : rem.toNat < m.toNat) :
    (reduceStep m rem wbit).toNat = (2 * rem.toNat + wbit.toNat) % m.toNat := by
  obtain ⟨hc, hv⟩ := shifted_spec rem wbit
  have hm := m.toNat_lt
  have hb : wbit.toNat ≤ 1 := Bool.toNat_le wbit
  unfold reduceStep
  simp only
  generalize hrem : (⟨orLow (Limbs.shl1 rem.limbs 0).1 (bitWord wbit), _⟩ : U160) = rem'
  have hrem' : rem'.toNat = Limbs.value (orLow (Limbs.shl1 rem.limbs 0).1 (bitWord wbit)) := by
    rw [← hrem]; rfl
  rw [← hrem'] at hv
  have hlt := rem'.toNat_lt
  split
  · next hbig =>
    have hle : m.toNat ≤ 2 * rem.toNat + wbit.toNat := by
      rcases hbig with hone | hcmp
      · rw [carry_eq_one] at hone
        omega
      · rw [Ne, cmp_eq_lt, Nat.not_lt] at hcmp
        omega
    obtain ⟨hs, hsub⟩ := sbb_spec rem' m
    have hdiff := (rem'.sbb m).1.toNat_lt
    rw [Nat.mod_eq_sub_mod hle, Nat.mod_eq_of_lt (by omega)]
    omega
  · next hsmall =>
    rw [not_or, Ne, not_not, cmp_eq_lt, carry_eq_one] at hsmall
    rw [Nat.mod_eq_of_lt (by omega)]
    omega

theorem reduceWide_toNat (wide : List UInt32) (m : U160) (hm : 0 < m.toNat)
    (hlen : wide.length = 10) : (reduceWide wide m).toNat = Limbs.value wide % m.toNat := by
  have hbits : Limbs.bit wide = (Limbs.value wide).testBit := funext (Limbs.bit_spec wide)
  rw [reduceWide, hbits]
  refine Ladder.msbFold_of_size_le (fun k (rem : U160) => rem.toNat = k % m.toNat) _ _ _ _ ?_ ?_ ?_
  · intro k rem b h
    have hlt : rem.toNat < m.toNat := by
      rw [h]
      exact Nat.mod_lt k hm
    rw [reduceStep_toNat m rem b hlt, h]
    simp [Nat.add_mod, Nat.mul_mod]
  · have hsize := Limbs.size_value_le wide
    rwa [hlen] at hsize
  · simp

/-- `a · b mod m` through the 320-bit product. -/
def mulMod (m a b : U160) : U160 := reduceWide (Limbs.mulWide a.limbs b.limbs) m

theorem mulMod_toNat (m a b : U160) (hm : 0 < m.toNat) :
    (mulMod m a b).toNat = a.toNat * b.toNat % m.toNat := by
  obtain ⟨hlen, hval⟩ := Limbs.mulWide_spec a.limbs b.limbs
  rw [mulMod, reduceWide_toNat _ m hm (by rw [hlen, a.length_limbs, b.length_limbs]), hval]
  rfl

def P : U160 := ofLimbs 0x79a7d7df 0xf9eae7c4 0x60bdb09e 0x55ecceb5 0x9dc9d813

def B : U160 := ofLimbs 0xdaacb1d8 0x1245e0c4 0x5248d68e 0xc1cbcd16 0x402dad3e

def GX : U160 := ofLimbs 0xc54ccec6 0x81d0a4bd 0xf4cca7eb 0x578351e6 0x2e64fc22

def GY : U160 := ofLimbs 0x07f5cbb9 0xf23c9a07 0x9db455c7 0xd0544288 0x0914a25d

def N : U160 := ofLimbs 0x7f5ab017 0x54817b2c 0x60bdc44f 0x55ecceb5 0x9dc9d813

/-- The field prime as a number. -/
def fieldPrime : Nat := 900812823637587646514106462588455890498729007071

/-- The group order as a number. -/
def groupOrder : Nat := 900812823637587646514106555566573588779770753047

/-- Proofs use the moduli through these four lemmas only. -/
theorem P_toNat : P.toNat = fieldPrime := by decide

theorem N_toNat : N.toNat = groupOrder := by decide

theorem P_pos : 0 < P.toNat := by decide

theorem N_pos : 0 < N.toNat := by decide

attribute [irreducible] P N fieldPrime groupOrder

end Ec
