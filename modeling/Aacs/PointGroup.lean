import Aacs.EcGroup

/-!
# The point operations as a group

The Jacobian ladder simulates the affine one step by step: `toAffine` commutes
with doubling and with the mixed addition. On the curve the operations of the
code are a commutative group in which `mulScalar` is the multiple.
-/

open U160 Ec

namespace Jacobian

theorem toAffine_double (j : Jacobian) : j.double.toAffine = j.toAffine.double := by
  apply Point.coords_injective
  rw [coords_toAffine, toZMod_double, ShortCurve.Jacobian.coords_double EcGroup.field_two_ne_zero,
    Point.coords_double, coords_toAffine]

theorem toAffine_add (j : Jacobian) (x y : Fp) :
    (j.add ⟨x, y, Fp.one⟩).toAffine = j.toAffine.add (.affine x y) := by
  apply Point.coords_injective
  rw [coords_toAffine, toZMod_add, ShortCurve.Jacobian.coords_addAffine EcGroup.field_two_ne_zero,
    Point.coords_add, coords_toAffine, Point.coords_affine]

theorem toAffine_infinity : infinity.toAffine = .infinity := by
  apply Point.coords_injective
  rw [coords_toAffine, toZMod_infinity, ShortCurve.Jacobian.coords_infinity, Point.coords_infinity]

end Jacobian

namespace Point

def ladderStep (p acc : Point) (b : Bool) : Point := if b then acc.double.add p else acc.double

/-- One step of the Jacobian ladder is one of the affine ladder. -/
theorem toAffine_step (x y : Fp) (j : Jacobian) (acc : Point) (b : Bool) (h : j.toAffine = acc) :
    (if b then j.double.add ⟨x, y, Fp.one⟩ else j.double).toAffine = ladderStep
    (affine x y) acc b := by
  rw [← h]
  cases b with
  | false => rw [if_neg nofun, ladderStep, if_neg nofun, Jacobian.toAffine_double]
  | true => rw [if_pos rfl, ladderStep, if_pos rfl, Jacobian.toAffine_add, Jacobian.toAffine_double]

/-- Double-and-add with affine points, most significant bit first. -/
def affineLadder (p : Point) (k : U160) : Point := Ladder.msbFold (ladderStep p) k.bit 160 infinity

/-- Bits above the highest one leave the accumulator at infinity. -/
theorem affineLadder_eq (p : Point) (k : U160) :
    affineLadder p k = Ladder.msbFold (ladderStep p) k.bit k.bitLen infinity := by
  have hlen : k.bitLen ≤ 160 := by
    rw [bitLen_eq]
    exact Nat.size_le.mpr k.toNat_lt
  obtain ⟨m, hm⟩ := Nat.exists_eq_add_of_le hlen
  rw [affineLadder, hm]
  refine Ladder.msbFold_high_zeros _ _ _ m _ (fun i hi => ?_) rfl
  have hsize : k.toNat < 2 ^ i := Nat.size_le.mp (by rwa [← bitLen_eq])
  rw [bit_eq, Nat.testBit_lt_two_pow hsize]

theorem ladderStep_infinity (b : Bool) : ladderStep infinity infinity b = infinity := by
  cases b <;> rfl

/-- Scalar multiplication agrees with the affine ladder, on every point and every scalar. -/
theorem mulScalar_eq_affineLadder (p : Point) (k : U160) : p.mulScalar k = p.affineLadder k := by
  rw [affineLadder_eq]
  cases p with
  | infinity =>
    have hstay := Ladder.msbFold_rel (fun (_ : Unit) acc => acc = infinity) (fun u _ => u)
      (ladderStep infinity) k.bit (by rintro _ _ b rfl; exact ladderStep_infinity b) k.bitLen ()
        infinity rfl
    rw [mulScalar, hstay]
  | affine x y =>
    exact Ladder.msbFold_rel (fun (j : Jacobian) acc => j.toAffine = acc)
      (fun j b => if b then j.double.add ⟨x, y, Fp.one⟩ else j.double)
        (ladderStep (affine x y)) k.bit
      (toAffine_step x y) k.bitLen Jacobian.infinity infinity Jacobian.toAffine_infinity

theorem affine_add_neg (x y : Fp) (h : (affine x y).isOnCurve = true) :
    (affine x y.neg).isOnCurve = true ∧ (affine x y).add (affine x y.neg) = infinity := by
  obtain ⟨A, hA⟩ := EcGroup.exists_is h
  have hneg : EcGroup.Is (affine x y.neg) (-A) := by
    cases A with
    | zero => cases hA
    | some x' y' hns =>
      obtain ⟨rfl, rfl⟩ := Prod.mk.inj (Option.some.inj hA)
      rw [EcGroup.Is, ShortCurve.coords_neg, coords_affine, Fp.toZMod_neg]
  refine ⟨hneg.isOnCurve, (hA.add hneg).eq_infinity_iff.mpr (add_neg_cancel A)⟩

theorem double_eq_add_self {p : Point} : p.double = p.add p := by
  cases p with
  | infinity => rfl
  | affine x y => simp [add]

theorem add_infinity (p : Point) : p.add infinity = p := by
  cases p <;> rfl

theorem add_isOnCurve {p q : Point} (hp : p.isOnCurve = true) (hq : q.isOnCurve = true) :
    (p.add q).isOnCurve = true := by
  obtain ⟨A, hA⟩ := EcGroup.exists_is hp
  obtain ⟨B, hB⟩ := EcGroup.exists_is hq
  exact (hA.add hB).isOnCurve

theorem add_comm_of_isOnCurve {p q : Point} (hp : p.isOnCurve = true) (hq : q.isOnCurve = true) :
    p.add q = q.add p := by
  obtain ⟨A, hA⟩ := EcGroup.exists_is hp
  obtain ⟨B, hB⟩ := EcGroup.exists_is hq
  have hBA := hB.add hA
  rw [add_comm] at hBA
  exact (hA.add hB).unique hBA

theorem add_assoc_of_isOnCurve {p q r : Point} (hp : p.isOnCurve = true) (hq : q.isOnCurve = true)
    (hr : r.isOnCurve = true) :
    (p.add q).add r = p.add (q.add r) := by
  obtain ⟨A, hA⟩ := EcGroup.exists_is hp
  obtain ⟨B, hB⟩ := EcGroup.exists_is hq
  obtain ⟨C, hC⟩ := EcGroup.exists_is hr
  have hright := hA.add (hB.add hC)
  rw [← add_assoc] at hright
  exact ((hA.add hB).add hC).unique hright

theorem mulScalar_add {p : Point} (hp : p.isOnCurve = true) {a b : U160}
    (hab : a.toNat + b.toNat < 2 ^ 160) :
    (p.mulScalar a).add (p.mulScalar b) = p.mulScalar (a.adc b).1 := by
  obtain ⟨A, hA⟩ := EcGroup.exists_is hp
  obtain ⟨-, hsum⟩ := adc_spec a b
  have hlt := (a.adc b).1.toNat_lt
  have hnat : (a.adc b).1.toNat = a.toNat + b.toNat := by omega
  have hright := hA.mulScalar (a.adc b).1
  rw [hnat, add_nsmul] at hright
  exact ((hA.mulScalar a).add (hA.mulScalar b)).unique hright

theorem mulScalar_comm {p : Point} (hp : p.isOnCurve = true) (a b : U160) :
    (p.mulScalar b).mulScalar a = (p.mulScalar a).mulScalar b := by
  obtain ⟨A, hA⟩ := EcGroup.exists_is hp
  have hright := (hA.mulScalar a).mulScalar b
  rw [← mul_nsmul, mul_comm, mul_nsmul] at hright
  exact ((hA.mulScalar b).mulScalar a).unique hright

/-- The operations of the code are a commutative group on the points of the curve. -/
theorem group_law {p q r : Point} (hp : p.isOnCurve = true) (hq : q.isOnCurve = true)
    (hr : r.isOnCurve = true) (a b : U160) :
    ((p.add q).isOnCurve = true ∧ p.double.isOnCurve = true) ∧
    p.add q = q.add p ∧ (p.add q).add r = p.add (q.add r) ∧
    (infinity.isOnCurve = true ∧ p.add infinity = p ∧ infinity.add p = p) ∧
    (∀ x y, p = affine x y → (affine x y.neg).isOnCurve = true ∧ p.add (affine x y.neg) = infinity ∧
      (affine x y.neg).add p = infinity) ∧
    p.double = p.add p ∧
    (a.toNat + b.toNat < 2 ^ 160 → (p.mulScalar a).add (p.mulScalar b) = p.mulScalar (a.adc b).1) ∧
    (p.mulScalar b).mulScalar a = (p.mulScalar a).mulScalar b := by
  have hdouble : p.double.isOnCurve = true := double_eq_add_self ▸ add_isOnCurve hp hp
  refine ⟨⟨add_isOnCurve hp hq, hdouble⟩, add_comm_of_isOnCurve hp hq,
    add_assoc_of_isOnCurve hp hq hr, ⟨rfl, add_infinity p, rfl⟩, ?_, double_eq_add_self,
    mulScalar_add hp, mulScalar_comm hp a b⟩
  rintro x y rfl
  obtain ⟨hon, hsum⟩ := affine_add_neg x y hp
  exact ⟨hon, hsum, add_comm_of_isOnCurve hp hon ▸ hsum⟩

theorem group_law_generator :
    (generator.add generator).isOnCurve = true ∧ (generator.mulScalar one).add
    (generator.mulScalar one) =
      generator.mulScalar (one.adc one).1 := by
  have hon := EcGroup.generator_isOnCurve
  obtain ⟨⟨hadd, -⟩, -, -, -, -, -, hmul, -⟩ := group_law hon hon hon one one
  exact ⟨hadd, hmul (by decide)⟩

end Point
