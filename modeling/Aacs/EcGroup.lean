import Aacs.CurveEval
import Aacs.EcPoint

/-!
# The group of the curve

Points that satisfy the curve equation are elements of the Weierstrass group,
where `add` is the sum, `mulScalar` the multiple, and the generator has the
prime order `n`.
-/
namespace EcGroup

open U160 Ec

/-- The group of points over `GF(p)`. -/
abbrev Group : Type := (ShortCurve.curve Point.curveB).Point

theorem discriminant_ne_zero : (ShortCurve.curve Point.curveB).Δ ≠ 0 := by
  have hΔ : (ShortCurve.curve Point.curveB).Δ = 1728 - 432 * Point.curveB ^ 2 := by
    simp only [WeierstrassCurve.Δ, WeierstrassCurve.b₂, WeierstrassCurve.b₄, WeierstrassCurve.b₆,
      WeierstrassCurve.b₈, ShortCurve.curve_a₁, ShortCurve.curve_a₂, ShortCurve.curve_a₃,
      ShortCurve.curve_a₄, ShortCurve.curve_a₆]
    ring
  have hne : ((1728 : Nat) : ZMod fieldPrime) ≠ ((432 * B.toNat ^ 2 : Nat) : ZMod fieldPrime) := by
    rw [Ne, ZMod.natCast_eq_natCast_iff']
    decide +kernel
  rw [hΔ, sub_ne_zero]
  simpa [Point.curveB] using hne

theorem field_two_ne_zero : (2 : ZMod fieldPrime) ≠ 0 := by
  have hne : ((2 : Nat) : ZMod fieldPrime) ≠ 0 := by
    rw [Ne, ZMod.natCast_eq_zero_iff]
    decide +kernel
  simpa using hne

/-- A point of the code stands for a group element. -/
def Is (p : Point) (A : Group) : Prop := p.coords = ShortCurve.coords A

theorem is_infinity_iff {A : Group} : Is .infinity A ↔ A = 0 := by
  rw [Is, Point.coords_infinity, eq_comm, ShortCurve.coords_eq_none]

theorem Is.eq_infinity_iff {p : Point} {A : Group} (h : Is p A) : p = .infinity ↔ A = 0 := by
  rw [← is_infinity_iff]
  constructor
  · rintro rfl
    exact h
  · intro hA
    exact Point.coords_injective (h.trans hA.symm)

theorem Is.unique {p q : Point} {A : Group} (hp : Is p A) (hq : Is q A) : p = q :=
  Point.coords_injective (hp.trans hq.symm)

theorem exists_is {p : Point} (h : p.isOnCurve = true) : ∃ A : Group, Is p A := by
  obtain ⟨A, hA⟩ := ShortCurve.exists_coords_eq discriminant_ne_zero (Point.isOnCurve_iff.mp h)
  exact ⟨A, hA.symm⟩

theorem Is.isOnCurve {p : Point} {A : Group} (h : Is p A) : p.isOnCurve = true := by
  rw [Point.isOnCurve_iff, h]
  exact ShortCurve.onCurve_coords A

theorem Is.add {p q : Point} {A B : Group} (hp : Is p A) (hq : Is q B) : Is (p.add q) (A + B) := by
  rw [Is, Point.coords_add, hp, hq, ShortCurve.add_coords field_two_ne_zero]

/-- Reading one more bit of the multiplier. -/
theorem coords_step {x y : Fp} {A : Group} (hA : Is (.affine x y) A) (m : Nat) (j : Jacobian)
    (b : Bool) (h : j.toZMod.coords = ShortCurve.coords (m • A)) :
    (if b then j.double.add ⟨x, y, Fp.one⟩ else j.double).toZMod.coords =
      ShortCurve.coords ((2 * m + b.toNat) • A) := by
  have hdouble : j.double.toZMod.coords = ShortCurve.coords ((2 * m) • A) := by
    rw [Jacobian.toZMod_double, ShortCurve.Jacobian.coords_double field_two_ne_zero, h,
      ShortCurve.double_coords field_two_ne_zero, two_mul, add_nsmul]
  cases b
  · simpa using hdouble
  · rw [if_pos rfl, Jacobian.toZMod_add,
      ShortCurve.Jacobian.coords_addAffine field_two_ne_zero, hdouble, ← Point.coords_affine, hA,
      ShortCurve.add_coords field_two_ne_zero, Bool.toNat_true, succ_nsmul]

theorem Is.mulScalar {p : Point} {A : Group} (h : Is p A) (k : U160) :
    Is (p.mulScalar k) (k.toNat • A) := by
  cases p with
  | infinity =>
    rw [is_infinity_iff] at h
    rw [Point.mulScalar, is_infinity_iff, h, nsmul_zero]
  | affine x y =>
    have hbit : k.bit = k.toNat.testBit := funext k.bit_eq
    rw [Is, Point.mulScalar, Jacobian.coords_toAffine, hbit, bitLen_eq]
    refine Ladder.msbFold_of_size_le
      (fun m (j : Jacobian) => j.toZMod.coords = ShortCurve.coords (m • A)) _ _ _ _ ?_ le_rfl ?_
    · intro m j b hj
      exact coords_step h m j b hj
    · simp

theorem generator_isOnCurve : Point.generator.isOnCurve = true := by
  have hmod : ((GY.toNat ^ 2 + 3 * GX.toNat : Nat) : ZMod fieldPrime) =
      ((GX.toNat ^ 3 + B.toNat : Nat) : ZMod fieldPrime) := by
    rw [ZMod.natCast_eq_natCast_iff']
    decide +kernel
  rw [Point.isOnCurve_iff, Point.generator, Point.coords_affine, ShortCurve.OnCurve, Point.curveB,
    Fp.toZMod_fromU160, Fp.toZMod_fromU160]
  push_cast at hmod
  linear_combination hmod

/-- The base point as a group element. -/
noncomputable def G : Group := (exists_is generator_isOnCurve).choose

theorem is_generator : Is Point.generator G := (exists_is generator_isOnCurve).choose_spec

theorem G_ne_zero : G ≠ 0 := by
  intro h
  have hinf := is_generator.eq_infinity_iff.mpr h
  simp [Point.generator] at hinf

theorem coords_G : ShortCurve.coords G =
    some ((GX.toNat : ZMod fieldPrime), (GY.toNat : ZMod fieldPrime)) := by
  rw [← is_generator]
  simp [Point.generator]

theorem coords_smul_G (k : Nat) (hk : k < 2 ^ 160) :
    (CurveEval.multiple fieldPrime 160 GX.toNat GY.toNat k).map
      (fun p => ((p.1 : ZMod fieldPrime), (p.2 : ZMod fieldPrime))) = ShortCurve.coords (k • G) :=
  CurveEval.multiple_eq field_two_ne_zero coords_G 160 k hk (by rw [← P_toNat]; exact P.toNat_lt)

theorem multiple_order : CurveEval.multiple fieldPrime 160 GX.toNat GY.toNat groupOrder = none := by
  decide +kernel

theorem order_smul_G : groupOrder • G = 0 := by
  rw [← ShortCurve.coords_eq_none, ← coords_smul_G _ (by rw [← N_toNat]; exact N.toNat_lt),
    multiple_order, Option.map_none]

theorem addOrderOf_G : addOrderOf G = groupOrder :=
  addOrderOf_eq_prime order_smul_G G_ne_zero

/-- A multiple of the generator vanishes exactly when the scalar does. -/
theorem smul_G_eq_zero {k : Nat} : k • G = 0 ↔ (k : ZMod groupOrder) = 0 := by
  rw [← addOrderOf_dvd_iff_nsmul_eq_zero, addOrderOf_G, ZMod.natCast_eq_zero_iff]

/-- Multiples of the generator depend on the scalar modulo the order only. -/
theorem smul_G_eq_iff {j k : Nat} : j • G = k • G ↔ (j : ZMod groupOrder) = k := by
  rw [nsmul_eq_nsmul_iff_modEq, addOrderOf_G, ZMod.natCast_eq_natCast_iff]

theorem is_mul_generator (k : U160) : Is (Point.generator.mulScalar k) (k.toNat • G) :=
  is_generator.mulScalar k

end EcGroup
