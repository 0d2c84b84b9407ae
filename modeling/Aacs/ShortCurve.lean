import Mathlib.AlgebraicGeometry.EllipticCurve.Affine.Point
import Mathlib.Tactic.FieldSimp
import Mathlib.Tactic.LinearCombination

/-!
# Affine and Jacobian arithmetic on `y² = x³ - 3x + b`

The chord-and-tangent formulas on optional coordinates, and the Jacobian
formulas that postpone the division, against the group of points of the
Weierstrass curve. `coords` forgets that a group element is on the curve, and
every operation on coordinates commutes with it.
-/
namespace ShortCurve

open WeierstrassCurve.Affine

variable {F : Type} [Field F]

def curve (b : F) : WeierstrassCurve.Affine F := ⟨0, 0, 0, -3, b⟩

@[simp] theorem curve_a₁ (b : F) : (curve b).a₁ = 0 := rfl
@[simp] theorem curve_a₂ (b : F) : (curve b).a₂ = 0 := rfl
@[simp] theorem curve_a₃ (b : F) : (curve b).a₃ = 0 := rfl
@[simp] theorem curve_a₄ (b : F) : (curve b).a₄ = -3 := rfl
@[simp] theorem curve_a₆ (b : F) : (curve b).a₆ = b := rfl

/-- `none` is the point at infinity, which is on every curve. -/
def OnCurve (b : F) : Option (F × F) → Prop
  | none => True
  | some (x, y) => y ^ 2 = x ^ 3 - 3 * x + b

def coords {b : F} : (curve b).Point → Option (F × F)
  | .zero => none
  | .some x y _ => some (x, y)

section
variable {b : F}

@[simp] theorem coords_zero : coords (0 : (curve b).Point) = none := rfl

@[simp] theorem coords_some {x y : F} (h : (curve b).Nonsingular x y) :
    coords (.some x y h : (curve b).Point) = some (x, y) := rfl

theorem coords_injective : Function.Injective (coords (b := b)) := by
  intro A B h
  cases A <;> cases B <;> simp_all [coords]

theorem coords_eq_none {A : (curve b).Point} : coords A = none ↔ A = 0 :=
  ⟨fun h => coords_injective (by rw [h, coords_zero]), fun h => by rw [h, coords_zero]⟩

theorem equation_iff (x y : F) : (curve b).Equation x y ↔ y ^ 2 = x ^ 3 - 3 * x + b := by
  rw [WeierstrassCurve.Affine.equation_iff]
  simp only [curve_a₁, curve_a₂, curve_a₃, curve_a₄, curve_a₆]
  constructor <;> intro h <;> linear_combination h

theorem onCurve_coords (A : (curve b).Point) : OnCurve b (coords A) := by
  cases A with
  | zero => trivial
  | some x y h => exact (equation_iff x y).mp h.left

/-- On a nonsingular curve every pair that satisfies the equation is a group element. -/
theorem exists_coords_eq (hb : (curve b).Δ ≠ 0) {p : Option (F × F)} (hp : OnCurve b p) :
    ∃ A : (curve b).Point, coords A = p := by
  cases p with
  | none => exact ⟨0, rfl⟩
  | some xy =>
    have he : (curve b).Equation xy.1 xy.2 := (equation_iff xy.1 xy.2).mpr hp
    exact ⟨.some _ _ ((equation_iff_nonsingular_of_Δ_ne_zero hb).mp he), rfl⟩

theorem negY_eq (x y : F) : (curve b).negY x y = -y := by
  simp [WeierstrassCurve.Affine.negY]

theorem coords_neg {x y : F} (h : (curve b).Nonsingular x y) :
    coords (-(.some x y h : (curve b).Point)) = some (x, -y) := by
  rw [Point.neg_some, coords_some, negY_eq]

theorem addX_eq (x₁ x₂ l : F) : (curve b).addX x₁ x₂ l = l ^ 2 - x₁ - x₂ := by
  simp [addX]

theorem addY_eq (x₁ x₂ y₁ l : F) :
    (curve b).addY x₁ x₂ y₁ l = l * (x₁ - (l ^ 2 - x₁ - x₂)) - y₁ := by
  rw [addY, negAddY, negY_eq, addX_eq]
  ring

theorem self_eq_negY {x y : F} (htwo : (2 : F) ≠ 0) : y = (curve b).negY x y ↔ y = 0 := by
  rw [negY_eq, eq_neg_iff_add_eq_zero, ← two_mul, mul_eq_zero]
  simp [htwo]

end

variable [DecidableEq F]

def double : Option (F × F) → Option (F × F)
  | none => none
  | some (x, y) =>
    if y = 0 then none else
      let l := (3 * x ^ 2 - 3) * (2 * y)⁻¹
      let x₃ := l ^ 2 - x - x
      some (x₃, l * (x - x₃) - y)

def add : Option (F × F) → Option (F × F) → Option (F × F)
  | none, q => q
  | p, none => p
  | some (x₁, y₁), some (x₂, y₂) =>
    if x₁ = x₂ then
      if y₁ = y₂ then double (some (x₁, y₁)) else none
    else
      let l := (y₂ - y₁) * (x₂ - x₁)⁻¹
      let x₃ := l ^ 2 - x₁ - x₂
      some (x₃, l * (x₁ - x₃) - y₁)

theorem double_coords {b : F} (htwo : (2 : F) ≠ 0) (A : (curve b).Point) :
    double (coords A) = coords (A + A) := by
  cases A with
  | zero => rfl
  | some x y h =>
    by_cases hy : y = 0
    · rw [Point.add_self_of_Y_eq ((self_eq_negY htwo).mpr hy)]
      simp [double, hy]
    · have hneg : y ≠ (curve b).negY x y := mt (self_eq_negY htwo).mp hy
      have hslope : (curve b).slope x x y y = (3 * x ^ 2 - 3) * (2 * y)⁻¹ := by
        rw [slope_of_Y_ne rfl hneg, negY_eq, div_eq_mul_inv]
        simp only [curve_a₁, curve_a₂, curve_a₄]
        ring_nf
      rw [Point.add_self_of_Y_ne hneg, coords_some, coords_some, hslope, addX_eq,
        addY_eq]
      simp [double, hy]

theorem add_coords {b : F} (htwo : (2 : F) ≠ 0) (A B : (curve b).Point) :
    add (coords A) (coords B) = coords (A + B) := by
  cases A with
  | zero => rw [← Point.zero_def, zero_add, coords_zero, add]
  | some x₁ y₁ h₁ =>
    cases B with
    | zero => simp [add, coords, ← Point.zero_def]
    | some x₂ y₂ h₂ =>
      by_cases hx : x₁ = x₂
      · subst hx
        by_cases hy : y₁ = y₂
        · subst hy
          simpa [add] using double_coords htwo (.some x₁ y₁ h₁)
        · have hneg : y₁ = (curve b).negY x₁ y₂ :=
            (Y_eq_of_X_eq h₁.left h₂.left rfl).resolve_left hy
          rw [Point.add_of_Y_eq rfl hneg]
          simp [add, hy]
      · have hslope : (curve b).slope x₁ x₂ y₁ y₂ = (y₂ - y₁) * (x₂ - x₁)⁻¹ := by
          rw [slope_of_X_ne hx, ← div_eq_mul_inv, ← neg_sub y₂, ← neg_sub x₂, neg_div_neg_eq]
        rw [Point.add_of_X_ne hx, coords_some, coords_some, coords_some, hslope, addX_eq,
          addY_eq]
        simp [add, hx]

/-- `(x : y : z)` stands for `(x / z², y / z³)`, and for infinity when `z = 0`. -/
structure Jacobian (F : Type) where
  x : F
  y : F
  z : F

namespace Jacobian

def infinity : Jacobian F := ⟨1, 1, 0⟩

def coords (j : Jacobian F) : Option (F × F) :=
  if j.z = 0 then none else some (j.x * j.z⁻¹ ^ 2, j.y * j.z⁻¹ ^ 3)

def ofAffine (x y : F) : Jacobian F := ⟨x, y, 1⟩

/-- `M = 3(X - Z²)(X + Z²)`, `S = 4XY²`. -/
def double (j : Jacobian F) : Jacobian F :=
  if j.z = 0 ∨ j.y = 0 then infinity else
    let m := 3 * (j.x - j.z ^ 2) * (j.x + j.z ^ 2)
    let s := 4 * j.x * j.y ^ 2
    let x₃ := m ^ 2 - 2 * s
    ⟨x₃, m * (s - x₃) - 8 * j.y ^ 4, 2 * j.y * j.z⟩

/-- Addition of an affine point: `H = x·Z² - X`, `R = y·Z³ - Y`. -/
def addAffine (j : Jacobian F) (x y : F) : Jacobian F :=
  if j.z = 0 then ofAffine x y else
    let h := x * j.z ^ 2 - j.x
    let r := y * j.z ^ 3 - j.y
    if h = 0 then
      if r = 0 then j.double else infinity
    else
      let x₃ := r ^ 2 - h ^ 3 - 2 * (j.x * h ^ 2)
      ⟨x₃, r * (j.x * h ^ 2 - x₃) - j.y * h ^ 3, j.z * h⟩

@[simp] theorem coords_infinity : (infinity : Jacobian F).coords = none := by
  simp [coords, infinity]

@[simp] theorem coords_ofAffine (x y : F) : (ofAffine x y).coords = some (x, y) := by
  simp [coords, ofAffine]

theorem coords_of_ne {j : Jacobian F} (hz : j.z ≠ 0) :
    j.coords = some (j.x * j.z⁻¹ ^ 2, j.y * j.z⁻¹ ^ 3) := by
  simp [coords, hz]

theorem coords_double (htwo : (2 : F) ≠ 0) (j : Jacobian F) :
    j.double.coords = ShortCurve.double j.coords := by
  by_cases hz : j.z = 0
  · simp [double, coords, hz, ShortCurve.double, infinity]
  by_cases hy : j.y = 0
  · simp [double, coords_of_ne hz, hy, ShortCurve.double]
  have hz₃ : 2 * j.y * j.z ≠ 0 := mul_ne_zero (mul_ne_zero htwo hy) hz
  have hy₃ : j.y * j.z⁻¹ ^ 3 ≠ 0 := mul_ne_zero hy (pow_ne_zero _ (inv_ne_zero hz))
  rw [coords_of_ne hz, ShortCurve.double, if_neg hy₃, double, if_neg (by simp [hz, hy]),
    coords_of_ne hz₃, Option.some.injEq, Prod.mk.injEq]
  constructor <;> field_simp <;> ring

theorem coords_addAffine (htwo : (2 : F) ≠ 0) (j : Jacobian F) (x y : F) :
    (j.addAffine x y).coords = add j.coords (some (x, y)) := by
  by_cases hz : j.z = 0
  · simp [addAffine, coords, hz, add, ofAffine]
  have hx : j.x * j.z⁻¹ ^ 2 = x ↔ x * j.z ^ 2 - j.x = 0 := by
    field_simp
    rw [sub_eq_zero, eq_comm]
  have hy : j.y * j.z⁻¹ ^ 3 = y ↔ y * j.z ^ 3 - j.y = 0 := by
    field_simp
    rw [sub_eq_zero, eq_comm]
  by_cases hh : x * j.z ^ 2 - j.x = 0
  · by_cases hr : y * j.z ^ 3 - j.y = 0
    · rw [coords_of_ne hz, add, if_pos (hx.mpr hh), if_pos (hy.mpr hr), ← coords_of_ne hz,
        ← coords_double htwo]
      simp [addAffine, hz, hh, hr]
    · rw [coords_of_ne hz, add, if_pos (hx.mpr hh), if_neg (mt hy.mp hr)]
      simp [addAffine, hz, hh, hr]
  · have hz₃ : j.z * (x * j.z ^ 2 - j.x) ≠ 0 := mul_ne_zero hz hh
    have hd : x - j.x * j.z⁻¹ ^ 2 ≠ 0 := by
      rw [sub_ne_zero]
      exact fun h => hh (hx.mp h.symm)
    rw [coords_of_ne hz, add, if_neg (mt hx.mp hh), addAffine, if_neg hz, if_neg hh,
      coords_of_ne hz₃, Option.some.injEq, Prod.mk.injEq]
    have hinv : (x - j.x * j.z⁻¹ ^ 2)⁻¹ = j.z ^ 2 * (x * j.z ^ 2 - j.x)⁻¹ := by
      field_simp
    rw [hinv]
    generalize hgen : x * j.z ^ 2 - j.x = h at *
    have hxh : x = (h + j.x) * j.z⁻¹ ^ 2 := by
      rw [← hgen]
      field_simp
      ring
    subst hxh
    constructor <;> field_simp <;> ring

end Jacobian

end ShortCurve
