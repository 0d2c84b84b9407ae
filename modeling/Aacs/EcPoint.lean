import Aacs.EcField
import Aacs.ShortCurve

/-!
# Curve points

Affine points with an explicit infinity, and the Jacobian points of scalar
multiplication. `coords` reads a point as coordinates in `ZMod p`, where the
code's formulas are those of the curve library.
-/

open U160 Ec

/-- A field constant of one limb. -/
def Fp.small (w : UInt32) : Fp := Fp.fromU160 (ofLimbs w 0 0 0 0)

@[simp] theorem Fp.toZMod_small (w : UInt32) :
    (Fp.small w).toZMod = (w.toNat : ZMod fieldPrime) := by
  simp [Fp.small]

inductive Point where
  | infinity
  | affine (x y : Fp)
  deriving DecidableEq

/-- The projective point `(x / z², y / z³)`, infinity when `z = 0`. -/
structure Jacobian where
  x : Fp
  y : Fp
  z : Fp

namespace Jacobian

def infinity : Jacobian := ⟨Fp.one, Fp.one, Fp.zero⟩

def isInfinity (j : Jacobian) : Bool := j.z.isZero

def double (j : Jacobian) : Jacobian :=
  if j.isInfinity || j.y.isZero then infinity else
    let zz := j.z.square
    let yy := j.y.square
    let m := ((Fp.small 3).mul (j.x.sub zz)).mul (j.x.add zz)
    let s := ((Fp.small 4).mul j.x).mul yy
    let x₃ := m.square.sub ((Fp.small 2).mul s)
    let yyyy := yy.square
    let y₃ := (m.mul (s.sub x₃)).sub ((Fp.small 8).mul yyyy)
    let z₃ := ((Fp.small 2).mul j.y).mul j.z
    ⟨x₃, y₃, z₃⟩

/-- Mixed addition: `other.z` is taken to be one. -/
def add (j other : Jacobian) : Jacobian :=
  if j.isInfinity then other
  else if other.isInfinity then j
  else
    let z₁z₁ := j.z.square
    let u₂ := other.x.mul z₁z₁
    let s₂ := (other.y.mul z₁z₁).mul j.z
    let u₁ := j.x
    let s₁ := j.y
    let h := u₂.sub u₁
    let r := s₂.sub s₁
    if h.isZero then
      if r.isZero then j.double else infinity
    else
      let hh := h.square
      let hhh := hh.mul h
      let u₁hh := u₁.mul hh
      let x₃ := (r.square.sub hhh).sub ((Fp.small 2).mul u₁hh)
      let y₃ := (r.mul (u₁hh.sub x₃)).sub (s₁.mul hhh)
      ⟨x₃, y₃, j.z.mul h⟩

def toAffine (j : Jacobian) : Point :=
  if j.isInfinity then .infinity else
    let zinv := j.z.inv
    let zinv₂ := zinv.square
    let zinv₃ := zinv₂.mul zinv
    .affine (j.x.mul zinv₂) (j.y.mul zinv₃)

end Jacobian

namespace Point

def generator : Point := .affine (Fp.fromU160 GX) (Fp.fromU160 GY)

def isInfinity : Point → Bool
  | infinity => true
  | affine _ _ => false

/-- `y² = x³ - 3x + b`. -/
def isOnCurve : Point → Bool
  | infinity => true
  | affine x y =>
    let lhs := y.square
    let x₃ := x.square.mul x
    let rhs := (x₃.sub ((Fp.small 3).mul x)).add (Fp.fromU160 B)
    lhs == rhs

def fromCoords (x y : Bytes 20) : Option Point :=
  let p := affine (Fp.fromBeBytes x) (Fp.fromBeBytes y)
  if p.isOnCurve then some p else none

/-- `x(20) || y(20)`; the point at infinity encodes as zeros. -/
def toBytes : Point → Bytes 40
  | infinity => Bytes.zero 40
  | affine x y => x.toBeBytes.append y.toBeBytes

def double : Point → Point
  | infinity => infinity
  | affine x y =>
    if y.isZero then infinity else
      let three := Fp.small 3
      let num := (three.mul x.square).sub three
      let den := (Fp.small 2).mul y
      let lambda := num.mul den.inv
      let x₃ := (lambda.square.sub x).sub x
      let y₃ := (lambda.mul (x.sub x₃)).sub y
      affine x₃ y₃

def add : Point → Point → Point
  | infinity, other => other
  | self, infinity => self
  | affine x₁ y₁, affine x₂ y₂ =>
    if x₁ = x₂ then
      if y₁ = y₂ then double (affine x₁ y₁) else infinity
    else
      let lambda := (y₂.sub y₁).mul (x₂.sub x₁).inv
      let x₃ := (lambda.square.sub x₁).sub x₂
      let y₃ := (lambda.mul (x₁.sub x₃)).sub y₁
      affine x₃ y₃

/-- `k·P`: double-and-add in Jacobian coordinates, most significant bit first. -/
def mulScalar (p : Point) (k : U160) : Point :=
  match p with
  | infinity => infinity
  | affine x y =>
    let base : Jacobian := ⟨x, y, Fp.one⟩
    (Ladder.msbFold (fun acc b => if b then acc.double.add base else acc.double) k.bit k.bitLen
      Jacobian.infinity).toAffine

/-- The x-coordinate; zero for the point at infinity. -/
def xU160 : Point → U160
  | affine x _ => x.value
  | infinity => U160.zero

def coords : Point → Option (ZMod fieldPrime × ZMod fieldPrime)
  | infinity => none
  | affine x y => some (x.toZMod, y.toZMod)

@[simp] theorem coords_infinity : coords infinity = none := rfl

@[simp] theorem coords_affine (x y : Fp) : coords (affine x y) = some (x.toZMod, y.toZMod) := rfl

theorem coords_injective : Function.Injective coords := by
  intro p q h
  cases p <;> cases q <;> simp_all [Fp.toZMod_inj]

theorem isInfinity_iff {p : Point} : p.isInfinity = true ↔ p = infinity := by
  cases p <;> simp [isInfinity]

/-- The coefficient `b` in the field. -/
def curveB : ZMod fieldPrime := (B.toNat : ZMod fieldPrime)

theorem isOnCurve_iff {p : Point} : p.isOnCurve = true ↔ ShortCurve.OnCurve curveB p.coords := by
  cases p with
  | infinity => simp [isOnCurve, ShortCurve.OnCurve]
  | affine x y =>
    simp only [isOnCurve, beq_iff_eq, ← Fp.toZMod_inj, coords_affine, ShortCurve.OnCurve, curveB]
    simp [pow_succ]

theorem coords_double (p : Point) : p.double.coords = ShortCurve.double p.coords := by
  cases p with
  | infinity => rfl
  | affine x y =>
    by_cases hy : y.isZero = true
    · have hy' := Fp.isZero_iff.mp hy
      simp [double, ShortCurve.double, hy, hy']
    · have hy' := mt Fp.isZero_iff.mpr hy
      simp [double, ShortCurve.double, hy']

theorem coords_add (p q : Point) : (p.add q).coords = ShortCurve.add p.coords q.coords := by
  cases p with
  | infinity => simp [add, ShortCurve.add]
  | affine x₁ y₁ =>
    cases q with
    | infinity => simp [add, ShortCurve.add]
    | affine x₂ y₂ =>
      simp only [add, coords_affine, ShortCurve.add, Fp.toZMod_inj]
      by_cases hx : x₁ = x₂
      · by_cases hy : y₁ = y₂
        · simp only [hx, hy, if_true, coords_double, coords_affine]
        · simp [hx, hy]
      · simp [hx]

end Point

namespace Jacobian

def toZMod (j : Jacobian) : ShortCurve.Jacobian (ZMod fieldPrime) :=
  ⟨j.x.toZMod, j.y.toZMod, j.z.toZMod⟩

@[simp] theorem toZMod_infinity : infinity.toZMod = ShortCurve.Jacobian.infinity := by
  simp [toZMod, infinity, ShortCurve.Jacobian.infinity]

theorem toZMod_double (j : Jacobian) : j.double.toZMod = j.toZMod.double := by
  simp only [double, isInfinity, Bool.or_eq_true, Fp.isZero_iff, ShortCurve.Jacobian.double]
  by_cases h : j.z.toZMod = 0 ∨ j.y.toZMod = 0
  · rw [if_pos h, if_pos (show j.toZMod.z = 0 ∨ j.toZMod.y = 0 from h), toZMod_infinity]
  · rw [if_neg h, if_neg (show ¬(j.toZMod.z = 0 ∨ j.toZMod.y = 0) from h)]
    simp only [toZMod, Fp.toZMod_sub, Fp.toZMod_mul, Fp.toZMod_add, Fp.toZMod_square,
      Fp.toZMod_small, UInt32.reduceToNat, Nat.cast_ofNat, ShortCurve.Jacobian.mk.injEq, true_and,
      and_true]
    ring

theorem toZMod_add (j : Jacobian) (x y : Fp) :
    (j.add ⟨x, y, Fp.one⟩).toZMod = j.toZMod.addAffine x.toZMod y.toZMod := by
  by_cases hz : j.z.toZMod = 0
  · simp [add, isInfinity, hz, ShortCurve.Jacobian.addAffine, toZMod, ShortCurve.Jacobian.ofAffine]
  simp only [add, isInfinity, Fp.isZero_iff, ShortCurve.Jacobian.addAffine, Fp.toZMod_one,
    one_ne_zero, if_false]
  rw [if_neg hz, if_neg (show ¬j.toZMod.z = 0 from hz)]
  have hh : ((x.mul j.z.square).sub j.x).toZMod = x.toZMod * j.toZMod.z ^ 2 - j.toZMod.x := by
    simp [toZMod]
  have hr : (((y.mul j.z.square).mul j.z).sub j.y).toZMod =
      y.toZMod * j.toZMod.z ^ 3 - j.toZMod.y := by
    simp [toZMod]
    ring
  rw [hh, hr]
  split
  · split
    · exact toZMod_double j
    · exact toZMod_infinity
  · simp only [toZMod, Fp.toZMod_sub, Fp.toZMod_mul, Fp.toZMod_square, Fp.toZMod_small,
      UInt32.reduceToNat, Nat.cast_ofNat, ShortCurve.Jacobian.mk.injEq, and_true]
    refine ⟨?_, ?_⟩ <;> ring

theorem coords_toAffine (j : Jacobian) : j.toAffine.coords = j.toZMod.coords := by
  by_cases hz : j.z.toZMod = 0
  · simp [toAffine, isInfinity, hz, ShortCurve.Jacobian.coords, toZMod]
  · simp [toAffine, isInfinity, hz, ShortCurve.Jacobian.coords, toZMod, pow_succ]

end Jacobian

namespace Point

/-- The two coordinates of an encoded point. -/
def decode (b : Bytes 40) : Option Point := fromCoords (b.slice 0 20) (b.slice 20 20)

theorem decode_toBytes {p : Point} (hp : p.isOnCurve = true) (hne : p ≠ infinity) :
    decode p.toBytes = some p := by
  cases p with
  | infinity => exact absurd rfl hne
  | affine x y =>
    have hx : (toBytes (affine x y)).slice 0 20 = x.toBeBytes := by
      apply Bytes.ext
      simp [toBytes]
    have hy : (toBytes (affine x y)).slice 20 20 = y.toBeBytes := by
      apply Bytes.ext
      simp [toBytes]
    simp only [decode, hx, hy, fromCoords, Fp.fromBeBytes_toBeBytes, hp, if_true]

theorem fromCoords_isOnCurve {x y : Bytes 20} {p : Point} (h : fromCoords x y = some p) :
    p.isOnCurve = true := by
  simp only [fromCoords] at h
  split at h
  · next hp =>
    rw [Option.some.injEq] at h
    subst h
    exact hp
  · cases h

end Point
