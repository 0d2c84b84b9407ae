import Aacs.Ladder
import Aacs.ShortCurve

/-!
# Multiples of a point in natural numbers

The Jacobian ladder over remainders modulo a prime `q`, written so that the
kernel evaluates it: every intermediate value is forced before it is used
twice. It computes the multiples of a group element of the curve.
-/
namespace CurveEval

open Ladder

variable {α : Type} {q : Nat}

/-- Continue with an evaluated number. -/
def force (n : Nat) (f : Nat → α) : α :=
  match n with
  | 0 => f 0
  | m + 1 => f (m + 1)

@[simp] theorem force_eq (n : Nat) (f : Nat → α) : force n f = f n := by
  cases n <;> rfl

structure Triple where
  x : Nat
  y : Nat
  z : Nat

def subMod (q a b : Nat) : Nat := (a + (q - b % q)) % q

def double (q : Nat) (t : Triple) : Triple :=
  if t.z % q = 0 ∨ t.y % q = 0 then ⟨1, 1, 0⟩ else
    force (t.z * t.z % q) fun zz =>
    force (t.y * t.y % q) fun yy =>
    force (3 * subMod q t.x zz * (t.x + zz) % q) fun m =>
    force (4 * t.x * yy % q) fun s =>
    force (subMod q (m * m) (2 * s)) fun x₃ =>
    force (subMod q (m * subMod q s x₃) (8 * (yy * yy))) fun y₃ =>
    force (2 * t.y * t.z % q) fun z₃ => ⟨x₃, y₃, z₃⟩

def addAffine (q : Nat) (t : Triple) (x y : Nat) : Triple :=
  if t.z % q = 0 then ⟨x, y, 1⟩ else
    force (t.z * t.z % q) fun zz =>
    force (subMod q (x * zz) t.x) fun h =>
    force (subMod q (y * zz * t.z) t.y) fun r =>
    if h = 0 then
      if r = 0 then double q t else ⟨1, 1, 0⟩
    else
      force (h * h % q) fun hh =>
      force (hh * h % q) fun hhh =>
      force (t.x * hh % q) fun v =>
      force (subMod q (subMod q (r * r) hhh) (2 * v)) fun x₃ =>
      force (subMod q (r * subMod q v x₃) (t.y * hhh)) fun y₃ =>
      force (t.z * h % q) fun z₃ => ⟨x₃, y₃, z₃⟩

def step (q x y : Nat) (t : Triple) (b : Bool) : Triple :=
  bif b then addAffine q (double q t) x y else double q t

/-- `k·(x, y)`, for a multiplier of at most `bits` bits. -/
def ladder (q bits x y k : Nat) : Triple := msbFold (step q x y) k.testBit bits ⟨1, 1, 0⟩

/-- Divide the triple out, with a Fermat inverse. -/
def toAffine (q bits : Nat) (t : Triple) : Option (Nat × Nat) :=
  if t.z % q = 0 then none else
    force (powMod q bits t.z (q - 2)) fun zinv =>
    force (zinv * zinv % q) fun zinv₂ => some (t.x * zinv₂ % q, t.y * (zinv₂ * zinv) % q)

def multiple (q bits x y k : Nat) : Option (Nat × Nat) := toAffine q bits (ladder q bits x y k)

section
variable [Fact q.Prime]

def Triple.cast (t : Triple) (q : Nat) : ShortCurve.Jacobian (ZMod q) := ⟨t.x, t.y, t.z⟩

theorem mod_eq_zero {n : Nat} : n % q = 0 ↔ (n : ZMod q) = 0 := by
  rw [ZMod.natCast_eq_zero_iff, Nat.dvd_iff_mod_eq_zero]

theorem subMod_eq_zero {a b : Nat} : subMod q a b = 0 ↔ ((subMod q a b : Nat) : ZMod q) = 0 := by
  rw [← mod_eq_zero, subMod, Nat.mod_mod]

@[simp] theorem cast_subMod (a b : Nat) : ((subMod q a b : Nat) : ZMod q) = a - b := by
  have hle : b % q ≤ q := (Nat.mod_lt b (Fact.out : q.Prime).pos).le
  rw [subMod, ZMod.natCast_mod, Nat.cast_add, Nat.cast_sub hle, ZMod.natCast_self,
    ZMod.natCast_mod, zero_sub, sub_eq_add_neg]

theorem cast_double (t : Triple) : (double q t).cast q = (t.cast q).double := by
  simp only [double, mod_eq_zero, force_eq, ShortCurve.Jacobian.double]
  by_cases h : (t.z : ZMod q) = 0 ∨ (t.y : ZMod q) = 0
  · rw [if_pos h, if_pos (show (t.cast q).z = 0 ∨ (t.cast q).y = 0 from h)]
    simp [Triple.cast, ShortCurve.Jacobian.infinity]
  · rw [if_neg h, if_neg (show ¬((t.cast q).z = 0 ∨ (t.cast q).y = 0) from h)]
    simp only [Triple.cast, ShortCurve.Jacobian.mk.injEq, cast_subMod, ZMod.natCast_mod,
      Nat.cast_mul, Nat.cast_add, Nat.cast_ofNat, and_true]
    refine ⟨?_, ?_⟩ <;> ring

theorem cast_addAffine (t : Triple) (x y : Nat) :
    (addAffine q t x y).cast q = (t.cast q).addAffine x y := by
  simp only [addAffine, mod_eq_zero, force_eq, subMod_eq_zero, ShortCurve.Jacobian.addAffine]
  by_cases hz : (t.z : ZMod q) = 0
  · rw [if_pos hz, if_pos (show (t.cast q).z = 0 from hz)]
    simp [Triple.cast, ShortCurve.Jacobian.ofAffine]
  rw [if_neg hz, if_neg (show ¬(t.cast q).z = 0 from hz)]
  have hh : ((subMod q (x * (t.z * t.z % q)) t.x : Nat) : ZMod q) =
      x * (t.cast q).z ^ 2 - (t.cast q).x := by
    simp [Triple.cast, sq]
  have hr : ((subMod q (y * (t.z * t.z % q) * t.z) t.y : Nat) : ZMod q) =
      y * (t.cast q).z ^ 3 - (t.cast q).y := by
    simp [Triple.cast]
    ring
  rw [hh, hr]
  split
  · split
    · exact cast_double t
    · simp [Triple.cast, ShortCurve.Jacobian.infinity]
  · simp only [Triple.cast, ShortCurve.Jacobian.mk.injEq, cast_subMod, ZMod.natCast_mod,
      Nat.cast_mul, Nat.cast_ofNat]
    refine ⟨?_, ?_, ?_⟩ <;> ring

variable {b : ZMod q} {A : (ShortCurve.curve b).Point} {x y : Nat}

/-- One bit of the ladder takes `m·A` to `(2m + bit)·A`. -/
theorem coords_step (htwo : (2 : ZMod q) ≠ 0)
    (hA : ShortCurve.coords A = some ((x : ZMod q), (y : ZMod q))) (m : Nat) (t : Triple) (c : Bool)
    (h : (t.cast q).coords = ShortCurve.coords (m • A)) :
    ((step q x y t c).cast q).coords = ShortCurve.coords ((2 * m + c.toNat) • A) := by
  have hdouble : ((double q t).cast q).coords = ShortCurve.coords ((2 * m) • A) := by
    rw [cast_double, ShortCurve.Jacobian.coords_double htwo, h, ShortCurve.double_coords htwo,
      two_mul, add_nsmul]
  cases c
  · simpa [step] using hdouble
  · rw [step, cond_true, cast_addAffine, ShortCurve.Jacobian.coords_addAffine htwo, hdouble, ← hA,
      ShortCurve.add_coords htwo, Bool.toNat_true, succ_nsmul]

theorem coords_ladder (htwo : (2 : ZMod q) ≠ 0)
    (hA : ShortCurve.coords A = some ((x : ZMod q), (y : ZMod q))) (bits k : Nat)
    (hk : k < 2 ^ bits) :
    ((ladder q bits x y k).cast q).coords = ShortCurve.coords (k • A) := by
  refine msbFold_of_size_le (fun m (t : Triple) => (t.cast q).coords = ShortCurve.coords (m • A))
    _ _ _ _ ?_ (Nat.size_le.mpr hk) ?_
  · intro m t c h
    exact coords_step htwo hA m t c h
  · simp [Triple.cast, ShortCurve.Jacobian.coords]

theorem toAffine_eq (bits : Nat) (t : Triple) (hbits : q < 2 ^ bits) :
    (toAffine q bits t).map (fun p => ((p.1 : ZMod q), (p.2 : ZMod q))) = (t.cast q).coords := by
  by_cases hz : (t.z : ZMod q) = 0
  · simp [toAffine, mod_eq_zero, hz, ShortCurve.Jacobian.coords, Triple.cast]
  · have hinv : ((powMod q bits t.z (q - 2) : Nat) : ZMod q) = (t.z : ZMod q)⁻¹ := by
      have htwo := (Fact.out : q.Prime).two_le
      rw [powMod_spec _ _ _ _ (by omega), ZMod.natCast_mod, Nat.cast_pow, zmod_fermat_inv hz]
    simp only [toAffine, mod_eq_zero, hz, if_false, force_eq, Option.map_some,
      ShortCurve.Jacobian.coords, Triple.cast, ZMod.natCast_mod, Nat.cast_mul, hinv]
    congr 2 <;> ring

/-- The evaluator computes multiples in the group. -/
theorem multiple_eq (htwo : (2 : ZMod q) ≠ 0)
    (hA : ShortCurve.coords A = some ((x : ZMod q), (y : ZMod q))) (bits k : Nat)
    (hk : k < 2 ^ bits) (hbits : q < 2 ^ bits) :
    (multiple q bits x y k).map (fun p => ((p.1 : ZMod q), (p.2 : ZMod q))) =
      ShortCurve.coords (k • A) := by
  rw [multiple, toAffine_eq bits _ hbits, coords_ladder htwo hA bits k hk]

end

end CurveEval
