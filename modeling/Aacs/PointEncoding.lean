import Aacs.EcGroup

/-!
# Encodings of points

A coordinate is read modulo `p`, so that a number from `p` up to `2^160` stands
for the field element `p` below it. A point is written with both coordinates
below `p`, the one encoding of it with that property.
-/

open U160 Ec EcGroup

namespace Fp

theorem toNat_fromBeBytes (b : Bytes 20) :
    (fromBeBytes b).value.toNat = beNat b.toList % fieldPrime := by
  rw [fromBeBytes, fromU160_toNat, fromBeBytes_toNat, P_toNat]

theorem beNat_toBeBytes (a : Fp) : beNat a.toBeBytes.toList = a.value.toNat :=
  toBeBytes_toNat a.value

/-- What is written for a coordinate that was read. -/
theorem toBeBytes_fromBeBytes (b : Bytes 20) :
    (fromBeBytes b).toBeBytes.toList = beBytes 20 (beNat b.toList % fieldPrime) := by
  rw [← toNat_fromBeBytes, ← beNat_toBeBytes, Bytes.beBytes_toList]

/-- A coordinate is written back as it was read exactly when it is reduced. -/
theorem toBeBytes_fromBeBytes_eq_iff (b : Bytes 20) :
    (fromBeBytes b).toBeBytes = b ↔ beNat b.toList < fieldPrime := by
  have hpos : 0 < fieldPrime := fieldPrime_prime.pos
  constructor
  · intro h
    rw [← h, beNat_toBeBytes, toNat_fromBeBytes]
    exact Nat.mod_lt _ hpos
  · intro h
    apply Bytes.ext
    rw [toBeBytes_fromBeBytes, Nat.mod_eq_of_lt h, Bytes.beBytes_toList]

end Fp

namespace Point

theorem fromCoords_eq_some {x y : Bytes 20} {p : Point} (h : fromCoords x y = some p) :
    p = affine (Fp.fromBeBytes x) (Fp.fromBeBytes y) := by
  simp only [fromCoords] at h
  split at h
  · exact (Option.some.inj h).symm
  · cases h

/-- The encoding of infinity, two zeros, is that of no point. -/
theorem decode_infinity : decode infinity.toBytes = none := by
  have hzero : (Fp.fromBeBytes (Bytes.zero 20)).toZMod = 0 := by
    have hvalue : (Fp.fromBeBytes (Bytes.zero 20)).value.toNat = 0 :=
      Fp.toNat_fromBeBytes (Bytes.zero 20)
    rw [Fp.toZMod, hvalue, Nat.cast_zero]
  have hb : curveB ≠ 0 := by
    rw [curveB, Ne, ZMod.natCast_eq_zero_iff]
    decide +kernel
  rw [Option.eq_none_iff_forall_ne_some]
  intro p h
  have hcurve := fromCoords_isOnCurve h
  have hx : infinity.toBytes.slice 0 20 = Bytes.zero 20 := rfl
  have hy : infinity.toBytes.slice 20 20 = Bytes.zero 20 := rfl
  rw [fromCoords_eq_some h, hx, hy, isOnCurve_iff, coords_affine, hzero,
    ShortCurve.OnCurve] at hcurve
  apply hb
  linear_combination -hcurve

/-- A point is written back as it was read exactly when both coordinates are reduced. -/
theorem encodings_eq_iff {x y : Bytes 20} {p : Point} (h : fromCoords x y = some p) :
    p.toBytes.toList = x.toList ++ y.toList ↔ beNat x.toList < fieldPrime ∧ beNat y.toList <
      fieldPrime := by
  rw [fromCoords_eq_some h, toBytes, Bytes.append_toList, ← Fp.toBeBytes_fromBeBytes_eq_iff,
    ← Fp.toBeBytes_fromBeBytes_eq_iff, Bytes.ext_iff, Bytes.ext_iff]
  constructor
  · intro heq
    exact List.append_inj heq (by simp)
  · rintro ⟨hx, hy⟩
    rw [hx, hy]

/-- Points are read as they are written, and written reduced: the encoding read comes back exactly
when its coordinates are below `p`. -/
theorem encoding_reduced :
    (∀ x y : Fp, (affine x y).isOnCurve = true → decode (affine x y).toBytes = some (affine x y)) ∧
      ∀ (x y : Bytes 20) (p : Point), fromCoords x y = some p →
        p.toBytes.toList = beBytes 20 (beNat x.toList % fieldPrime) ++ beBytes 20
          (beNat y.toList % fieldPrime) ∧
          (p.toBytes.toList = x.toList ++ y.toList ↔ beNat x.toList < fieldPrime ∧ beNat y.toList <
            fieldPrime) := by
  constructor
  · intro x y hcurve
    exact decode_toBytes hcurve Point.noConfusion
  · intro x y p h
    constructor
    · rw [fromCoords_eq_some h, toBytes, Bytes.append_toList, Fp.toBeBytes_fromBeBytes,
        Fp.toBeBytes_fromBeBytes]
    · exact encodings_eq_iff h

theorem fromCoords_generator {x y : Bytes 20}
    (hx : beNat x.toList % fieldPrime = GX.toNat % fieldPrime)
    (hy : beNat y.toList % fieldPrime = GY.toNat % fieldPrime) :
    fromCoords x y = some generator := by
  have hfield {b : Bytes 20} {v : U160} (h : beNat b.toList % fieldPrime = v.toNat % fieldPrime) :
      Fp.fromBeBytes b = Fp.fromU160 v := by
    apply Fp.ext
    rw [← toNat_inj, Fp.toNat_fromBeBytes, Fp.fromU160_toNat, P_toNat, h]
  have hpoint : affine (Fp.fromBeBytes x) (Fp.fromBeBytes y) = generator := by
    rw [hfield hx, hfield hy, generator]
  rw [fromCoords, hpoint, if_pos generator_isOnCurve]

theorem encoding_reduced_generator :
    decode generator.toBytes = some generator ∧
      generator.toBytes.toList = beBytes 20 (beNat GX.toBeBytes.toList % fieldPrime) ++
        beBytes 20 (beNat GY.toBeBytes.toList % fieldPrime) := by
  have hread : fromCoords GX.toBeBytes GY.toBeBytes = some generator :=
    fromCoords_generator (by rw [toBeBytes_toNat]) (by rw [toBeBytes_toNat])
  obtain ⟨hpoints, hbytes⟩ := encoding_reduced
  exact ⟨hpoints _ _ generator_isOnCurve, (hbytes _ _ generator hread).1⟩

/-- The generator's x-coordinate, above `p`. -/
def lifted : Bytes 20 := Bytes.ofNat 20 (GX.toNat + fieldPrime)

theorem beNat_lifted : beNat lifted.toList = GX.toNat + fieldPrime := by
  have hfits : GX.toNat + fieldPrime < 256 ^ 20 := by decide +kernel
  rw [lifted, Bytes.ofNat, beNat_beBytes, Nat.mod_eq_of_lt hfits]

theorem encoding_not_canonical :
    ¬∀ (x y : Bytes 20) (p : Point), fromCoords x y = some p → p.toBytes.toList = x.toList ++
      y.toList := by
  have hread : fromCoords lifted GY.toBeBytes = some generator :=
    fromCoords_generator (by rw [beNat_lifted, Nat.add_mod_right]) (by rw [toBeBytes_toNat])
  intro h
  have hlt := ((encodings_eq_iff hread).mp (h lifted GY.toBeBytes generator hread)).1
  rw [beNat_lifted] at hlt
  omega

end Point
