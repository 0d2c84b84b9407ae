import Aacs.Ecdsa
import Aacs.Residues

/-!
# What verifies

A signature verifies under a public key exactly when it is what one attempt of the
signer returns for some per-signature scalar. The scalar and its negative give the same
`r` and opposite `s`, so a signature that verifies has a second form that verifies too.
-/
namespace EcGroup

open Ec

/-- Opposite points have one x-coordinate. -/
theorem Is.xU160_neg {p q : Point} {A : Group} (hp : Is p A) (hq : Is q (-A)) :
    p.xU160 = q.xU160 := by
  cases A with
  | zero =>
    have hp₀ : p = .infinity := hp.eq_infinity_iff.mpr rfl
    have hq₀ : q = .infinity := hq.eq_infinity_iff.mpr neg_zero
    rw [hp₀, hq₀]
  | some x y h =>
    have hq' : q.coords = some (x, -y) := hq.trans (ShortCurve.coords_neg h)
    have hp' : p.coords = some (x, y) := hp
    cases p with
    | infinity => cases hp'
    | affine px py =>
      cases q with
      | infinity => cases hq'
      | affine qx qy =>
        rw [Point.coords_affine, Option.some.injEq, Prod.mk.injEq] at hp' hq'
        have hx : px = qx := Fp.toZMod_injective (hp'.1.trans hq'.1.symm)
        rw [Point.xU160, Point.xU160, hx]

end EcGroup

namespace Ecdsa

open U160 Ec

variable {d e k : U160} {sig : Signature} {data : List UInt8}

theorem toScalar_injOn {a b : U160} (ha : a.toNat < groupOrder) (hb : b.toNat < groupOrder)
    (h : toScalar a = toScalar b) : a = b := by
  rw [← U160.toNat_inj, scalar_eq_val ha h, scalar_eq_val hb rfl]

/-- A signature is its two components. -/
theorem sig_eq_append (sig : Signature) : sig = (sigR sig).toBeBytes.append
    (sigS sig).toBeBytes := by
  have hsplit : sig.slice 0 20 = (sigR sig).toBeBytes ∧ sig.slice 20 20 = (sigS sig).toBeBytes :=
    ⟨(U160.toBeBytes_fromBeBytes _).symm, (U160.toBeBytes_fromBeBytes _).symm⟩
  have htake : (sig.toList.drop 20).take 20 = sig.toList.drop 20 := List.take_of_length_le (by simp)
  apply Bytes.ext
  rw [← hsplit.1, ← hsplit.2]
  simp [htake]

theorem sig_ext {sig sig' : Signature} (hr : sigR sig = sigR sig') (hs : sigS sig = sigS sig') :
    sig = sig' := by
  rw [sig_eq_append sig, sig_eq_append sig', hr, hs]

/-- What an attempt checks, and what it returns. -/
theorem signAttempt_eq_some_iff : signAttempt d e k = some sig ↔
    k.toNat ≠ 0 ∧ Point.generator.mulScalar k ≠ .infinity ∧
      sigR sig = scalarReduce (Point.generator.mulScalar k).xU160 ∧ (sigR sig).toNat ≠ 0 ∧
      sigS sig = scalarMul (scalarInv k) (scalarAdd e (scalarMul (sigR sig) d)) ∧
      (sigS sig).toNat ≠ 0 := by
  constructor
  · exact signAttempt_eq_some
  · rintro ⟨hk, hR, hr, hr₀, hs, hs₀⟩
    have hkZero : k.isZero ≠ true := mt U160.isZero_iff.mp hk
    have hrZero : (sigR sig).isZero ≠ true := mt U160.isZero_iff.mp hr₀
    have hsZero : (sigS sig).isZero ≠ true := mt U160.isZero_iff.mp hs₀
    have hinf : (Point.generator.mulScalar k).isInfinity ≠ true := mt Point.isInfinity_iff.mp hR
    simp only [signAttempt]
    rw [if_neg hkZero, if_neg hinf, ← hr, if_neg hrZero, ← hs, if_neg hsZero, ← sig_eq_append]

/-- In the field of scalars: `r` is the x-coordinate of `k·G`, and `s·k = e + r·d`. -/
theorem signAttempt_iff (hk : k.toNat < groupOrder) (he : e.toNat < groupOrder) :
    signAttempt d e k = some sig ↔
      InRange (sigR sig) ∧ InRange (sigS sig) ∧ k.toNat ≠ 0 ∧
        sigR sig = scalarReduce (Point.generator.mulScalar k).xU160 ∧
        toScalar (sigS sig) * toScalar k = toScalar e + toScalar (sigR sig) * toScalar d := by
  have hscalar (hk₀ : k.toNat ≠ 0) : toScalar
    (scalarMul (scalarInv k) (scalarAdd e (scalarMul (sigR sig) d))) *
      toScalar k = toScalar e + toScalar (sigR sig) * toScalar d := by
    have hkne : toScalar k ≠ 0 := toScalar_ne_zero hk hk₀
    rw [toScalar_mul, toScalar_inv k hkne, toScalar_add he (scalarMul_lt _ _), toScalar_mul]
    field_simp
  rw [signAttempt_eq_some_iff]
  constructor
  · rintro ⟨hk₀, -, hr, hr₀, hs, hs₀⟩
    have hrIn : InRange (sigR sig) := inRange_of_lt hr₀ (hr ▸ scalarReduce_lt _)
    have hsIn : InRange (sigS sig) := inRange_of_lt hs₀ (hs ▸ scalarMul_lt _ _)
    have heq := hscalar hk₀
    rw [← hs] at heq
    exact ⟨hrIn, hsIn, hk₀, hr, heq⟩
  · rintro ⟨hrIn, hsIn, hk₀, hr, heq⟩
    have hkne : toScalar k ≠ 0 := toScalar_ne_zero hk hk₀
    have hinf : Point.generator.mulScalar k ≠ .infinity := by
      rw [Ne, (EcGroup.is_mul_generator k).eq_infinity_iff, EcGroup.smul_G_eq_zero]
      exact hkne
    have hs : sigS sig = scalarMul (scalarInv k) (scalarAdd e (scalarMul (sigR sig) d)) := by
      apply toScalar_injOn hsIn.lt (scalarMul_lt _ _)
      exact mul_right_cancel₀ hkne (heq.trans (hscalar hk₀).symm)
    exact ⟨hk₀, hinf, hr, Nat.pos_iff_ne_zero.mp hrIn.1, hs, Nat.pos_iff_ne_zero.mp hsIn.1⟩

/-- A signature that verifies has both components in range. -/
theorem inRange_of_verify {pubKey : Point} (h : verify pubKey sig data = true) :
    InRange (sigR sig) ∧ InRange (sigS sig) := by
  simp only [verify] at h
  split at h
  · cases h
  next hzero =>
  split at h
  · cases h
  next hlt =>
  rw [Bool.or_eq_true, not_or, U160.isZero_iff, U160.isZero_iff] at hzero
  rw [not_or, not_not, not_not, cmp_eq_lt, cmp_eq_lt] at hlt
  exact ⟨⟨Nat.pos_iff_ne_zero.mpr hzero.1, hlt.1⟩, ⟨Nat.pos_iff_ne_zero.mpr hzero.2, hlt.2⟩⟩

/-- The signer must have used `k = s⁻¹·(e + r·d)`. -/
theorem verify_publicKey_iff (hd : InRange d) : verify (publicKey d) sig data = true ↔
    ∃ k, InRange k ∧ signAttempt d (digestToScalar (Sha1.sha1 data)) k = some sig := by
  constructor
  · intro h
    obtain ⟨hr, hs⟩ := inRange_of_verify h
    have hsne : toScalar (sigS sig) ≠ 0 := toScalar_ne_zero hs.lt (Nat.pos_iff_ne_zero.mp hs.1)
    let e := digestToScalar (Sha1.sha1 data)
    let k := scalarMul (scalarInv (sigS sig)) (scalarAdd e (scalarMul (sigR sig) d))
    have he : e.toNat < groupOrder := digestToScalar_lt _
    have hk : k.toNat < groupOrder := scalarMul_lt _ _
    have heq : toScalar (sigS sig) * toScalar k = toScalar e + toScalar (sigR sig) *
        toScalar d := by
      rw [toScalar_mul, toScalar_inv _ hsne, toScalar_add he (scalarMul_lt _ _), toScalar_mul]
      field_simp
    obtain ⟨hinf, hx⟩ := (verify_publicKey hd hr hs heq).mp h
    have hk₀ : k.toNat ≠ 0 := by
      rw [Ne, ← toScalar_eq_zero hk, toScalar, ← EcGroup.smul_G_eq_zero,
        ← (EcGroup.is_mul_generator k).eq_infinity_iff]
      exact hinf
    exact ⟨k, inRange_of_lt hk₀ hk, (signAttempt_iff hk he).mpr ⟨hr, hs, hk₀, hx.symm, heq⟩⟩
  · rintro ⟨k, hk, hsig⟩
    exact (signAttempt_verifies hd hk.lt hsig).2

theorem inRange_five : InRange (ofLimbs 5 0 0 0 0) := inRange_of_lt (by decide) (by decide +kernel)

/-- Under the public key of a private scalar, exactly the signatures that one attempt of the
signer returns for some per-signature scalar verify. -/
theorem verify_exact (d : U160) (sig : Signature) (message : List UInt8) (hd : InRange d) :
    verify (Point.generator.mulScalar d) sig message = true ↔
      ∃ k, InRange k ∧ signAttempt d (digestToScalar (Sha1.sha1 message)) k = some sig :=
  verify_publicKey_iff hd

/-- A signature of `abc` that verifies. -/
theorem exists_verified_abc : ∃ sig,
    verify (Point.generator.mulScalar (ofLimbs 5 0 0 0 0)) sig [0x61, 0x62, 0x63] = true := by
  obtain ⟨sig, hsig⟩ : ∃ sig, signWithK Aes128.fips197 (ofLimbs 5 0 0 0 0) [0x61, 0x62, 0x63]
      (ofLimbs 7 0 0 0 0) = some sig := signWithK_of_attemptable (by decide +kernel)
  exact ⟨sig, (signWithK_verifies inRange_five hsig).2⟩

theorem verify_exact_abc : ∃ sig, verify (Point.generator.mulScalar (ofLimbs 5 0 0 0 0)) sig
    [0x61, 0x62, 0x63] = true ∧
    ∃ k, InRange k ∧ signAttempt (ofLimbs 5 0 0 0 0) (digestToScalar (Sha1.sha1 [0x61, 0x62, 0x63]))
      k = some sig := by
  obtain ⟨sig, hsig⟩ := exists_verified_abc
  exact ⟨sig, hsig, (verify_exact _ _ _ inRange_five).mp hsig⟩

/-- `r` and `n - s`. -/
def flipped (sig : Signature) : Signature :=
  (sigR sig).toBeBytes.append (N.sbb (sigS sig)).1.toBeBytes

@[simp] theorem sigR_flipped (sig : Signature) : sigR (flipped sig) = sigR sig := sigR_append _ _

@[simp] theorem sigS_flipped (sig : Signature) : sigS (flipped sig) = (N.sbb (sigS sig)).1 :=
  sigS_append _ _

theorem flipped_flipped (sig : Signature) : flipped (flipped sig) = sig := by
  have hs := sbb_spec N (sigS sig)
  have hs' := sbb_spec N (N.sbb (sigS sig)).1
  have hlt := (sigS sig).toNat_lt
  have hlt' := (N.sbb (N.sbb (sigS sig)).1).1.toNat_lt
  apply sig_ext
  · rw [sigR_flipped, sigR_flipped]
  · rw [sigS_flipped, sigS_flipped, ← U160.toNat_inj]
    omega

/-- `n - s`, for an `s` in range. -/
theorem sbb_inRange {v : U160} (hv : InRange v) :
    InRange (N.sbb v).1 ∧ toScalar (N.sbb v).1 = -toScalar v := by
  have hsub : (N.sbb v).1.toNat = groupOrder - v.toNat := by rw [sbb_of_le hv.2.le, N_toNat]
  have hpos := hv.1
  have hlt := hv.lt
  constructor
  · exact inRange_of_lt (by omega) (by omega)
  · rw [toScalar, hsub, Nat.cast_sub hlt.le, ZMod.natCast_self, zero_sub, ← toScalar]

/-- Signing with `n - k` in place of `k` gives the second form. -/
theorem signAttempt_flipped (hk : InRange k) (he : e.toNat < groupOrder)
    (h : signAttempt d e k = some sig) :
    signAttempt d e (N.sbb k).1 = some (flipped sig) := by
  obtain ⟨hr, hs, -, hx, heq⟩ := (signAttempt_iff hk.lt he).mp h
  obtain ⟨hk', hkNeg⟩ := sbb_inRange hk
  obtain ⟨hs', hsNeg⟩ := sbb_inRange hs
  have hpoint : (Point.generator.mulScalar (N.sbb k).1).xU160 =
      (Point.generator.mulScalar k).xU160 := by
    have hneg : (N.sbb k).1.toNat • EcGroup.G = -(k.toNat • EcGroup.G) := by
      rw [eq_neg_iff_add_eq_zero, ← add_nsmul, EcGroup.smul_G_eq_zero, Nat.cast_add, ← toScalar,
        ← toScalar, hkNeg, neg_add_cancel]
    have hmul := EcGroup.is_mul_generator (N.sbb k).1
    rw [hneg] at hmul
    exact ((EcGroup.is_mul_generator k).xU160_neg hmul).symm
  rw [signAttempt_iff hk'.lt he, sigR_flipped, sigS_flipped]
  refine ⟨hr, hs', Nat.pos_iff_ne_zero.mp hk'.1, hx.trans (congrArg scalarReduce hpoint.symm), ?_⟩
  rw [hsNeg, hkNeg, neg_mul_neg, heq]

/-- Under the public key of a private scalar, a signature verifies exactly when its second
form does, and that form is another signature. -/
theorem verify_flipped (d : U160) (sig : Signature) (message : List UInt8) (hd : InRange d) :
    verify (Point.generator.mulScalar d) (flipped sig) message = verify
      (Point.generator.mulScalar d) sig message ∧
      (verify (Point.generator.mulScalar d) sig message = true → flipped sig ≠ sig) := by
  have hflip (sig : Signature) (h : verify (publicKey d) sig message = true) :
      verify (publicKey d) (flipped sig) message = true := by
    obtain ⟨k, hk, hsig⟩ := (verify_publicKey_iff hd).mp h
    exact (verify_publicKey_iff hd).mpr ⟨_, (sbb_inRange hk).1,
      signAttempt_flipped hk (digestToScalar_lt _) hsig⟩
  constructor
  · rw [Bool.eq_iff_iff]
    constructor
    · intro h
      have h' := hflip _ h
      rwa [flipped_flipped] at h'
    · exact hflip sig
  · intro h heq
    have hs := (inRange_of_verify h).2
    have hfixed := congrArg (fun sig => (sigS sig).toNat) heq
    have hodd : groupOrder % 2 = 1 := by decide +kernel
    rw [sigS_flipped, sbb_of_le hs.2.le, N_toNat] at hfixed
    have hlt := hs.lt
    omega

theorem verify_flipped_abc : ∃ sig,
    verify (Point.generator.mulScalar (ofLimbs 5 0 0 0 0)) sig [0x61, 0x62, 0x63] = true ∧
      verify (Point.generator.mulScalar (ofLimbs 5 0 0 0 0)) (flipped sig)
        [0x61, 0x62, 0x63] = true ∧
      flipped sig ≠ sig := by
  obtain ⟨sig, hsig⟩ := exists_verified_abc
  obtain ⟨heq, hne⟩ := verify_flipped _ sig [0x61, 0x62, 0x63] inRange_five
  exact ⟨sig, hsig, heq.trans hsig, hne hsig⟩

end Ecdsa
