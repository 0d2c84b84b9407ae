import Aacs.AesCipher
import Aacs.EcGroup
import Aacs.Sha1

/-!
# ECDSA over the AACS curve

`AACS_Sign` and `AACS_Verify`, with the SHA-1 digest, the retry loop on
degenerate per-signature scalars, and the deterministic derivation of `k`.
-/
namespace Ecdsa

open U160 Ec

/-- `r(20) || s(20)`. -/
abbrev Signature := Bytes 40

def digestToScalar (digest : Bytes 20) : U160 := scalarReduce (U160.fromBeBytes digest)

variable (aes : Aes128)

/-- The 160-bit candidate both derivations take from a seed: `AES-H` and the first
four bytes of its digest. -/
def candidate (buf : List UInt8) : U160 :=
  let h := Aes.aesH aes buf
  let extra := Sha1.sha1 h.toList
  scalarReduce (U160.fromBeBytes (h.append (extra.slice 0 4)))

/-- Fold the attempt index in on a degenerate retry. -/
def rederiveK (prev : U160) (attempt : UInt8) : U160 :=
  candidate aes (prev.toBeBytes.toList ++ [attempt + 1])

/-- One pass of the signing loop: `none` when `k`, `R`, `r` or `s` is degenerate. -/
def signAttempt (privKey e k : U160) : Option Signature :=
  if k.isZero then none else
  let rPoint := Point.generator.mulScalar k
  if rPoint.isInfinity then none else
  let r := scalarReduce rPoint.xU160
  if r.isZero then none else
  let kinv := scalarInv k
  let rd := scalarMul r privKey
  let s := scalarMul kinv (scalarAdd e rd)
  if s.isZero then none else
  some (r.toBeBytes.append s.toBeBytes)

/-- `for attempt in 0..8`, with the attempts that remain. -/
def signLoop (privKey e : U160) : Nat → UInt8 → U160 → Option Signature
  | 0, _, _ => none
  | n + 1, attempt, k =>
    match signAttempt privKey e k with
    | some sig => some sig
    | none => signLoop privKey e n (attempt + 1) (rederiveK aes k attempt)

def signWithK (privKey : U160) (data : List UInt8) (k : U160) : Option Signature :=
  let e := digestToScalar (Sha1.sha1 data)
  signLoop aes privKey e 8 0 (scalarReduce k)

/-- `derive_k`: the first counter whose candidate is not zero. The counter wraps after
256 tries, from where the loop only repeats itself: `none` is a loop without end. -/
def deriveLoop (privKey : U160) (data : List UInt8) : Nat → UInt8 → Option U160
  | 0, _ => none
  | n + 1, counter =>
    let k := candidate aes (privKey.toBeBytes.toList ++ data ++ [counter])
    if k.isZero then deriveLoop privKey data n (counter + 1) else some k

def deriveK (privKey : U160) (data : List UInt8) : Option U160 := deriveLoop aes privKey data 256 0

/-- `AACS_Sign` with the derived `k`; it panics when the retries are exhausted. -/
def sign {ε : Type} (privKey : U160) (data : List UInt8) : Outcome ε Signature := do
  let k ← Outcome.expect (deriveK aes privKey data)
  Outcome.expect (signWithK aes privKey data k)

/-- The two components of a signature, as numbers. -/
def sigR (sig : Signature) : U160 := U160.fromBeBytes (sig.slice 0 20)

def sigS (sig : Signature) : U160 := U160.fromBeBytes (sig.slice 20 20)

/-- `AACS_Verify`. -/
def verify (pubKey : Point) (sig : Signature) (data : List UInt8) : Bool :=
  let r := sigR sig
  let s := sigS sig
  if r.isZero || s.isZero then false
  else if r.cmp N ≠ .lt ∨ s.cmp N ≠ .lt then false
  else if pubKey.isInfinity || !pubKey.isOnCurve then false
  else
    let e := digestToScalar (Sha1.sha1 data)
    let w := scalarInv s
    let u₁ := scalarMul e w
    let u₂ := scalarMul r w
    let x := (Point.generator.mulScalar u₁).add (pubKey.mulScalar u₂)
    if x.isInfinity then false else scalarReduce x.xU160 = r

theorem sigR_append (r s : U160) : sigR (r.toBeBytes.append s.toBeBytes) = r := by
  have h : (r.toBeBytes.append s.toBeBytes).slice 0 20 = r.toBeBytes := by
    apply Bytes.ext
    simp
  rw [sigR, h, U160.fromBeBytes_toBeBytes]

theorem sigS_append (r s : U160) : sigS (r.toBeBytes.append s.toBeBytes) = s := by
  have h : (r.toBeBytes.append s.toBeBytes).slice 20 20 = s.toBeBytes := by
    apply Bytes.ext
    simp
  rw [sigS, h, U160.fromBeBytes_toBeBytes]

/-- A scalar in `[1, n - 1]`. -/
def InRange (v : U160) : Prop := 0 < v.toNat ∧ v.toNat < N.toNat

theorem InRange.lt {v : U160} (h : InRange v) : v.toNat < groupOrder := N_toNat ▸ h.2

theorem inRange_of_lt {v : U160} (hpos : v.toNat ≠ 0) (hlt : v.toNat < groupOrder) : InRange v :=
  ⟨Nat.pos_of_ne_zero hpos, by rwa [N_toNat]⟩

/-- The public point of a private scalar. -/
def publicKey (d : U160) : Point := Point.generator.mulScalar d

variable {aes} {d e k : U160} {sig : Signature} {data : List UInt8}

theorem publicKey_isOnCurve (d : U160) : (publicKey d).isOnCurve = true :=
  (EcGroup.is_mul_generator d).isOnCurve

theorem publicKey_ne_infinity (hd : InRange d) : publicKey d ≠ .infinity := by
  rw [Ne, publicKey, (EcGroup.is_mul_generator d).eq_infinity_iff, EcGroup.smul_G_eq_zero,
    ← toScalar, toScalar_eq_zero hd.lt]
  exact Nat.pos_iff_ne_zero.mp hd.1

/-- What an attempt that returns a signature went through. -/
theorem signAttempt_eq_some (h : signAttempt d e k = some sig) :
    k.toNat ≠ 0 ∧ Point.generator.mulScalar k ≠ .infinity ∧
      sigR sig = scalarReduce (Point.generator.mulScalar k).xU160 ∧ (sigR sig).toNat ≠ 0 ∧
      sigS sig = scalarMul (scalarInv k) (scalarAdd e (scalarMul (sigR sig) d)) ∧
      (sigS sig).toNat ≠ 0 := by
  simp only [signAttempt] at h
  split at h
  · cases h
  next hk =>
  split at h
  · cases h
  next hinf =>
  split at h
  · cases h
  next hr =>
  split at h
  · cases h
  next hs =>
  rw [Option.some.injEq] at h
  subst h
  rw [sigR_append, sigS_append]
  rw [U160.isZero_iff] at hk hr hs
  exact ⟨hk, fun hp => hinf (Point.isInfinity_iff.mpr hp), rfl, hr, rfl, hs⟩

/-- The verifier's combination of the two points is the signer's `R`:
`u₁·G + u₂·(d·G) = k·G` when `s·k = e + r·d`. -/
theorem combination_eq {r s : U160} (hs : toScalar s ≠ 0)
    (heq : toScalar s * toScalar k = toScalar e + toScalar r * toScalar d) :
    (Point.generator.mulScalar (scalarMul e (scalarInv s))).add
      ((publicKey d).mulScalar (scalarMul r (scalarInv s))) = Point.generator.mulScalar k := by
  have hleft := (EcGroup.is_mul_generator (scalarMul e (scalarInv s))).add
    ((EcGroup.is_mul_generator d).mulScalar (scalarMul r (scalarInv s)))
  have hsum : (scalarMul e (scalarInv s)).toNat • EcGroup.G +
      (scalarMul r (scalarInv s)).toNat • d.toNat • EcGroup.G = k.toNat • EcGroup.G := by
    rw [smul_smul, ← add_nsmul, EcGroup.smul_G_eq_iff, Nat.cast_add, Nat.cast_mul, ← toScalar,
      ← toScalar, ← toScalar, ← toScalar, toScalar_mul, toScalar_mul, toScalar_inv _ hs]
    field_simp
    linear_combination -heq
  rw [hsum] at hleft
  exact hleft.unique (EcGroup.is_mul_generator k)

theorem digestToScalar_lt (digest : Bytes 20) : (digestToScalar digest).toNat < groupOrder :=
  scalarReduce_lt _

/-- Under a key with private scalar `d`, verification compares `r` with the x-coordinate of
`k·G`, for the `k` with `s·k = e + r·d`. -/
theorem verify_publicKey (hd : InRange d) (hr : InRange (sigR sig)) (hs : InRange (sigS sig))
    (heq : toScalar (sigS sig) * toScalar k =
      toScalar (digestToScalar (Sha1.sha1 data)) + toScalar (sigR sig) * toScalar d) :
    verify (publicKey d) sig data = true ↔ Point.generator.mulScalar k ≠ .infinity ∧
      scalarReduce (Point.generator.mulScalar k).xU160 = sigR sig := by
  have hsne : toScalar (sigS sig) ≠ 0 :=
    mt (toScalar_eq_zero hs.lt).mp (Nat.pos_iff_ne_zero.mp hs.1)
  have hzero : ((sigR sig).isZero || (sigS sig).isZero) = false := by
    have hr₀ := Nat.pos_iff_ne_zero.mp hr.1
    have hs₀ := Nat.pos_iff_ne_zero.mp hs.1
    simp [Bool.eq_false_iff, U160.isZero_iff, hr₀, hs₀]
  have hrange : ¬((sigR sig).cmp N ≠ .lt ∨ (sigS sig).cmp N ≠ .lt) := by
    simp [cmp_eq_lt, hr.2, hs.2]
  have hpub : ((publicKey d).isInfinity || !(publicKey d).isOnCurve) = false := by
    have hne := mt Point.isInfinity_iff.mp (publicKey_ne_infinity hd)
    simp [publicKey_isOnCurve, hne]
  unfold verify
  simp only [hzero, hrange, hpub, combination_eq hsne heq, if_false, Bool.false_eq_true]
  by_cases hinf : Point.generator.mulScalar k = .infinity
  · simp [hinf, Point.isInfinity]
  · have hne := mt Point.isInfinity_iff.mp hinf
    simp [hinf, hne]

/-- One attempt is sound: its signature is in range and verifies. -/
theorem signAttempt_verifies (hd : InRange d) (hk : k.toNat < groupOrder)
    (h : signAttempt d (digestToScalar (Sha1.sha1 data)) k = some sig) :
    (InRange (sigR sig) ∧ InRange (sigS sig)) ∧ verify (publicKey d) sig data = true := by
  obtain ⟨hk₀, hR, hr, hr₀, hs, hs₀⟩ := signAttempt_eq_some h
  have hrIn : InRange (sigR sig) := inRange_of_lt hr₀ (hr ▸ scalarReduce_lt _)
  have hsIn : InRange (sigS sig) := inRange_of_lt hs₀ (hs ▸ scalarMul_lt _ _)
  have hkne : toScalar k ≠ 0 := mt (toScalar_eq_zero hk).mp hk₀
  have heq : toScalar (sigS sig) * toScalar k =
      toScalar (digestToScalar (Sha1.sha1 data)) + toScalar (sigR sig) * toScalar d := by
    have hscalar := congrArg toScalar hs
    rw [toScalar_mul, toScalar_inv k hkne,
      toScalar_add (digestToScalar_lt _) (scalarMul_lt _ _), toScalar_mul] at hscalar
    rw [hscalar]
    field_simp
  exact ⟨⟨hrIn, hsIn⟩, (verify_publicKey hd hrIn hsIn heq).mpr ⟨hR, hr.symm⟩⟩

theorem rederiveK_lt (prev : U160) (attempt : UInt8) :
    (rederiveK aes prev attempt).toNat < groupOrder := scalarReduce_lt _

theorem signLoop_verifies (hd : InRange d) (n : Nat) (attempt : UInt8) (hk : k.toNat < groupOrder)
    (h : signLoop aes d (digestToScalar (Sha1.sha1 data)) n attempt k = some sig) :
    (InRange (sigR sig) ∧ InRange (sigS sig)) ∧ verify (publicKey d) sig data = true := by
  induction n generalizing attempt k with
  | zero => cases h
  | succ n ih =>
    rw [signLoop] at h
    split at h
    · next hs =>
      exact signAttempt_verifies hd hk (hs.trans h)
    · exact ih _ (rederiveK_lt _ _) h

/-- Whatever `k` it is given, a signature that comes out is in range and verifies. -/
theorem signWithK_verifies (hd : InRange d) (h : signWithK aes d data k = some sig) :
    (InRange (sigR sig) ∧ InRange (sigS sig)) ∧ verify (publicKey d) sig data = true :=
  signLoop_verifies hd 8 0 (scalarReduce_lt k) h

theorem sign_verifies {ε : Type} (hd : InRange d)
    (h : (sign aes d data : Outcome ε Signature) = .ok sig) :
    verify (publicKey d) sig data = true := by
  rw [sign, Outcome.bind_eq_ok] at h
  obtain ⟨k, -, hk⟩ := h
  exact (signWithK_verifies hd (Outcome.expect_eq_ok.mp hk)).2

/-- The test of an attempt in natural numbers: `k·G` is finite, and neither `r` nor
`e + r·d` vanishes. -/
def attemptable (d e k : Nat) : Bool :=
  CurveEval.force k fun k =>
    match CurveEval.multiple fieldPrime 160 GX.toNat GY.toNat k with
    | none => false
    | some (x, _) =>
      k % groupOrder != 0 && x < fieldPrime && x % groupOrder != 0 &&
        (e + x % groupOrder * d) % groupOrder != 0

theorem mulScalar_generator {x y : Nat} (hk : k.toNat < 2 ^ 160)
    (h : CurveEval.multiple fieldPrime 160 GX.toNat GY.toNat k.toNat = some (x, y)) :
    ∃ X Y : Fp, Point.generator.mulScalar k = .affine X Y ∧
      X.toZMod = (x : ZMod fieldPrime) ∧ Y.toZMod = (y : ZMod fieldPrime) := by
  have hcoords := (EcGroup.is_mul_generator k).trans (EcGroup.coords_smul_G k.toNat hk).symm
  rw [h] at hcoords
  cases hp : Point.generator.mulScalar k with
  | infinity => simp [hp] at hcoords
  | affine X Y =>
    rw [hp, Point.coords_affine] at hcoords
    simp only [Option.map_some, Option.some.injEq, Prod.mk.injEq] at hcoords
    exact ⟨X, Y, rfl, hcoords⟩

theorem Fp_value_of_toZMod {X : Fp} {x : Nat} (hx : x < fieldPrime)
    (h : X.toZMod = (x : ZMod fieldPrime)) : X.value.toNat = x := by
  have hX := X.reduced
  rw [P_toNat] at hX
  rwa [Fp.toZMod, ZMod.natCast_eq_natCast_iff', Nat.mod_eq_of_lt hX, Nat.mod_eq_of_lt hx] at h

theorem toBeBytes_eq (v : U160) : v.toBeBytes.toList = beBytes 20 v.toNat := by
  rw [← toBeBytes_toNat, Bytes.beBytes_toList]

/-- The encoding of an evaluated multiple of the generator. -/
theorem mulScalar_toBytes {x y : Nat} (hx : x < fieldPrime) (hy : y < fieldPrime)
    (h : CurveEval.multiple fieldPrime 160 GX.toNat GY.toNat k.toNat = some (x, y)) :
    (Point.generator.mulScalar k).toBytes.toList = beBytes 20 x ++ beBytes 20 y := by
  obtain ⟨X, Y, hR, hX, hY⟩ := mulScalar_generator k.toNat_lt h
  rw [hR, Point.toBytes, Bytes.append_toList, Fp.toBeBytes, Fp.toBeBytes, toBeBytes_eq,
    toBeBytes_eq, Fp_value_of_toZMod hx hX, Fp_value_of_toZMod hy hY]

theorem attempt_of_attemptable (he : e.toNat < groupOrder)
    (h : attemptable d.toNat e.toNat k.toNat = true) : ∃ sig, signAttempt d e k = some sig := by
  simp only [attemptable, CurveEval.force_eq] at h
  split at h
  · cases h
  next x y hmul =>
  simp only [Bool.and_eq_true, bne_iff_ne, decide_eq_true_eq] at h
  obtain ⟨⟨⟨hk₀, hx⟩, hr₀⟩, hs₀⟩ := h
  obtain ⟨X, Y, hR, hX, -⟩ := mulScalar_generator k.toNat_lt hmul
  have hr : (scalarReduce X.value).toNat = x % groupOrder := by
    rw [scalarReduce_toNat, Fp_value_of_toZMod hx hX]
  have hk₁ : k.isZero = false := by
    rw [Bool.eq_false_iff, Ne, U160.isZero_iff]
    intro hzero
    simp [hzero] at hk₀
  have hkne : toScalar k ≠ 0 := by
    rw [Ne, toScalar, ZMod.natCast_eq_zero_iff, Nat.dvd_iff_mod_eq_zero]
    exact hk₀
  have hr₁ : (scalarReduce X.value).isZero = false := by
    rw [Bool.eq_false_iff, Ne, U160.isZero_iff, hr]
    exact hr₀
  have hsum : toScalar (scalarAdd e (scalarMul (scalarReduce X.value) d)) ≠ 0 := by
    rw [toScalar_add he (scalarMul_lt _ _), toScalar_mul, toScalar, toScalar, toScalar, hr,
      ← Nat.cast_mul, ← Nat.cast_add, Ne, ZMod.natCast_eq_zero_iff, Nat.dvd_iff_mod_eq_zero]
    exact hs₀
  have hs₁ : (scalarMul (scalarInv k) (scalarAdd e (scalarMul (scalarReduce X.value) d))).isZero =
      false := by
    rw [Bool.eq_false_iff, Ne, U160.isZero_iff, ← toScalar_eq_zero (scalarMul_lt _ _), toScalar_mul,
      toScalar_inv k hkne]
    exact mul_ne_zero (inv_ne_zero hkne) hsum
  refine ⟨(scalarReduce X.value).toBeBytes.append
    (scalarMul (scalarInv k) (scalarAdd e (scalarMul (scalarReduce X.value) d))).toBeBytes, ?_⟩
  simp only [signAttempt, hk₁, hR, Point.isInfinity, Point.xU160, hr₁, hs₁, if_false,
    Bool.false_eq_true]

theorem digestToScalar_toNat (digest : Bytes 20) :
    (digestToScalar digest).toNat = beNat digest.toList % groupOrder := by
  rw [digestToScalar, scalarReduce_toNat, U160.fromBeBytes_toNat]

/-- A first attempt that succeeds ends the loop. -/
theorem signWithK_of_attemptable
    (h : attemptable d.toNat (beNat (Sha1.sha1 data).toList % groupOrder)
      (k.toNat % groupOrder) = true) : ∃ sig, signWithK aes d data k = some sig := by
  rw [← digestToScalar_toNat, ← scalarReduce_toNat] at h
  obtain ⟨sig, hsig⟩ := attempt_of_attemptable (digestToScalar_lt _) h
  exact ⟨sig, by rw [signWithK, signLoop, hsig]⟩

theorem candidate_toNat (buf : List UInt8) : (candidate aes buf).toNat =
    beNat ((Aes.aesH aes buf).append ((Sha1.sha1 (Aes.aesH aes buf).toList).slice 0 4)).toList %
      groupOrder := by
  rw [candidate, scalarReduce_toNat, U160.fromBeBytes_toNat]

/-- The derived scalar of the first counter, as a number. -/
def firstK (aes : Aes128) (d : Nat) (data : List UInt8) : Nat :=
  let h := Aes.aesH aes (beBytes 20 d ++ data ++ [0])
  beNat (h.toList ++ (Sha1.sha1 h.toList).toList.take 4) % groupOrder

/-- The test that signing succeeds at the first counter and the first attempt. -/
def signable (aes : Aes128) (d : Nat) (data : List UInt8) : Bool :=
  firstK aes d data != 0 &&
    attemptable d (beNat (Sha1.sha1 data).toList % groupOrder) (firstK aes d data % groupOrder)

theorem sign_of_signable {ε : Type} (h : signable aes d.toNat data = true) :
    ∃ sig, (sign aes d data : Outcome ε Signature) = .ok sig := by
  simp only [signable, Bool.and_eq_true, bne_iff_ne] at h
  obtain ⟨hk₀, hattempt⟩ := h
  have hk : (candidate aes (d.toBeBytes.toList ++ data ++ [0])).toNat =
      firstK aes d.toNat data := by
    rw [candidate_toNat, toBeBytes_eq]
    simp [firstK]
  have hderive : deriveK aes d data = some (candidate aes (d.toBeBytes.toList ++ data ++ [0])) := by
    rw [deriveK, deriveLoop, if_neg]
    rw [U160.isZero_iff, hk]
    exact hk₀
  rw [← hk] at hattempt
  obtain ⟨sig, hsig⟩ : ∃ sig, signWithK aes d data _ = some sig := signWithK_of_attemptable hattempt
  exact ⟨sig, by rw [sign, hderive, Outcome.expect_some, Outcome.bind_ok, hsig,
    Outcome.expect_some]⟩

theorem inRange_one : InRange U160.one := inRange_of_lt (by simp) (by decide +kernel)

theorem sign_one {ε : Type} (h : signable aes 1 data = true) :
    ∃ sig, (sign aes U160.one data : Outcome ε Signature) = .ok sig :=
  sign_of_signable (U160.toNat_one.symm ▸ h)

theorem exists_verified_one (h : signable aes 1 data = true) :
    ∃ sig, verify (publicKey U160.one) sig data = true := by
  obtain ⟨sig, hsig⟩ := sign_one (ε := Empty) h
  exact ⟨sig, sign_verifies inRange_one hsig⟩

/-- Whatever signing returns, its components lie in `[1, n - 1]` and it verifies under
the public point of the private scalar. -/
theorem ecdsa_complete (aes : Aes128) (d k : U160) (message : List UInt8) (sig : Signature)
    (hd : InRange d) (h : signWithK aes d message k = some sig) :
    InRange (U160.fromBeBytes (sig.slice 0 20)) ∧ InRange (U160.fromBeBytes (sig.slice 20 20)) ∧
      verify (Point.generator.mulScalar d) sig message = true := by
  obtain ⟨⟨hr, hs⟩, hv⟩ := signWithK_verifies hd h
  exact ⟨hr, hs, hv⟩

theorem ecdsa_complete_abc : ∃ sig,
    signWithK Aes128.fips197 (ofLimbs 5 0 0 0 0) [0x61, 0x62, 0x63] (ofLimbs 7 0 0 0 0) = some sig ∧
      InRange (U160.fromBeBytes (sig.slice 0 20)) ∧ InRange (U160.fromBeBytes (sig.slice 20 20)) ∧
      verify (Point.generator.mulScalar (ofLimbs 5 0 0 0 0)) sig [0x61, 0x62, 0x63] = true := by
  have hd : InRange (ofLimbs 5 0 0 0 0) := inRange_of_lt (by decide) (by decide +kernel)
  obtain ⟨sig, hsig⟩ : ∃ sig, signWithK Aes128.fips197 (ofLimbs 5 0 0 0 0) [0x61, 0x62, 0x63]
      (ofLimbs 7 0 0 0 0) = some sig := signWithK_of_attemptable (by decide +kernel)
  exact ⟨sig, hsig, ecdsa_complete _ _ _ _ _ hd hsig⟩

end Ecdsa
