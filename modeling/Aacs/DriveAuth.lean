import Aacs.AkeAgreement

/-!
# The drive's authentication state over whole runs

A drive may be sent challenges and keys in any order and any number of times.
What each call can do is said once; what holds of every state a run reaches
follows from it.
-/
namespace Ake

open Ec Mmc Ecdsa

/-- A call on the authentication state. -/
inductive Call where
  | hostCertChallenge (hostNonce : Bytes 20) (hostCert : Bytes 92)
  | driveKey
  | hostKey (hv hsig : Bytes 40)

namespace DriveAuthState

def perform (aes : Aes128) : Call → Proc DriveAuthState AacsError Unit
  | .hostCertChallenge hostNonce hostCert => acceptHostCertChallenge hostNonce hostCert
  | .driveKey => do
    let s ← Proc.get
    let _ ← Proc.lift (s.driveKeyResponse aes)
    pure ()
  | .hostKey hv hsig => acceptHostKey hv hsig

/-- The state after a run of calls, accepted or rejected. -/
def after (aes : Aes128) (s : DriveAuthState) (calls : List Call) : DriveAuthState :=
  calls.foldl (fun s c => (perform aes c s).2) s

variable {aes : Aes128} {s : DriveAuthState}

@[simp] theorem after_nil : after aes s [] = s := rfl

@[simp] theorem after_append_singleton (calls : List Call) (c : Call) :
    after aes s (calls ++ [c]) = (perform aes c (after aes s calls)).2 := by
  simp [after]

/-- What a host certificate must pass to be stored. -/
def Certified (aacsLaPub : Point) (raw : Bytes 92) (cert : Certificate) : Prop :=
  Certificate.parse raw certTypeHost = .ok cert ∧ cert.verifySignature aacsLaPub = true

/-- What the drive checks of a host key under a public key, and the bus key it gives. -/
def Authenticates (s : DriveAuthState) (publicKey : Point) (hv hsig : Bytes 40)
    (bk : Bytes 16) : Prop :=
  ∃ p, Point.decode hv = some p ∧ verify publicKey hsig (s.driveNonce.toList ++ hv.toList) = true ∧
    beNat bk.toList = (p.mulScalar s.dk).xU160.toNat % 2 ^ 128

/-- A call leaves the state alone, stores a certified host, or derives a bus key from a key
that the stored host signed. -/
theorem perform_cases (c : Call) (s : DriveAuthState) :
    (perform aes c s).2 = s ∨
    (∃ hostNonce hostCert cert, c = .hostCertChallenge hostNonce hostCert ∧
      Certified s.aacsLaPub hostCert cert ∧
      (perform aes c s).2 = { s with hostNonce := some hostNonce, hostCert := some hostCert }) ∨
    (∃ hv hsig stored cert bk, c = .hostKey hv hsig ∧ s.hostCert = some stored ∧
      Certificate.parse stored certTypeHost = .ok cert ∧ Authenticates s cert.publicKey hv hsig bk ∧
      (perform aes c s).2 = { s with busKey := some bk }) := by
  cases c with
  | driveKey =>
    left
    simp only [perform, Proc.get_bind]
    cases s.driveKeyResponse aes <;> rfl
  | hostCertChallenge hostNonce hostCert =>
    cases hparse : Certificate.parse hostCert certTypeHost with
    | err e => simp [perform, acceptHostCertChallenge, hparse]
    | panic => simp [perform, acceptHostCertChallenge, hparse]
    | ok cert =>
      by_cases hverify : cert.verifySignature s.aacsLaPub = true
      · exact .inr (.inl ⟨hostNonce, hostCert, cert, rfl, ⟨hparse, hverify⟩,
          by simp [perform, acceptHostCertChallenge_of_verified hostNonce hparse hverify]⟩)
      · simp [perform, acceptHostCertChallenge, hparse, hverify]
  | hostKey hv hsig =>
    cases hstored : s.hostCert with
    | none => simp [perform, acceptHostKey, hstored]
    | some stored =>
      cases hparse : Certificate.parse stored certTypeHost with
      | err e => simp [perform, acceptHostKey, hstored, hparse]
      | panic => simp [perform, acceptHostKey, hstored, hparse]
      | ok cert =>
        by_cases hverify : verify cert.publicKey hsig (s.driveNonce.toList ++ hv.toList) = true
        · cases hdecode : Point.decode hv with
          | none =>
            have hcoords : Point.fromCoords (hv.slice 0 20) (hv.slice 20 20) = none := hdecode
            simp [perform, acceptHostKey, hstored, hparse, hverify, hcoords]
          | some p =>
            refine .inr
              (.inr ⟨hv, hsig, stored, cert, _, rfl, rfl, hparse,
              ⟨p, hdecode, hverify, busKeyFromPoint_toNat _⟩, ?_⟩)
            simp [perform, acceptHostKey_of_verified hstored hparse hverify hdecode, hstored]
        · simp [perform, acceptHostKey, hstored, hparse, hverify]

/-- Only certified hosts are stored. -/
def HostsCertified (s : DriveAuthState) : Prop :=
  ∀ raw, s.hostCert = some raw → ∃ cert, Certified s.aacsLaPub raw cert

theorem HostsCertified.perform (h : HostsCertified s) (c : Call) :
    HostsCertified (DriveAuthState.perform aes c s).2 := by
  rcases @perform_cases aes c s with hs | ⟨hostNonce, hostCert, cert, -, hcert, hs⟩ |
    ⟨hv, hsig, stored, cert, bk, -, -, -, -, hs⟩
  · rw [hs]
    exact h
  · rw [hs]
    intro raw hraw
    obtain rfl := Option.some.inj hraw
    exact ⟨cert, hcert⟩
  · rw [hs]
    exact h

theorem HostsCertified.after (h : HostsCertified s) (calls : List Call) :
    HostsCertified (DriveAuthState.after aes s calls) := by
  induction calls generalizing s with
  | nil => exact h
  | cons c calls ih => exact ih (h.perform c)

theorem hostsCertified_new (driveCert : Bytes 92) (drivePriv dk : U160) (driveNonce : Bytes 20)
    (aacsLaPub : Point) : HostsCertified (new driveCert drivePriv dk driveNonce aacsLaPub) := by
  intro raw hraw
  cases hraw

theorem perform_challenge {hostCert : Bytes 92} {cert : Certificate} (hostNonce : Bytes 20)
    (hcert : Certified s.aacsLaPub hostCert cert) :
    (perform aes (.hostCertChallenge hostNonce hostCert) s).2 =
      { s with hostNonce := some hostNonce, hostCert := some hostCert } :=
  congrArg Prod.snd (acceptHostCertChallenge_of_verified hostNonce hcert.1 hcert.2)

/-- A challenge and a key that pass. -/
theorem after_handshake {hostNonce : Bytes 20} {hostCert : Bytes 92} {cert : Certificate}
    {hv hsig : Bytes 40} {p : Point} (hcert : Certified s.aacsLaPub hostCert cert)
    (hverify : verify cert.publicKey hsig (s.driveNonce.toList ++ hv.toList) = true)
    (hdecode : Point.decode hv = some p) :
    after aes s [.hostCertChallenge hostNonce hostCert, .hostKey hv hsig] =
      { s with hostNonce := some hostNonce, hostCert := some hostCert
               busKey := some (busKeyFromPoint (p.mulScalar s.dk)) } := by
  simp only [after, List.foldl_cons, List.foldl_nil, perform_challenge hostNonce hcert]
  exact congrArg Prod.snd
    (acceptHostKey_of_verified (a := challenged s hostNonce hostCert) rfl hcert.1 hverify hdecode)

/-- What a state reached by `calls` should be: the identity it started from, a nonce exactly
when there is a certificate, a certificate that is certified, and a bus key only from a key
among the calls that the certified host signed. -/
structure Authentic (start : DriveAuthState) (calls : List Call) (s : DriveAuthState) : Prop where
  identity : { s with hostNonce := none, hostCert := none, busKey := none } = start
  nonce : s.hostCert.isSome = s.hostNonce.isSome
  hostCert : ∀ raw, s.hostCert = some raw → ∃ cert, Certified start.aacsLaPub raw cert
  busKey : ∀ bk, s.busKey = some bk → ∃ raw cert hv hsig, s.hostCert = some raw ∧
    Certificate.parse raw certTypeHost = .ok cert ∧ .hostKey hv hsig ∈ calls ∧
    Authenticates start cert.publicKey hv hsig bk

/-- The call does not bring the certificate of another key while a bus key is held. -/
def KeepsHostKey (s : DriveAuthState) : Call → Prop
  | .hostCertChallenge _ hostCert => ∀ stored old new, s.busKey ≠ none → s.hostCert = some stored →
      Certificate.parse stored certTypeHost = .ok old → Certified s.aacsLaPub hostCert new →
      new.publicKey = old.publicKey
  | _ => True

/-- A fresh drive. -/
theorem authentic_new (driveCert : Bytes 92) (drivePriv dk : U160) (driveNonce : Bytes 20)
    (aacsLaPub : Point) :
    Authentic (new driveCert drivePriv dk driveNonce aacsLaPub) []
      (new driveCert drivePriv dk driveNonce aacsLaPub) where
  identity := rfl
  nonce := rfl
  hostCert := by simp [new]
  busKey := by simp [new]

/-- One call. -/
theorem Authentic.perform {start : DriveAuthState} {calls : List Call} (h : Authentic start calls s)
    (c : Call) (hc : KeepsHostKey s c) :
    Authentic start (calls ++ [c]) (DriveAuthState.perform aes c s).2 := by
  have hla : s.aacsLaPub = start.aacsLaPub := by rw [← h.identity]
  have hnonce : s.driveNonce = start.driveNonce := by rw [← h.identity]
  have hdk : s.dk = start.dk := by rw [← h.identity]
  have hmem {c' : Call} (h' : c' ∈ calls) : c' ∈ calls ++ [c] := List.mem_append_left _ h'
  rcases @perform_cases aes c s with hs | ⟨hn, raw, new, rfl, hnew, hs⟩ |
    ⟨hv, hsig, stored, cert, bk, rfl, hstored, hparse, hauth, hs⟩
  · rw [hs]
    refine ⟨h.identity, h.nonce, h.hostCert, fun bk hbk => ?_⟩
    obtain ⟨raw, cert, hv, hsig, hraw, hparse, hcall, hauth⟩ := h.busKey bk hbk
    exact ⟨raw, cert, hv, hsig, hraw, hparse, hmem hcall, hauth⟩
  · rw [hs]
    refine ⟨h.identity, rfl, fun raw' hraw' => ?_, fun bk hbk => ?_⟩
    · obtain rfl := Option.some.inj hraw'
      exact ⟨new, hla ▸ hnew⟩
    · -- The bus key was derived under the certificate stored before, which has the same key.
      obtain ⟨stored, old, hv, hsig, hstored, hparse, hcall, hauth⟩ := h.busKey bk hbk
      have hkey := hc stored old new (by simp_all) hstored hparse hnew
      exact ⟨raw, new, hv, hsig, rfl, hnew.1, hmem hcall, hkey ▸ hauth⟩
  · rw [hs]
    refine ⟨h.identity, h.nonce, h.hostCert, fun bk' hbk' => ?_⟩
    obtain rfl := Option.some.inj hbk'
    refine ⟨stored, cert, hv, hsig, hstored, hparse, List.mem_append_right _ List.mem_cons_self, ?_⟩
    rw [Authenticates, hnonce, hdk] at hauth
    exact hauth

/-- A run whose calls never bring another host's certificate while a bus key is held:
every state it reaches is authentic. -/
theorem after_authentic (aes : Aes128) (driveCert : Bytes 92) (drivePriv dk : U160)
    (driveNonce : Bytes 20) (aacsLaPub : Point) (calls : List Call)
    (h : ∀ before c rest, calls = before ++ c :: rest →
      KeepsHostKey (after aes (new driveCert drivePriv dk driveNonce aacsLaPub) before) c) :
    ∀ before rest, calls = before ++ rest →
      Authentic (new driveCert drivePriv dk driveNonce aacsLaPub) before
        (after aes (new driveCert drivePriv dk driveNonce aacsLaPub) before) := by
  intro before
  induction before using List.reverseRecOn with
  | nil => exact fun rest _ => authentic_new _ _ _ _ _
  | append_singleton before c ih =>
    intro rest hcalls
    rw [List.append_assoc] at hcalls
    rw [after_append_singleton]
    exact (ih _ hcalls).perform c (h before c rest hcalls)

/-- The first host is certified with the private scalar 1 and authenticates; then a certificate for
the private scalar 2 arrives. -/
def two : U160 := U160.ofLimbs 2 0 0 0 0

theorem inRange_two : InRange two := inRange_of_lt (by decide) (by decide +kernel)

def doubleGeneratorBytes : List UInt8 :=
  [0x53, 0x6E, 0x9C, 0x02, 0x25, 0x9B, 0x6C, 0x86, 0x2F, 0x3D, 0x2B, 0xEF, 0x74, 0x7B, 0xD2, 0xCD,
    0xFA, 0xC3, 0x87, 0x35, 0x72, 0xB8, 0xE4, 0x12, 0x4D, 0xE3, 0x2C, 0x82, 0xE3, 0xF8, 0xC1, 0xC6,
    0x7D, 0xC7, 0x6D, 0x31, 0x69, 0xD6, 0x94, 0x64]

theorem doubleGenerator_toBytes :
    (Point.generator.mulScalar two).toBytes.toList = doubleGeneratorBytes := by
  have hmul : CurveEval.multiple fieldPrime 160 GX.toNat GY.toNat two.toNat =
      some (beNat (doubleGeneratorBytes.take 20), beNat (doubleGeneratorBytes.drop 20)) := by
    decide +kernel
  rw [mulScalar_toBytes (by decide +kernel) (by decide +kernel) hmul]
  decide +kernel

/-- `Dn || Hv` of the example. -/
def hostKeyMessage : List UInt8 := (Bytes.zero 20).toList ++ generatorBytes

/-- The multiple of the generator the second key would have to hit. -/
def crossScalar : U160 := U160.ofLimbs 0x10655fc0 0x14d2e432 0xe2b1185b 0xdb037ee4 0x540d97b3

theorem xU160_one : (Point.generator.mulScalar U160.one).xU160.toNat = GX.toNat := by
  have hmul : CurveEval.multiple fieldPrime 160 GX.toNat GY.toNat U160.one.toNat =
      some (GX.toNat, GY.toNat) := by decide +kernel
  obtain ⟨X, Y, hR, hX, -⟩ := mulScalar_generator U160.one.toNat_lt hmul
  rw [hR, Point.xU160, Fp_value_of_toZMod (by decide +kernel) hX]

theorem xU160_cross : (Point.generator.mulScalar crossScalar).xU160.toNat =
    201197049484009494325199257284806046696530355322 := by
  have hmul : CurveEval.multiple fieldPrime 160 GX.toNat GY.toNat crossScalar.toNat =
      some (201197049484009494325199257284806046696530355322,
        541392210935693733980788150991863159016653579133) := by decide +kernel
  obtain ⟨X, Y, hR, hX, -⟩ := mulScalar_generator crossScalar.toNat_lt hmul
  rw [hR, Point.xU160, Fp_value_of_toZMod (by decide +kernel) hX]

/-- A signature of the first host that the second host's key rejects. -/
theorem exists_signature : ∃ sig, verify (publicKey U160.one) sig hostKeyMessage = true ∧
    verify (publicKey two) sig hostKeyMessage = false := by
  let e := digestToScalar (Sha1.sha1 hostKeyMessage)
  have heNat : e.toNat = beNat (Sha1.sha1 hostKeyMessage).toList % groupOrder :=
    digestToScalar_toNat _
  obtain ⟨sig, hsig⟩ : ∃ sig, signAttempt U160.one e U160.one = some sig := by
    apply attempt_of_attemptable (digestToScalar_lt _)
    rw [heNat, U160.toNat_one]
    decide +kernel
  obtain ⟨⟨hr, hs⟩, hverify⟩ := signAttempt_verifies inRange_one inRange_one.lt hsig
  refine ⟨sig, hverify, ?_⟩
  obtain ⟨-, -, hrEq, -, hsEq, -⟩ := signAttempt_eq_some hsig
  have hone : toScalar U160.one ≠ 0 := by
    rw [toScalar_one]
    exact one_ne_zero
  have hrScalar : toScalar (sigR sig) = (GX.toNat : ZMod groupOrder) := by
    rw [hrEq, toScalar_reduce, toScalar, xU160_one]
  have hsScalar : toScalar (sigS sig) = toScalar e + GX.toNat := by
    rw [hsEq, toScalar_mul, toScalar_inv _ hone, toScalar_add (digestToScalar_lt _)
      (scalarMul_lt _ _), toScalar_mul, hrScalar, toScalar_one, inv_one, one_mul, mul_one]
  have heq : toScalar (sigS sig) * toScalar crossScalar =
      toScalar e + toScalar (sigR sig) * toScalar two := by
    rw [hsScalar, hrScalar, toScalar, toScalar, toScalar, heNat]
    have hcongr : (beNat (Sha1.sha1 hostKeyMessage).toList % groupOrder + GX.toNat) *
      crossScalar.toNat %
        groupOrder = (beNat (Sha1.sha1 hostKeyMessage).toList % groupOrder + GX.toNat * two.toNat) %
        groupOrder := by decide +kernel
    have hcast := (ZMod.natCast_eq_natCast_iff' _ _ _).mpr hcongr
    push_cast at hcast
    exact_mod_cast hcast
  rw [← Bool.not_eq_true, verify_publicKey inRange_two hr hs heq]
  rintro ⟨-, hx⟩
  have hvalue := congrArg U160.toNat (hx.trans hrEq)
  rw [scalarReduce_toNat, scalarReduce_toNat, xU160_cross, xU160_one] at hvalue
  exact absurd hvalue (by decide +kernel)

/-- The drive of the example. -/
def start : DriveAuthState :=
  new (Bytes.zero 92) U160.one U160.one (Bytes.zero 20) (Point.generator.mulScalar U160.one)

theorem start_aacsLaPub : start.aacsLaPub = publicKey U160.one := rfl

/-- The first host's challenge and key leave the drive with a bus key. -/
theorem exists_authenticated : ∃ hostCert cert hv hsig bk,
    Certified start.aacsLaPub hostCert cert ∧ cert.publicKey = publicKey U160.one ∧
    verify (publicKey two) hsig (start.driveNonce.toList ++ hv.toList) = false ∧
    after Aes128.fips197 start [.hostCertChallenge (Bytes.zero 20) hostCert, .hostKey hv hsig] =
      { start with hostNonce := some (Bytes.zero 20), hostCert := some hostCert, busKey := some bk }
        := by
  obtain ⟨-, hostCert, -, -, hhostCert, -⟩ := signatures_one
  obtain ⟨cert, hparse, -, hkey, hcert⟩ := parse_minted inRange_one inRange_one hhostCert
  obtain ⟨hsig, hverify, hreject⟩ := exists_signature
  have hmessage : hostKeyMessage = start.driveNonce.toList ++ (publicKey U160.one).toBytes.toList :=
    by
    rw [hostKeyMessage, ← generator_toBytes]
    rfl
  rw [hmessage] at hverify hreject
  rw [← start_aacsLaPub] at hcert
  have hverify' : verify cert.publicKey hsig
      (start.driveNonce.toList ++ (publicKey U160.one).toBytes.toList) = true := by
    rw [hkey]
    exact hverify
  refine ⟨hostCert, cert, (publicKey U160.one).toBytes, hsig,
    busKeyFromPoint ((publicKey U160.one).mulScalar start.dk), ⟨hparse, hcert⟩, hkey, hreject, ?_⟩
  exact after_handshake ⟨hparse, hcert⟩ hverify' (decode_publicKey inRange_one)

/-- The only challenge comes first, when there is no bus key. -/
theorem after_authentic_first : ∃ hostCert hv hsig,
    let calls : List Call := [.hostCertChallenge (Bytes.zero 20) hostCert, .hostKey hv hsig]
    (after Aes128.fips197 start calls).busKey ≠ none ∧
      Authentic start calls (after Aes128.fips197 start calls) := by
  obtain ⟨hostCert, -, hv, hsig, bk, -, -, -, hafter⟩ := exists_authenticated
  refine ⟨hostCert, hv, hsig, by simp [hafter], ?_⟩
  refine after_authentic Aes128.fips197 (Bytes.zero 92) U160.one U160.one (Bytes.zero 20)
    (Point.generator.mulScalar U160.one) _ (fun before c rest hcalls => ?_) _ []
      (List.append_nil _).symm
  cases before with
  | nil =>
    obtain ⟨rfl, -⟩ := List.cons.inj hcalls
    exact fun _ _ _ hbk => absurd rfl hbk
  | cons c₁ before =>
    cases before with
    | nil =>
      obtain ⟨-, hrest⟩ := List.cons.inj hcalls
      obtain ⟨rfl, -⟩ := List.cons.inj hrest
      trivial
    | cons c₂ before => simp at hcalls

/-- After a second host's certificate the bus key of the first is still held. -/
theorem stale_bus_key : ∃ hostCert hostCert' hv hsig,
    let calls : List Call := [.hostCertChallenge (Bytes.zero 20) hostCert, .hostKey hv hsig,
      .hostCertChallenge (Bytes.zero 20) hostCert']
    ¬Authentic start calls (after Aes128.fips197 start calls) := by
  obtain ⟨hostCert, cert, hv, hsig, bk, -, -, hreject, hafter⟩ := exists_authenticated
  obtain ⟨hostCert', hhostCert'⟩ :=
    buildSignedCertificate_one certTypeHost doubleGenerator_toBytes (by decide +kernel)
  obtain ⟨cert', hparse', -, hkey', hcert'⟩ := parse_minted inRange_two inRange_one hhostCert'
  rw [← start_aacsLaPub] at hcert'
  refine ⟨hostCert, hostCert', hv, hsig, ?_⟩
  intro calls hauthentic
  have hcalls : after Aes128.fips197 start calls =
      { start with
        hostNonce := some (Bytes.zero 20), hostCert := some hostCert', busKey := some bk } := by
    have hsplit : calls = [.hostCertChallenge (Bytes.zero 20) hostCert, .hostKey hv hsig] ++
        [.hostCertChallenge (Bytes.zero 20) hostCert'] := rfl
    rw [hsplit, after_append_singleton, hafter]
    exact perform_challenge (Bytes.zero 20) ⟨hparse', hcert'⟩
  rw [hcalls] at hauthentic
  obtain ⟨raw, new, hv', hsig', hraw, hparse, hmem, p, -, hverify, -⟩ := hauthentic.busKey bk rfl
  obtain rfl := Option.some.inj hraw
  obtain rfl := Outcome.ok.inj (hparse'.symm.trans hparse)
  obtain ⟨rfl, rfl⟩ : hv' = hv ∧ hsig' = hsig := by simpa [calls] using hmem
  rw [hkey', hreject] at hverify
  exact absurd hverify (by decide)

end DriveAuthState

end Ake
