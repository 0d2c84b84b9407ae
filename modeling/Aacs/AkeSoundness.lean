import Aacs.Ake

/-!
# The host against an arbitrary drive

Nothing is assumed of the drive here: `Answers` ranges over every response it
may give at every step. A handshake that succeeds has verified what it
received, a check that fails ends it before the host key is sent, and no step
looks at the status byte.
-/
namespace Ake

open Mmc Prog

variable {aes : Aes128} {creds : HostCredentials} {hostNonce : Bytes 20} {hk : U160}

abbrev Log := List (Exchange Command ScsiResponse AacsError)

theorem checkDriveCert_eq_ok {aacsLaPub : Point} {data : List UInt8} {dn : Bytes 20}
    {cert : Certificate} : checkDriveCert aacsLaPub data = .ok (dn, cert) ↔
      parseReportKeyDriveCertChal data = .ok (dn, cert.raw) ∧
        Certificate.parse cert.raw certTypeDrive = .ok cert ∧
        cert.verifySignature aacsLaPub = true := by
  simp only [checkDriveCert, Outcome.bind_eq_ok, Outcome.refuseIf_eq_ok, Outcome.pure_eq,
    Outcome.ok.injEq, Prod.mk.injEq, Bool.not_eq_false]
  constructor
  · rintro ⟨⟨dn', raw⟩, hparse, cert', hcert, _, hverify, rfl, rfl⟩
    obtain rfl : cert'.raw = raw := (Certificate.parse_eq_ok.mp hcert).2.2.2.2.2.2
    exact ⟨hparse, hcert, hverify⟩
  · rintro ⟨hparse, hcert, hverify⟩
    exact ⟨_, hparse, _, hcert, (), hverify, rfl, rfl⟩

theorem checkDriveKey_eq_ok {cert : Certificate} {data : List UInt8} {dv : Point} :
    checkDriveKey cert hostNonce data = .ok dv ↔
      ∃ dvBytes dsig, parseReportKeyDriveKey data = .ok (dvBytes, dsig) ∧
        Ecdsa.verify cert.publicKey dsig (hostNonce.toList ++ dvBytes.toList) = true ∧
        Point.decode dvBytes = some dv := by
  simp only [checkDriveKey, Outcome.bind_eq_ok, Outcome.refuseIf_eq_ok, Outcome.okOr_eq_ok,
    Bool.not_eq_false, Point.decode]
  constructor
  · rintro ⟨⟨dvBytes, dsig⟩, hparse, _, hverify, hdv⟩
    exact ⟨dvBytes, dsig, hparse, hverify, hdv⟩
  · rintro ⟨dvBytes, dsig, hparse, hverify, hdv⟩
    exact ⟨_, hparse, (), hverify, hdv⟩

theorem Certificate.parse_returns (raw : Bytes 92) (expectedType : UInt8) :
    (Certificate.parse raw expectedType).Returns := by
  apply (Outcome.returns_refuseIf _ _).bind
  intro _ _
  apply (Outcome.returns_refuseIf _ _).bind
  intro _ _
  apply (Outcome.returns_okOr _ _).bind
  intro _ _
  exact Outcome.returns_ok _

theorem checkDriveCert_returns (aacsLaPub : Point) (data : List UInt8) :
    (checkDriveCert aacsLaPub data).Returns := by
  apply (parseFields_returns _ _ _ _ _).bind
  intro _ _
  apply (Certificate.parse_returns _ _).bind
  intro _ _
  apply (Outcome.returns_refuseIf _ _).bind
  intro _ _
  exact Outcome.returns_ok _

theorem checkDriveKey_returns (cert : Certificate) (hostNonce : Bytes 20) (data : List UInt8) :
    (checkDriveKey cert hostNonce data).Returns := by
  apply (parseFields_returns _ _ _ _ _).bind
  intro _ _
  apply (Outcome.returns_refuseIf _ _).bind
  intro _ _
  apply Outcome.returns_okOr

/-- The commands of the handshake, the last two with what the host puts in them. -/
def agidCommand : Command := reportKeyCommand ReportKey.aacsAgid

def hostCertCommand (agid : UInt8) (hostNonce : Bytes 20) (hostCert : Bytes 92) : Command :=
  sendKeyCommand (SendKey.aacsHostCertChallenge agid) (buildSendKeyHostCertChal hostNonce hostCert)

def driveCertCommand (agid : UInt8) : Command :=
  reportKeyCommand (ReportKey.aacsDriveCertChallenge agid)

def driveKeyCommand (agid : UInt8) : Command := reportKeyCommand (ReportKey.aacsDriveKey agid)

def hostKeyCommand (agid : UInt8) (hv hsig : Bytes 40) : Command :=
  sendKeyCommand (SendKey.aacsHostKey agid) (buildSendKeyHostKey hv hsig)

/-- `Hv = hk·G`, encoded. -/
def hostPoint (hk : U160) : Bytes 40 := (Point.generator.mulScalar hk).toBytes

/-- The result of a handshake that went through. -/
def akeResult (hk : U160) (hostNonce : Bytes 20) (agid : UInt8) (dn : Bytes 20) (cert : Certificate)
    (dv : Point) : AkeResult :=
  { busKey := busKeyFromPoint (dv.mulScalar hk), driveCert := cert, hostNonce,
    driveNonce := dn, agid }

def responses (log : Log) : List (Result ScsiResponse) := log.map Exchange.response

@[simp] theorem responses_nil : responses [] = [] := rfl

@[simp] theorem responses_cons (c : Command) (r : Result ScsiResponse) (log : Log) :
    responses (⟨c, r⟩ :: log) = r :: responses log := rfl

/-- A `SEND KEY` command with the Host Key format. -/
def Command.IsHostKey (c : Command) : Prop :=
  c.cdb.get 0 = sendKeyOpcode ∧ c.cdb.get 10 &&& 0x3F = kfSendAacsHostKey

theorem reportKeyCommand_not_hostKey (rk : ReportKey) : ¬(reportKeyCommand rk).IsHostKey := by
  rintro ⟨hop, -⟩
  have hne : reportKeyOpcode ≠ sendKeyOpcode := by decide
  exact hne hop

theorem hostCertCommand_not_hostKey (agid : UInt8) (hostCert : Bytes 92) :
    ¬(hostCertCommand agid hostNonce hostCert).IsHostKey := by
  rintro ⟨-, hkf⟩
  have hpack : (hostCertCommand agid hostNonce hostCert).cdb.get 10 =
      packAgid (agid &&& 0x03) kfSendAacsHostCertChal := rfl
  rw [hpack, packAgid_keyFormat] at hkf
  exact absurd hkf (by decide)

/-- What the host has once the drive has proved itself: the AGID, `Dn`, the drive
certificate and `Dv`. -/
structure DriveProof where
  agid : UInt8
  driveNonce : Bytes 20
  driveCert : Certificate
  dv : Point

/-- Steps 5-22: everything up to the last check. -/
def authenticateDrive (creds : HostCredentials) (hostNonce : Bytes 20) : Host DriveProof := do
  let agidResp ← Prog.execute (reportKeyCommand ReportKey.aacsAgid)
  let agid ← Prog.lift (parseReportKeyAgid agidResp.data)
  let _ ← Prog.execute (hostCertCommand agid hostNonce creds.hostCert)
  let certResp ← Prog.execute (driveCertCommand agid)
  let dn ← Prog.lift (checkDriveCert creds.aacsLaPub certResp.data)
  let keyResp ← Prog.execute (driveKeyCommand agid)
  let dv ← Prog.lift (checkDriveKey dn.2 hostNonce keyResp.data)
  pure ⟨agid, dn.1, dn.2, dv⟩

/-- Steps 23-29: the host key. -/
def sendHostKey (aes : Aes128) (creds : HostCredentials) (hostNonce : Bytes 20) (hk : U160)
    (d : DriveProof) : Host AkeResult := do
  let hsig ← Prog.lift
    (Ecdsa.sign aes creds.hostPriv (d.driveNonce.toList ++ (hostPoint hk).toList))
  let _ ← Prog.execute (hostKeyCommand d.agid (hostPoint hk) hsig)
  pure (akeResult hk hostNonce d.agid d.driveNonce d.driveCert d.dv)

theorem hostAuthenticate_eq : hostAuthenticate aes creds hostNonce hk =
    authenticateDrive creds hostNonce >>= sendHostKey aes creds hostNonce hk := by
  simp only [authenticateDrive, bind_assoc_prog]
  rfl

/-- The first three commands, and the fourth when it comes to it. -/
def proofLog (agid : UInt8) (hostNonce : Bytes 20) (hostCert : Bytes 92)
    (r₁ r₂ r₃ r₄ : ScsiResponse) : Log :=
  [⟨agidCommand, .ok r₁⟩, ⟨hostCertCommand agid hostNonce hostCert, .ok r₂⟩,
    ⟨driveCertCommand agid, .ok r₃⟩, ⟨driveKeyCommand agid, .ok r₄⟩]

/-- The payloads that prove a drive. -/
def Proves (creds : HostCredentials) (hostNonce : Bytes 20) (r₁ r₃ r₄ : ScsiResponse)
    (d : DriveProof) : Prop :=
  parseReportKeyAgid r₁.data = .ok d.agid ∧
    checkDriveCert creds.aacsLaPub r₃.data = .ok (d.driveNonce, d.driveCert) ∧
    checkDriveKey d.driveCert hostNonce r₄.data = .ok d.dv

/-- The drive is authenticated exactly by payloads that pass the three checks. -/
theorem authenticateDrive_ok : Ensures (authenticateDrive creds hostNonce) fun log o =>
    ∀ d, o = .ok d → ∃ r₁ r₂ r₃ r₄,
      log = proofLog d.agid hostNonce creds.hostCert r₁ r₂ r₃ r₄ ∧
        Proves creds hostNonce r₁ r₃ r₄ d := by
  unfold authenticateDrive
  apply Ensures.execute_bind_ok
  intro r₁
  apply Ensures.lift_bind_ok
  intro agid hagid
  apply Ensures.execute_bind_ok
  intro r₂
  apply Ensures.execute_bind_ok
  intro r₃
  apply Ensures.lift_bind_ok
  intro dn hdn
  apply Ensures.execute_bind_ok
  intro r₄
  apply Ensures.lift_bind_ok
  intro dv hdv
  apply Ensures.ret_ok
  exact ⟨r₁, r₂, r₃, r₄, rfl, hagid, hdn, hdv⟩

/-- No command before the checks is a host key. -/
theorem authenticateDrive_issues :
    Issues (fun c => ¬c.IsHostKey) (authenticateDrive creds hostNonce) := by
  apply Issues.execute_bind
  · exact reportKeyCommand_not_hostKey _
  intro r₁
  apply Issues.lift_bind
  intro agid _
  apply Issues.execute_bind
  · exact hostCertCommand_not_hostKey agid creds.hostCert
  intro r₂
  apply Issues.execute_bind
  · exact reportKeyCommand_not_hostKey _
  intro r₃
  apply Issues.lift_bind
  intro dn _
  apply Issues.execute_bind
  · exact reportKeyCommand_not_hostKey _
  intro r₄
  apply Issues.lift_bind
  intro dv _
  exact Issues.ret _

/-- The received certificate fails its checks. -/
def CertFails (creds : HostCredentials) (log : Log) : Prop :=
  ∃ r₃, (responses log)[2]? = some (.ok r₃) ∧ ∀ x, checkDriveCert creds.aacsLaPub r₃.data ≠ .ok x

/-- The certificate passes and `Dsig` or `Dv` fails. -/
def KeyFails (creds : HostCredentials) (hostNonce : Bytes 20) (log : Log) : Prop :=
  ∃ r₃ r₄ dn cert, (responses log)[2]? = some (.ok r₃) ∧ (responses log)[3]? = some (.ok r₄) ∧
    checkDriveCert creds.aacsLaPub r₃.data = .ok (dn, cert) ∧
    ∀ dv, checkDriveKey cert hostNonce r₄.data ≠ .ok dv

/-- A failed check is an error. -/
theorem authenticateDrive_stops : Ensures (authenticateDrive creds hostNonce) fun log o =>
    CertFails creds log ∨ KeyFails creds hostNonce log → ∃ e, o = .err e := by
  unfold authenticateDrive
  refine Ensures.execute_bind (fun r₁ => ?_) (by simp) (by simp [CertFails, KeyFails])
  refine Ensures.lift_bind (fun agid hagid => ?_) (by simp) (by simp [CertFails, KeyFails])
  refine Ensures.execute_bind (fun r₂ => ?_) (by simp) (by simp [CertFails, KeyFails])
  refine Ensures.execute_bind (fun r₃ => ?_) (by simp) (by simp [CertFails, KeyFails])
  refine Ensures.lift_bind (fun dn hdn => ?_) (by simp)
    (fun hpanic => absurd hpanic (checkDriveCert_returns _ _))
  refine Ensures.execute_bind (fun r₄ => ?_) (by simp) ?_
  · refine Ensures.lift_bind (fun dv hdv => ?_) (by simp)
      (fun hpanic => absurd hpanic (checkDriveKey_returns _ _ _))
    apply Ensures.ret
    rintro (⟨r₃', hr₃, hfail⟩ | ⟨r₃', r₄', dn', cert', hr₃, hr₄, hcert, hfail⟩)
    · obtain rfl : r₃ = r₃' := by simpa using hr₃
      exact absurd hdn (hfail dn)
    · obtain rfl : r₃ = r₃' := by simpa using hr₃
      obtain rfl : r₄ = r₄' := by simpa using hr₄
      obtain rfl := Outcome.ok.inj (hdn.symm.trans hcert)
      exact absurd hdv (hfail dv)
  · rintro (⟨r₃', hr₃, hfail⟩ | ⟨r₃', r₄', dn', cert', hr₃, hr₄, hcert, hfail⟩)
    · obtain rfl : r₃ = r₃' := by simpa using hr₃
      exact absurd hdn (hfail dn)
    · simp at hr₄

theorem sendHostKey_ok (d : DriveProof) :
    Ensures (sendHostKey aes creds hostNonce hk d) fun log o =>
    ∀ res, o = .ok res → ∃ hsig r₅,
      Ecdsa.sign aes creds.hostPriv (d.driveNonce.toList ++ (hostPoint hk).toList) =
        (.ok hsig : Result Ecdsa.Signature) ∧
      log = [⟨hostKeyCommand d.agid (hostPoint hk) hsig, .ok r₅⟩] ∧
      res = akeResult hk hostNonce d.agid d.driveNonce d.driveCert d.dv := by
  apply Ensures.lift_bind_ok
  intro hsig hsign
  apply Ensures.execute_bind_ok
  intro r₅
  apply Ensures.ret_ok
  exact ⟨hsig, r₅, hsign, rfl, rfl⟩

/-- A handshake that succeeds: five answered commands, and a proof of the drive in the payloads. -/
theorem hostAuthenticate_ok : Ensures (hostAuthenticate aes creds hostNonce hk) fun log o =>
    ∀ res, o = .ok res → ∃ r₁ r₂ r₃ r₄ r₅ d hsig,
      log = proofLog d.agid hostNonce creds.hostCert r₁ r₂ r₃ r₄ ++
        [⟨hostKeyCommand d.agid (hostPoint hk) hsig, .ok r₅⟩] ∧
      Proves creds hostNonce r₁ r₃ r₄ d ∧
      Ecdsa.sign aes creds.hostPriv (d.driveNonce.toList ++ (hostPoint hk).toList) =
        (.ok hsig : Result Ecdsa.Signature) ∧
      res = akeResult hk hostNonce d.agid d.driveNonce d.driveCert d.dv := by
  rw [hostAuthenticate_eq]
  refine Ensures.bind_ok authenticateDrive_ok ?_
  rintro log d ⟨r₁, r₂, r₃, r₄, rfl, hproves⟩
  refine (sendHostKey_ok d).mono ?_
  intro rest o h res hres
  obtain ⟨hsig, r₅, hsign, rfl, rfl⟩ := h res hres
  exact ⟨r₁, r₂, r₃, r₄, r₅, d, hsig, rfl, hproves, hsign, rfl⟩

/-- Exchanges that prove the drive leave nothing to fail. -/
theorem not_fails_of_proves {r₁ r₂ r₃ r₄ : ScsiResponse} {d : DriveProof} {agid : UInt8}
    {rest : Log} (h : Proves creds hostNonce r₁ r₃ r₄ d) :
    ¬(CertFails creds (proofLog agid hostNonce creds.hostCert r₁ r₂ r₃ r₄ ++ rest) ∨
      KeyFails creds hostNonce (proofLog agid hostNonce creds.hostCert r₁ r₂ r₃ r₄ ++ rest)) := by
  obtain ⟨-, hcert, hkey⟩ := h
  rintro (⟨r₃', hr₃, hfail⟩ | ⟨r₃', r₄', dn', cert', hr₃, hr₄, hcert', hfail⟩)
  · obtain rfl : r₃ = r₃' := by simpa [proofLog] using hr₃
    exact hfail _ hcert
  · obtain rfl : r₃ = r₃' := by simpa [proofLog] using hr₃
    obtain rfl : r₄ = r₄' := by simpa [proofLog] using hr₄
    obtain ⟨rfl, rfl⟩ := Prod.mk.inj (Outcome.ok.inj (hcert.symm.trans hcert'))
    exact hfail _ hkey

/-- A failed check ends the handshake with an error and without a host key. -/
theorem hostAuthenticate_stops : Ensures (hostAuthenticate aes creds hostNonce hk) fun log o =>
    CertFails creds log ∨ KeyFails creds hostNonce log →
      (∃ e, o = .err e) ∧ ∀ x ∈ log, ¬x.command.IsHostKey := by
  rw [hostAuthenticate_eq]
  have hproof : Ensures (authenticateDrive creds hostNonce) fun log o =>
      (∀ d, o = .ok d → ∃ r₁ r₂ r₃ r₄, log = proofLog d.agid hostNonce creds.hostCert r₁ r₂ r₃ r₄ ∧
        Proves creds hostNonce r₁ r₃ r₄ d) ∧
      (CertFails creds log ∨ KeyFails creds hostNonce log → ∃ e, o = .err e) ∧
      ∀ x ∈ log, ¬x.command.IsHostKey :=
    fun log o h => ⟨authenticateDrive_ok log o h, authenticateDrive_stops log o h,
      authenticateDrive_issues log o h⟩
  refine hproof.bind (fun log d hd => ?_) (fun log e he hfails => ⟨⟨e, rfl⟩, he.2.2⟩)
    (fun log hpanic hfails => ?_)
  · obtain ⟨r₁, r₂, r₃, r₄, rfl, hproves⟩ := hd.1 d rfl
    intro rest o _ hfails
    exact absurd hfails (not_fails_of_proves hproves)
  · obtain ⟨e, he⟩ := hpanic.2.1 hfails
    cases he

theorem busKeyFromPoint_toNat (shared : Point) :
    beNat (busKeyFromPoint shared).toList = shared.xU160.toNat % 2 ^ 128 := by
  have htake : (shared.xU160.toBeBytes.toList.drop 4).take 16 =
      shared.xU160.toBeBytes.toList.drop 4 :=
    List.take_of_length_le (by simp)
  have hsplit : shared.xU160.toBeBytes.toList =
      shared.xU160.toBeBytes.toList.take 4 ++ (busKeyFromPoint shared).toList := by
    rw [busKeyFromPoint, Bytes.slice_toList, htake, List.take_append_drop]
  have hlt := beNat_lt (busKeyFromPoint shared).toList
  have hval := congrArg beNat hsplit
  rw [U160.toBeBytes_toNat, beNat_append] at hval
  rw [Bytes.length_toList] at hval hlt
  rw [hval]
  omega

/-- Against any drive: success means that everything received was checked, and that what
was sent and derived is what the handshake prescribes; a failed check is an error that
comes before the host key. -/
theorem hostAuthenticate_sound (aes : Aes128) (creds : HostCredentials) (hostNonce : Bytes 20)
    (hk : U160) {σ : Type} (drive : Drive σ) (s : σ) :
    let r := run drive (hostAuthenticate aes creds hostNonce hk) s
    (∀ result, r.1.1 = .ok result → ∃ (r₁ r₂ r₃ r₄ r₅ : ScsiResponse) (cert : Bytes 92)
        (dv dsig hsig : Bytes 40) (dvPoint : Point),
      r.2 = [⟨agidCommand, .ok r₁⟩,
        ⟨hostCertCommand result.agid hostNonce creds.hostCert, .ok r₂⟩,
        ⟨driveCertCommand result.agid, .ok r₃⟩, ⟨driveKeyCommand result.agid, .ok r₄⟩,
        ⟨hostKeyCommand result.agid (hostPoint hk) hsig, .ok r₅⟩] ∧
      result.driveNonce.toList = (r₃.data.drop 4).take 20 ∧
      cert.toList = (r₃.data.drop 24).take 92 ∧
      cert.get 0 = 0x01 ∧ u16FromBe (cert.get 2) (cert.get 3) = 0x005C ∧
      Point.fromCoords (cert.slice 12 20) (cert.slice 32 20) = some result.driveCert.publicKey ∧
      result.driveCert.publicKey.isOnCurve = true ∧
      Ecdsa.verify creds.aacsLaPub (cert.slice 52 40) (cert.slice 0 52).toList = true ∧
      dv.toList = (r₄.data.drop 4).take 40 ∧ dsig.toList = (r₄.data.drop 44).take 40 ∧
      Ecdsa.verify result.driveCert.publicKey dsig (hostNonce.toList ++ dv.toList) = true ∧
      Point.fromCoords (dv.slice 0 20) (dv.slice 20 20) = some dvPoint ∧
      Ecdsa.sign aes creds.hostPriv (result.driveNonce.toList ++ (hostPoint hk).toList) =
        (.ok hsig : Result Ecdsa.Signature) ∧
      beNat result.busKey.toList = (dvPoint.mulScalar hk).xU160.toNat % 2 ^ 128) ∧
    (CertFails creds r.2 ∨ KeyFails creds hostNonce r.2 →
      (∃ e, r.1.1 = .err e) ∧ ∀ x ∈ r.2, ¬x.command.IsHostKey) := by
  intro r
  refine ⟨fun result hok => ?_, hostAuthenticate_stops.run drive s⟩
  obtain ⟨r₁, r₂, r₃, r₄, r₅, d, hsig, hlog, ⟨-, hcert, hkey⟩, hsign, rfl⟩ :=
    hostAuthenticate_ok.run drive s result hok
  obtain ⟨hchal, hparse, hverify⟩ := checkDriveCert_eq_ok.mp hcert
  obtain ⟨-, -, hdn, hraw⟩ := parseFields_eq_ok.mp hchal
  obtain ⟨htype, hlen, hpk, -⟩ := Certificate.parse_eq_ok.mp hparse
  obtain ⟨dv, dsig, hfields, hdsig, hdv⟩ := checkDriveKey_eq_ok.mp hkey
  obtain ⟨-, -, hdv', hdsig'⟩ := parseFields_eq_ok.mp hfields
  exact ⟨r₁, r₂, r₃, r₄, r₅, d.driveCert.raw, dv, dsig, hsig, d.dv, hlog, hdn, hraw,
    htype, hlen, hpk, Point.fromCoords_isOnCurve hpk, hverify, hdv', hdsig', hdsig, hdv, hsign,
    busKeyFromPoint_toNat _⟩

end Ake
