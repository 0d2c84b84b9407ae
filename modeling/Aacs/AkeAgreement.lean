import Aacs.AkeSoundness
import Aacs.MockDrive

/-!
# Both sides agree

The host against the authenticating drive: certificates minted under one root,
each side's signature checked by the other, and `hk·(dk·G) = dk·(hk·G)`.
-/
namespace Ake

open Ec Mmc Prog Ecdsa

variable {aes : Aes128}

theorem mulScalar_publicKey (j k : U160) : EcGroup.Is ((publicKey j).mulScalar k)
    ((k.toNat * j.toNat) • EcGroup.G) := by
  rw [mul_smul]
  exact (EcGroup.is_mul_generator j).mulScalar k

/-- The shared point does not depend on the side that computes it. -/
theorem mulScalar_publicKey_comm (j k : U160) :
    (publicKey j).mulScalar k = (publicKey k).mulScalar j := by
  apply (mulScalar_publicKey j k).unique
  rw [Nat.mul_comm]
  exact mulScalar_publicKey k j

theorem decode_publicKey {d : U160} (hd : InRange d) :
    Point.decode (publicKey d).toBytes = some (publicKey d) :=
  Point.decode_toBytes (publicKey_isOnCurve d) (publicKey_ne_infinity hd)

theorem slice_certificate (certType flags : UInt8) (id : Bytes 6) (publicKey : Point)
    (sig : Bytes 40) :
    let raw := (certificateBody certType flags id publicKey).append sig
    raw.slice 12 20 = publicKey.toBytes.slice 0 20 ∧
      raw.slice 32 20 = publicKey.toBytes.slice 20 20 ∧
      raw.slice 52 40 = sig ∧ raw.slice 0 52 = certificateBody certType flags id publicKey := by
  intro raw
  have hid := id.length_toList
  have hkey := publicKey.toBytes.length_toList
  have hsig := sig.length_toList
  have hidDrop : id.toList.drop 28 = [] := List.drop_of_length_le (by omega)
  have hkeyTake : (publicKey.toBytes.toList.drop 20).take 20 = publicKey.toBytes.toList.drop 20 :=
    List.take_of_length_le (by simp)
  refine ⟨?_, ?_, ?_, ?_⟩ <;> ext1
  · simp [raw, certificateBody, u16ToBe, List.drop_append, List.take_append, hid]
  · simp [raw, certificateBody, u16ToBe, List.drop_append, hid, hidDrop, hkeyTake]
  · have hbody := (certificateBody certType flags id publicKey).length_toList
    simp [raw, hbody]
  · have hbody := (certificateBody certType flags id publicKey).length_toList
    simp [raw, hbody]

/-- A minted certificate parses, carries its key and verifies under the root. -/
theorem parse_minted {certType flags : UInt8} {id : Bytes 6} {d laPriv : U160} {raw : Bytes 92}
    (hd : InRange d) (hla : InRange laPriv)
    (h : buildSignedCertificate aes certType flags id (publicKey d) laPriv = .ok raw) :
    ∃ cert, Certificate.parse raw certType = .ok cert ∧ cert.raw = raw ∧
      cert.publicKey = publicKey d ∧ cert.verifySignature (publicKey laPriv) = true := by
  simp only [buildSignedCertificate, Outcome.bind_eq_ok, Outcome.pure_eq, Outcome.ok.injEq] at h
  obtain ⟨sig, hsig, rfl⟩ := h
  obtain ⟨hx, hy, hslice, hbody⟩ := slice_certificate certType flags id (publicKey d) sig
  let raw : Bytes 92 := (certificateBody certType flags id (publicKey d)).append sig
  let cert : Certificate := ⟨certType, flags, raw.slice 4 6, publicKey d, raw⟩
  refine ⟨cert, Certificate.parse_eq_ok.mpr ⟨rfl, ?_, ?_, rfl, rfl, rfl, rfl⟩, rfl, rfl, ?_⟩
  · exact u16FromBe_toBe certLengthValue
  · rw [hx, hy]
    exact decode_publicKey hd
  · rw [Certificate.verifySignature, hslice, hbody]
    exact sign_verifies hla hsig

variable {s : MockDrive} {a : DriveAuthState}

/-- The AGID byte of a response reads back as its two low bits. -/
theorem parseReportKeyAgid_response (agid : UInt8) :
    parseReportKeyAgid [0x00, 0x06, 0, 0, 0, 0, 0, (agid &&& 0x03) <<< 6] = .ok
      (agid &&& 0x03) := by
  have hpack : packAgid agid 0 = (agid &&& 0x03) <<< 6 := UInt8.or_zero
  have hagid := packAgid_agid agid 0
  rw [hpack] at hagid
  calc parseReportKeyAgid [0x00, 0x06, 0, 0, 0, 0, 0, (agid &&& 0x03) <<< 6]
      = .ok (((agid &&& 0x03) <<< 6 >>> 6) &&& 0x03) := rfl
    _ = .ok (agid &&& 0x03) := by rw [hagid]

theorem execute_agid : MockDrive.execute aes agidCommand s =
    (.ok (.good [0x00, 0x06, 0, 0, 0, 0, 0, (s.agidToReturn &&& 0x03) <<< 6]), s) := rfl

theorem DriveAuthState.acceptHostCertChallenge_of_verified (hostNonce : Bytes 20)
    {hostCert : Bytes 92}
    {cert : Certificate} (hparse : Certificate.parse hostCert certTypeHost = .ok cert)
    (hverify : cert.verifySignature a.aacsLaPub = true) :
    DriveAuthState.acceptHostCertChallenge hostNonce hostCert a =
      (.ok (), { a with hostNonce := some hostNonce, hostCert := some hostCert }) := by
  simp [DriveAuthState.acceptHostCertChallenge, hparse, hverify]

theorem execute_hostCert {agid : UInt8} {hostNonce : Bytes 20} {hostCert : Bytes 92}
    {cert : Certificate} (hauth : s.auth = some a)
    (hparse : Certificate.parse hostCert certTypeHost = .ok cert)
    (hverify : cert.verifySignature a.aacsLaPub = true) :
    MockDrive.execute aes (hostCertCommand agid hostNonce hostCert) s =
      (.ok (.good []), { s with
        auth := some { a with hostNonce := some hostNonce, hostCert := some hostCert }
        lastHostCertChal := some (buildSendKeyHostCertChal hostNonce hostCert) }) := by
  have hexec : MockDrive.execute aes (hostCertCommand agid hostNonce hostCert) s =
      MockDrive.executeSendKey (SendKey.aacsHostCertChallenge agid).cdb .toDevice
        (buildSendKeyHostCertChal hostNonce hostCert) s := rfl
  have hformat : (SendKey.aacsHostCertChallenge agid).keyFormat &&& 0x3F = kfSendAacsHostCertChal :=
    (by decide : kfSendAacsHostCertChal &&& 0x3F = kfSendAacsHostCertChal)
  have hclass : (SendKey.aacsHostCertChallenge agid).keyClass = keyClassAacs := rfl
  have hpayload : parseSendKeyHostCertChal (buildSendKeyHostCertChal hostNonce hostCert) =
      .ok (hostNonce, hostCert) := parseFields_framed _ _ _ _
  have haccept := DriveAuthState.acceptHostCertChallenge_of_verified hostNonce hparse hverify
  rw [hexec, MockDrive.executeSendKey, SendKey.parseCdb_cdb]
  simp [hformat, hclass, hpayload, MockDrive.onAuth_bind_ok hauth haccept]

theorem execute_driveCert {agid : UInt8} (hauth : s.auth = some a) :
    MockDrive.execute aes (driveCertCommand agid) s =
      (.ok (.good (framed 0x0072 a.driveNonce.toList a.driveCert.toList)), s) := by
  have hexec : MockDrive.execute aes (driveCertCommand agid) s =
      MockDrive.executeReportKey aes (ReportKey.aacsDriveCertChallenge agid).cdb s := rfl
  have hformat : (ReportKey.aacsDriveCertChallenge agid).keyFormat &&& 0x3F =
      kfReportAacsDriveCertChal :=
    (by decide : kfReportAacsDriveCertChal &&& 0x3F = kfReportAacsDriveCertChal)
  have hclass : (ReportKey.aacsDriveCertChallenge agid).keyClass = keyClassAacs := rfl
  have hne : kfReportAacsDriveCertChal ≠ kfReportAacsAgid := by decide
  rw [hexec, MockDrive.executeReportKey, ReportKey.parseCdb_cdb]
  simp [hformat, hclass, hne, hauth]

theorem execute_driveKey {agid : UInt8} {dv : Bytes 40} {dsig : Signature} (hauth : s.auth = some a)
    (hkey : a.driveKeyResponse aes = .ok (dv, dsig)) :
    MockDrive.execute aes (driveKeyCommand agid) s =
      (.ok (.good (framed 0x0052 dv.toList dsig.toList)), s) := by
  have hexec : MockDrive.execute aes (driveKeyCommand agid) s =
      MockDrive.executeReportKey aes (ReportKey.aacsDriveKey agid).cdb s := rfl
  have hformat : (ReportKey.aacsDriveKey agid).keyFormat &&& 0x3F = kfReportAacsDriveKey :=
    (by decide : kfReportAacsDriveKey &&& 0x3F = kfReportAacsDriveKey)
  have hclass : (ReportKey.aacsDriveKey agid).keyClass = keyClassAacs := rfl
  have hne₁ : kfReportAacsDriveKey ≠ kfReportAacsAgid := by decide
  have hne₂ : kfReportAacsDriveKey ≠ kfReportAacsDriveCertChal := by decide
  rw [hexec, MockDrive.executeReportKey, ReportKey.parseCdb_cdb]
  simp [hformat, hclass, hne₁, hne₂, hauth, hkey]

theorem DriveAuthState.acceptHostKey_of_verified {hostCert : Bytes 92} {cert : Certificate}
    {hv hsig : Bytes 40} {hvPoint : Point} (hcert : a.hostCert = some hostCert)
    (hparse : Certificate.parse hostCert certTypeHost = .ok cert)
    (hverify : verify cert.publicKey hsig (a.driveNonce.toList ++ hv.toList) = true)
    (hpoint : Point.decode hv = some hvPoint) :
    DriveAuthState.acceptHostKey hv hsig a =
      (.ok (), { a with busKey := some (busKeyFromPoint (hvPoint.mulScalar a.dk)) }) := by
  rw [Point.decode] at hpoint
  simp [DriveAuthState.acceptHostKey, hcert, hparse, hverify, hpoint]

theorem execute_hostKey {agid : UInt8} {hv hsig : Bytes 40} {a' : DriveAuthState}
    (hauth : s.auth = some a) (haccept : DriveAuthState.acceptHostKey hv hsig a = (.ok (), a')) :
    MockDrive.execute aes (hostKeyCommand agid hv hsig) s =
      (.ok (.good []), { s with
        auth := some a', lastHostKey := some (buildSendKeyHostKey hv hsig) }) := by
  have hexec : MockDrive.execute aes (hostKeyCommand agid hv hsig) s =
      MockDrive.executeSendKey (SendKey.aacsHostKey agid).cdb .toDevice
        (buildSendKeyHostKey hv hsig) s := rfl
  have hformat : (SendKey.aacsHostKey agid).keyFormat &&& 0x3F = kfSendAacsHostKey :=
    (by decide : kfSendAacsHostKey &&& 0x3F = kfSendAacsHostKey)
  have hclass : (SendKey.aacsHostKey agid).keyClass = keyClassAacs := rfl
  have hne : kfSendAacsHostKey ≠ kfSendAacsHostCertChal := by decide
  have hpayload : parseSendKeyHostKey (buildSendKeyHostKey hv hsig) = .ok (hv, hsig) :=
    parseFields_framed _ _ _ _
  rw [hexec, MockDrive.executeSendKey, SendKey.parseCdb_cdb]
  simp [hformat, hclass, hne, hpayload, MockDrive.onAuth_bind_ok hauth haccept]

/-- The command that reads the volume identifier. -/
def volumeIdCommand (agid : UInt8) : Command :=
  ⟨(ReadDiscStructure.aacsVolumeId agid).cdb, .fromDevice, [], 36⟩

theorem execute_volumeId {agid : UInt8} {bk : Bytes 16} (hbk : s.busKey = some bk) :
    MockDrive.execute aes (volumeIdCommand agid) s =
      (.ok (.good (framed 0x0022 s.volumeId.toList (Aes.cmac aes bk s.volumeId.toList).toList)),
        s) := by
  have hexec : MockDrive.execute aes (volumeIdCommand agid) s =
      MockDrive.executeReadDiscStructure aes (ReadDiscStructure.aacsVolumeId agid).cdb s := rfl
  obtain ⟨rds, hparse, hformat, -⟩ :=
    ReadDiscStructure.parseCdb_cdb (ReadDiscStructure.aacsVolumeId agid)
  have hvol : rds.format = formatAacsVolumeId := hformat
  rw [hexec, MockDrive.executeReadDiscStructure, hparse]
  simp [hvol, MockDrive.macOr, hbk]

/-- The drive once it has taken the host's challenge. -/
def challenged (a : DriveAuthState) (hostNonce : Bytes 20) (hostCert : Bytes 92) : DriveAuthState :=
  { a with hostNonce := some hostNonce, hostCert := some hostCert }

theorem run_drive {α : Type} {c : Command} {f : ScsiResponse → Host α} {s s' : MockDrive}
    {x : ScsiResponse} (h : MockDrive.execute aes c s = (.ok x, s')) :
    (run (MockDrive.device aes) (execute c >>= f) s).1 = (run (MockDrive.device aes) (f x) s').1 :=
  run_execute_bind h

theorem run_check {α β : Type} {o : Result α} {f : α → Host β} {s : MockDrive} {x : α}
    (h : o = .ok x) :
    (run (MockDrive.device aes) (Prog.lift o >>= f) s).1 =
    (run (MockDrive.device aes) (f x) s).1 := by
  rw [h, run_lift_bind]

/-- When every check on either side passes, the handshake runs to its end. -/
theorem hostAuthenticate_run {creds : HostCredentials} {hostNonce : Bytes 20} {hk : U160}
    {hostCert driveCert : Certificate} {dv hsig dsig : Bytes 40} {dvPoint : Point}
    {a' : DriveAuthState} (hauth : s.auth = some a)
    (hhost : Certificate.parse creds.hostCert certTypeHost = .ok hostCert)
    (hhost' : hostCert.verifySignature a.aacsLaPub = true) (hdrive : checkDriveCert creds.aacsLaPub
      (framed 0x0072 a.driveNonce.toList a.driveCert.toList) = .ok (a.driveNonce, driveCert))
    (hkey : (challenged a hostNonce creds.hostCert).driveKeyResponse aes = .ok (dv, dsig))
    (hdv : checkDriveKey driveCert hostNonce (framed 0x0052 dv.toList dsig.toList) = .ok dvPoint)
    (hsign : Ecdsa.sign aes creds.hostPriv (a.driveNonce.toList ++ (hostPoint hk).toList) =
      (.ok hsig : Result Signature))
    (haccept : DriveAuthState.acceptHostKey (hostPoint hk) hsig
      (challenged a hostNonce creds.hostCert) = (.ok (), a')) :
    (run (MockDrive.device aes) (hostAuthenticate aes creds hostNonce hk) s).1 =
      (.ok (akeResult hk hostNonce (s.agidToReturn &&& 0x03) a.driveNonce driveCert dvPoint),
        { s with
          auth := some a'
          lastHostCertChal := some (buildSendKeyHostCertChal hostNonce creds.hostCert)
          lastHostKey := some (buildSendKeyHostKey (hostPoint hk) hsig) }) := by
  let s₁ : MockDrive := { s with
    auth := some (challenged a hostNonce creds.hostCert)
    lastHostCertChal := some (buildSendKeyHostCertChal hostNonce creds.hostCert) }
  have hauth₁ : s₁.auth = some (challenged a hostNonce creds.hostCert) := rfl
  apply (run_drive execute_agid).trans
  apply (run_check (parseReportKeyAgid_response _)).trans
  apply (run_drive (execute_hostCert hauth hhost hhost')).trans
  apply (run_drive (execute_driveCert hauth₁)).trans
  apply (run_check hdrive).trans
  apply (run_drive (execute_driveKey hauth₁ hkey)).trans
  apply (run_check hdv).trans
  apply (run_check hsign).trans
  exact run_drive (execute_hostKey hauth₁ haccept)

theorem readVerifiedVolumeId_run {bk : Bytes 16} {agid : UInt8} (hbk : s.busKey = some bk) :
    (run (MockDrive.device aes) (readVerifiedVolumeId aes bk agid) s).1 = (.ok s.volumeId, s) := by
  have hparse : parseVolumeIdResponse (framed 0x0022 s.volumeId.toList
      (Aes.cmac aes bk s.volumeId.toList).toList) = .ok (s.volumeId,
      Aes.cmac aes bk s.volumeId.toList) :=
    parseFields_framed _ _ _ _
  apply (run_drive (execute_volumeId hbk)).trans
  apply (run_check hparse).trans
  exact run_check (Outcome.refuseIf_neg (not_not_intro rfl))

/-- The minted drive certificate passes the host's check. -/
theorem checkDriveCert_minted {flags : UInt8} {id : Bytes 6} {d laPriv : U160} {raw : Bytes 92}
    (dn : Bytes 20) (hd : InRange d) (hla : InRange laPriv)
    (h : buildSignedCertificate aes certTypeDrive flags id (publicKey d) laPriv = .ok raw) :
    ∃ cert, checkDriveCert (publicKey laPriv) (framed 0x0072 dn.toList raw.toList) = .ok
      (dn, cert) ∧ cert.publicKey = publicKey d := by
  obtain ⟨cert, hparse, rfl, hkey, hverify⟩ := parse_minted hd hla h
  exact ⟨cert, checkDriveCert_eq_ok.mpr ⟨parseFields_framed _ _ _ _, hparse, hverify⟩, hkey⟩

/-- The drive's key response passes the host's check. -/
theorem checkDriveKey_response {cert : Certificate} {drivePriv dk : U160} {hostNonce : Bytes 20}
    {dsig : Signature} (hd : InRange drivePriv) (hdk : InRange dk)
    (hkey : cert.publicKey = publicKey drivePriv)
    (hsign : Ecdsa.sign aes drivePriv (hostNonce.toList ++ (publicKey dk).toBytes.toList) =
      (.ok dsig : Result Signature)) :
    checkDriveKey cert hostNonce (framed 0x0052 (publicKey dk).toBytes.toList dsig.toList) =
      .ok (publicKey dk) := by
  rw [checkDriveKey_eq_ok, hkey]
  exact ⟨_, _, parseFields_framed _ _ _ _, sign_verifies hd hsign, decode_publicKey hdk⟩

/-- Under one root the handshake runs to its end when each signature can be made. -/
theorem hostAuthenticate_minted {laPriv drivePriv hostPriv hk dk : U160}
    {driveFlags hostFlags : UInt8}
    {driveId hostId : Bytes 6} {hostNonce driveNonce : Bytes 20} {driveCert hostCert : Bytes 92}
    {dsig hsig : Signature} {drive : MockDrive}
    (hla : InRange laPriv) (hdrive : InRange drivePriv) (hhost : InRange hostPriv)
    (hhk : InRange hk) (hdk : InRange dk)
    (hdriveCert : buildSignedCertificate aes certTypeDrive driveFlags driveId
      (publicKey drivePriv) laPriv = .ok driveCert)
    (hhostCert : buildSignedCertificate aes certTypeHost hostFlags hostId
      (publicKey hostPriv) laPriv = .ok hostCert)
    (hdsig : Ecdsa.sign aes drivePriv (hostNonce.toList ++ (publicKey dk).toBytes.toList) =
      (.ok dsig : Result Signature))
    (hhsig : Ecdsa.sign aes hostPriv (driveNonce.toList ++ (publicKey hk).toBytes.toList) =
      (.ok hsig : Result Signature))
    (hauth : drive.auth =
      some (DriveAuthState.new driveCert drivePriv dk driveNonce (publicKey laPriv))) :
    ∃ cert, (run (MockDrive.device aes)
        (hostAuthenticate aes ⟨hostCert, hostPriv, publicKey laPriv⟩ hostNonce hk) drive).1 =
      (.ok (akeResult hk hostNonce (drive.agidToReturn &&& 0x03) driveNonce cert (publicKey dk)),
        { drive with
          auth := some
            { challenged (DriveAuthState.new driveCert drivePriv dk driveNonce (publicKey laPriv))
                hostNonce hostCert with
              busKey := some (busKeyFromPoint ((publicKey hk).mulScalar dk)) }
          lastHostCertChal := some (buildSendKeyHostCertChal hostNonce hostCert)
          lastHostKey := some (buildSendKeyHostKey (hostPoint hk) hsig) }) := by
  obtain ⟨hcert, hhostParse, -, hhostKey, hhostVerify⟩ := parse_minted hhost hla hhostCert
  obtain ⟨dcert, hdriveCheck, hdriveKey⟩ := checkDriveCert_minted driveNonce hdrive hla hdriveCert
  let a := challenged (DriveAuthState.new driveCert drivePriv dk driveNonce (publicKey laPriv))
    hostNonce hostCert
  have hkey : a.driveKeyResponse aes = .ok ((publicKey dk).toBytes, dsig) := by
    rw [publicKey] at hdsig
    simp only [DriveAuthState.driveKeyResponse, a, challenged, DriveAuthState.new,
      Outcome.okOr_some, Outcome.bind_ok, hdsig]
    rfl
  have hverify : verify hcert.publicKey hsig
      (a.driveNonce.toList ++ (hostPoint hk).toList) = true := by
    rw [hhostKey]
    exact sign_verifies hhost hhsig
  have haccept :=
    DriveAuthState.acceptHostKey_of_verified (a := a) rfl hhostParse hverify (decode_publicKey hhk)
  have hdv := checkDriveKey_response hdrive hdk hdriveKey hdsig
  exact ⟨dcert, hostAuthenticate_run hauth hhostParse hhostVerify hdriveCheck hkey hdv
    hhsig haccept⟩

/-- With every scalar one, all public points are the generator. -/
def generatorBytes : List UInt8 :=
  [0x2E, 0x64, 0xFC, 0x22, 0x57, 0x83, 0x51, 0xE6, 0xF4, 0xCC, 0xA7, 0xEB, 0x81, 0xD0, 0xA4, 0xBD,
    0xC5, 0x4C, 0xCE, 0xC6, 0x09, 0x14, 0xA2, 0x5D, 0xD0, 0x54, 0x42, 0x88, 0x9D, 0xB4, 0x55, 0xC7,
    0xF2, 0x3C, 0x9A, 0x07, 0x07, 0xF5, 0xCB, 0xB9]

theorem generator_toBytes :
    (Point.generator.mulScalar U160.one).toBytes.toList = generatorBytes := by
  have hmul : CurveEval.multiple fieldPrime 160 GX.toNat GY.toNat U160.one.toNat =
      some (GX.toNat, GY.toNat) := by decide +kernel
  rw [mulScalar_toBytes (by decide +kernel) (by decide +kernel) hmul]
  decide +kernel

/-- A certificate for a key with known encoding. -/
theorem buildSignedCertificate_one (certType : UInt8) {d : U160} {key : List UInt8}
    (hkey : (Point.generator.mulScalar d).toBytes.toList = key)
    (h : signable Aes128.fips197 1
      ([certType, 0] ++ u16ToBe certLengthValue ++ List.replicate 8 0 ++ key) = true) :
    ∃ raw, buildSignedCertificate Aes128.fips197 certType 0 (Bytes.zero 6)
      (Point.generator.mulScalar d) U160.one = .ok raw := by
  obtain ⟨sig, hsig⟩ := sign_one h
  have hbody : (certificateBody certType 0 (Bytes.zero 6) (Point.generator.mulScalar d)).toList =
      [certType, 0] ++ u16ToBe certLengthValue ++ List.replicate 8 0 ++ key := by
    rw [← hkey]
    rfl
  rw [buildSignedCertificate, hbody, hsig]
  exact ⟨_, rfl⟩

theorem signatures_one : ∃ (driveCert hostCert : Bytes 92) (sig : Signature),
    buildSignedCertificate Aes128.fips197 certTypeDrive 0 (Bytes.zero 6)
      (Point.generator.mulScalar U160.one) U160.one = .ok driveCert ∧
    buildSignedCertificate Aes128.fips197 certTypeHost 0 (Bytes.zero 6)
      (Point.generator.mulScalar U160.one) U160.one = .ok hostCert ∧
    Ecdsa.sign Aes128.fips197 U160.one
      ((Bytes.zero 20).toList ++ (Point.generator.mulScalar U160.one).toBytes.toList) =
      (.ok sig : Result Signature) := by
  obtain ⟨driveCert, hdriveCert⟩ :=
    buildSignedCertificate_one certTypeDrive generator_toBytes (by decide +kernel)
  obtain ⟨hostCert, hhostCert⟩ :=
    buildSignedCertificate_one certTypeHost generator_toBytes (by decide +kernel)
  obtain ⟨sig, hsig⟩ := sign_one
    (by decide +kernel : signable Aes128.fips197 1
      ((Bytes.zero 20).toList ++ generatorBytes) = true)
  rw [← generator_toBytes] at hsig
  exact ⟨driveCert, hostCert, sig, hdriveCert, hhostCert, hsig⟩

/-- A drive with these scalars, before its handshake. -/
def oneDrive (driveCert : Bytes 92) : MockDrive :=
  { MockDrive.default with
    auth := some (DriveAuthState.new driveCert U160.one U160.one (Bytes.zero 20)
      (Point.generator.mulScalar U160.one)) }

/-- Host and drive agree: whatever the keys, nonces and identities, and whatever else the
drive holds, the handshake succeeds as long as each signature can be made, both sides end
with one bus key, and the volume identifier read next is the drive's. -/
theorem ake_agreement (aes : Aes128) (laPriv drivePriv hostPriv hk dk : U160)
    (driveFlags hostFlags : UInt8) (driveId hostId : Bytes 6) (hostNonce driveNonce : Bytes 20)
    (driveCert hostCert : Bytes 92) (dsig hsig : Signature) (drive : MockDrive)
    (hla : InRange laPriv) (hdrive : InRange drivePriv) (hhost : InRange hostPriv)
    (hhk : InRange hk) (hdk : InRange dk)
    (hdriveCert : buildSignedCertificate aes certTypeDrive driveFlags driveId
      (Point.generator.mulScalar drivePriv) laPriv = .ok driveCert)
    (hhostCert : buildSignedCertificate aes certTypeHost hostFlags hostId
      (Point.generator.mulScalar hostPriv) laPriv = .ok hostCert)
    (hdsig : Ecdsa.sign aes drivePriv
      (hostNonce.toList ++ (Point.generator.mulScalar dk).toBytes.toList) =
      (.ok dsig : Result Signature))
    (hhsig : Ecdsa.sign aes hostPriv
      (driveNonce.toList ++ (Point.generator.mulScalar hk).toBytes.toList) =
      (.ok hsig : Result Signature))
    (hauth : drive.auth = some (DriveAuthState.new driveCert drivePriv dk driveNonce
      (Point.generator.mulScalar laPriv))) :
    let creds : HostCredentials := ⟨hostCert, hostPriv, Point.generator.mulScalar laPriv⟩
    ∃ result drive' auth,
      (run (MockDrive.device aes) (hostAuthenticate aes creds hostNonce hk) drive).1 =
        (.ok result, drive') ∧
      drive'.auth = some auth ∧ auth.busKey = some result.busKey ∧
      (run (MockDrive.device aes) (readVerifiedVolumeId aes result.busKey result.agid) drive').1.1 =
        .ok drive.volumeId := by
  intro creds
  obtain ⟨cert, hrun⟩ :=
    hostAuthenticate_minted hla hdrive hhost hhk hdk hdriveCert hhostCert hdsig hhsig hauth
  have hshared : busKeyFromPoint ((publicKey hk).mulScalar dk) =
      busKeyFromPoint ((publicKey dk).mulScalar hk) := by
    rw [mulScalar_publicKey_comm]
  refine ⟨_, _, _, hrun, rfl, congrArg some hshared, ?_⟩
  refine congrArg Prod.fst (readVerifiedVolumeId_run ?_)
  exact congrArg some hshared

theorem ake_agreement_ones : ∃ (driveCert hostCert : Bytes 92) (drive' : MockDrive)
    (result : AkeResult) (auth : DriveAuthState),
    (run (MockDrive.device Aes128.fips197) (hostAuthenticate Aes128.fips197
      ⟨hostCert, U160.one, Point.generator.mulScalar U160.one⟩ (Bytes.zero 20) U160.one)
      (oneDrive driveCert)).1 = (.ok result, drive') ∧
    drive'.auth = some auth ∧ auth.busKey = some result.busKey ∧
    (run (MockDrive.device Aes128.fips197)
      (readVerifiedVolumeId Aes128.fips197 result.busKey result.agid)
      drive').1.1 = .ok (Bytes.zero 16) := by
  have hone := inRange_one
  obtain ⟨driveCert, hostCert, sig, hdriveCert, hhostCert, hsig⟩ := signatures_one
  obtain ⟨result, drive', auth, hrun, hauth, hbk, hvid⟩ :=
    ake_agreement Aes128.fips197 U160.one U160.one
    U160.one U160.one U160.one 0 0 (Bytes.zero 6) (Bytes.zero 6) (Bytes.zero 20) (Bytes.zero 20)
    driveCert hostCert sig sig (oneDrive driveCert) hone hone hone hone hone hdriveCert hhostCert
      hsig hsig rfl
  exact ⟨driveCert, hostCert, drive', result, auth, hrun, hauth, hbk, hvid⟩

end Ake
