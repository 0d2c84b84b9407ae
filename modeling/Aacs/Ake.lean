import Aacs.Ecdsa
import Aacs.Mmc
import Aacs.Proc

/-!
# Drive-host authentication and key exchange

Certificates, the host's side of the handshake as a program over the drive
interface, and the drive's side as a state with three operations.
-/
namespace Ake

open Mmc

def certTypeDrive : UInt8 := 0x01
def certTypeHost : UInt8 := 0x02
def certLengthValue : UInt16 := 0x005C

/-- A parsed 92-byte certificate: type, flags, id, public key and the raw bytes. -/
structure Certificate where
  certType : UInt8
  flags : UInt8
  id : Bytes 6
  publicKey : Point
  raw : Bytes 92

namespace Certificate

/-- Type, length and public key are checked here, the signature is not. -/
def parse (raw : Bytes 92) (expectedType : UInt8) : Result Certificate := do
  let certType := raw.get 0
  Outcome.refuseIf (certType ≠ expectedType) (.invalidValue "Certificate Type" certType.toNat)
  let length := u16FromBe (raw.get 2) (raw.get 3)
  Outcome.refuseIf (length ≠ certLengthValue) (.invalidValue "Certificate Length" length.toNat)
  let publicKey ← Outcome.okOr (Point.fromCoords (raw.slice 12 20) (raw.slice 32 20))
    (.invalidValue "Certificate public key not on curve" 0)
  pure { certType, flags := raw.get 1, id := raw.slice 4 6, publicKey, raw }

/-- `AACS_Verify` of bytes 52..92 over bytes 0..52. -/
def verifySignature (cert : Certificate) (aacsLaPub : Point) : Bool :=
  Ecdsa.verify aacsLaPub (cert.raw.slice 52 40) (cert.raw.slice 0 52).toList

theorem parse_eq_ok {raw : Bytes 92} {expectedType : UInt8} {cert : Certificate} :
    parse raw expectedType = .ok cert ↔
      raw.get 0 = expectedType ∧ u16FromBe (raw.get 2) (raw.get 3) = certLengthValue ∧
        Point.fromCoords (raw.slice 12 20) (raw.slice 32 20) = some cert.publicKey ∧
        cert.certType = expectedType ∧ cert.flags = raw.get 1 ∧ cert.id = raw.slice 4 6 ∧
        cert.raw = raw := by
  simp only [parse, Outcome.bind_eq_ok, Outcome.refuseIf_eq_ok, Outcome.pure_eq, Outcome.ok.injEq,
    not_not, Outcome.okOr_eq_ok]
  constructor
  · rintro ⟨_, rfl, _, hlen, pk, hpk, rfl⟩
    exact ⟨rfl, hlen, hpk, rfl, rfl, rfl, rfl⟩
  · rintro ⟨htype, hlen, hpk, htype', hflags, hid, hraw⟩
    refine ⟨(), htype, (), hlen, _, hpk, ?_⟩
    cases cert
    simp_all

end Certificate

/-- The 52 bytes a certificate signature covers. -/
def certificateBody (certType flags : UInt8) (id : Bytes 6) (publicKey : Point) : Bytes 52 :=
  ⟨[certType, flags] ++ u16ToBe certLengthValue ++ id.toList ++ [0, 0] ++ publicKey.toBytes.toList,
    by simp⟩

/-- Assemble a certificate and sign its body with the LA private key. -/
def buildSignedCertificate (aes : Aes128) (certType flags : UInt8) (id : Bytes 6)
    (publicKey : Point) (aacsLaPriv : U160) : Result (Bytes 92) := do
  let body := certificateBody certType flags id publicKey
  let sig ← Ecdsa.sign aes aacsLaPriv body.toList
  pure (body.append sig)

/-- The least significant 128 bits of the x-coordinate. -/
def busKeyFromPoint (shared : Point) : Bytes 16 := shared.xU160.toBeBytes.slice 4 16

def parseReportKeyAgid (buf : List UInt8) : Result UInt8 := do
  checkPayload "REPORT_KEY AGID" 0x0006 8 buf
  let b ← Outcome.index buf 7
  pure ((b >>> 6) &&& 0x03)

/-- `Dn || Drive_Cert`. -/
def parseReportKeyDriveCertChal (buf : List UInt8) : Result (Bytes 20 × Bytes 92) :=
  parseFields "REPORT_KEY Drive Cert Challenge" 0x0072 20 92 buf

/-- `Dv || Dsig`. -/
def parseReportKeyDriveKey (buf : List UInt8) : Result (Bytes 40 × Bytes 40) :=
  parseFields "REPORT_KEY Drive Key" 0x0052 40 40 buf

def parseReportKeyDriveCert (buf : List UInt8) : Result (Bytes 92) := do
  checkPayload "REPORT_KEY Drive Cert" 0x005E 96 buf
  Outcome.readArray 92 buf 4

/-- `Volume_ID || Dm`. -/
def parseVolumeIdResponse (buf : List UInt8) : Result (Bytes 16 × Bytes 16) :=
  parseFields "Volume ID response" 0x0022 16 16 buf

/-- `PMSN || Dm`. -/
def parseMediaSerialResponse (buf : List UInt8) : Result (Bytes 16 × Bytes 16) :=
  parseFields "PMSN response" 0x0022 16 16 buf

/-- `Media_ID || Dm`. -/
def parseMediaIdResponse (buf : List UInt8) : Result (Bytes 16 × Bytes 16) :=
  parseFields "Media ID response" 0x0022 16 16 buf

/-- `Nonce || Dm`, of either key format. -/
def parseReportKeyBindingNonce (buf : List UInt8) : Result (Bytes 16 × Bytes 16) :=
  parseFields "Binding Nonce response" 0x0022 16 16 buf

def parseSendKeyHostCertChal (buf : List UInt8) : Result (Bytes 20 × Bytes 92) :=
  parseFields "SEND_KEY Host Cert Challenge" 0x0072 20 92 buf

def parseSendKeyHostKey (buf : List UInt8) : Result (Bytes 40 × Bytes 40) :=
  parseFields "SEND_KEY Host Key" 0x0052 40 40 buf

def buildSendKeyHostCertChal (hostNonce : Bytes 20) (hostCert : Bytes 92) : List UInt8 :=
  framed 0x0072 hostNonce.toList hostCert.toList

def buildSendKeyHostKey (hv hsig : Bytes 40) : List UInt8 := framed 0x0052 hv.toList hsig.toList

inductive DataDirection where
  | none
  | fromDevice
  | toDevice
  deriving DecidableEq

/-- The arguments of `DriveCommand::execute`. -/
structure Command where
  cdb : Bytes 12
  direction : DataDirection
  dataOut : List UInt8
  allocationLength : UInt16
  deriving DecidableEq

structure ScsiResponse where
  status : UInt8
  data : List UInt8
  deriving DecidableEq

def ScsiResponse.good (data : List UInt8) : ScsiResponse := ⟨0x00, data⟩

/-- A computation of the host, which may issue drive commands. -/
abbrev Host := Prog Command ScsiResponse AacsError

abbrev Drive (σ : Type) := Device Command ScsiResponse AacsError σ

def reportKeyCommand (rk : ReportKey) : Command := ⟨rk.cdb, .fromDevice, [], rk.allocationLength⟩

def sendKeyCommand (sk : SendKey) (payload : List UInt8) : Command :=
  ⟨sk.cdb, .toDevice, payload, sk.parameterListLength⟩

structure HostCredentials where
  hostCert : Bytes 92
  hostPriv : U160
  aacsLaPub : Point

structure AkeResult where
  busKey : Bytes 16
  driveCert : Certificate
  hostNonce : Bytes 20
  driveNonce : Bytes 20
  agid : UInt8

/-- Steps 14-15: parse the challenge response and verify the drive certificate. -/
def checkDriveCert (aacsLaPub : Point) (data : List UInt8) : Result (Bytes 20 × Certificate) := do
  let dcc ← parseReportKeyDriveCertChal data
  let driveCert ← Certificate.parse dcc.2 certTypeDrive
  Outcome.refuseIf (driveCert.verifySignature aacsLaPub = false) .driveCertSignatureInvalid
  pure (dcc.1, driveCert)

/-- Step 22: parse the drive key, verify `Dsig` over `Hn || Dv`, and decode `Dv`. -/
def checkDriveKey (driveCert : Certificate) (hostNonce : Bytes 20) (data : List UInt8) :
    Result Point := do
  let dk ← parseReportKeyDriveKey data
  Outcome.refuseIf (Ecdsa.verify driveCert.publicKey dk.2 (hostNonce.toList ++ dk.1.toList) = false)
    .driveSignatureInvalid
  Outcome.okOr (Point.fromCoords (dk.1.slice 0 20) (dk.1.slice 20 20))
    (.invalidValue "Drive Dv not on curve" 0)

/-- The host's side of the handshake, against any drive: the AGID (step 5), `Hn || Host_Cert`
(6-7), `Dn || Drive_Cert` (11-15), `Dv || Dsig` (17-22), `Hv = hk·G` with `Hsig` over `Dn || Hv`
(23-26), and the bus key from `hk·Dv` (29). The responses to the two keys it sends are dropped. -/
def hostAuthenticate (aes : Aes128) (creds : HostCredentials) (hostNonce : Bytes 20) (hk : U160) :
    Host AkeResult := do
  let agidResp ← Prog.execute (reportKeyCommand ReportKey.aacsAgid)
  let agid ← Prog.lift (parseReportKeyAgid agidResp.data)
  let _ ← Prog.execute (sendKeyCommand (SendKey.aacsHostCertChallenge agid)
    (buildSendKeyHostCertChal hostNonce creds.hostCert))
  let certResp ← Prog.execute (reportKeyCommand (ReportKey.aacsDriveCertChallenge agid))
  let dn ← Prog.lift (checkDriveCert creds.aacsLaPub certResp.data)
  let keyResp ← Prog.execute (reportKeyCommand (ReportKey.aacsDriveKey agid))
  let dv ← Prog.lift (checkDriveKey dn.2 hostNonce keyResp.data)
  let hv := (Point.generator.mulScalar hk).toBytes
  let hsig ← Prog.lift (Ecdsa.sign aes creds.hostPriv (dn.1.toList ++ hv.toList))
  let _ ← Prog.execute (sendKeyCommand (SendKey.aacsHostKey agid) (buildSendKeyHostKey hv hsig))
  pure {
    busKey := busKeyFromPoint (dv.mulScalar hk)
    driveCert := dn.2
    hostNonce
    driveNonce := dn.1
    agid }

/-- Read the volume identifier and check the drive's CMAC over it. -/
def readVerifiedVolumeId (aes : Aes128) (busKey : Bytes 16) (agid : UInt8) : Host (Bytes 16) := do
  let rds := ReadDiscStructure.aacsVolumeId agid
  let resp ← Prog.execute ⟨rds.cdb, .fromDevice, [], rds.allocationLength⟩
  let vid ← Prog.lift (parseVolumeIdResponse resp.data)
  Prog.lift (Outcome.refuseIf (Aes.cmac aes busKey vid.1.toList ≠ vid.2) .volumeIdMacInvalid)
  pure vid.1

/-- What a drive keeps across the commands of the handshake. -/
structure DriveAuthState where
  driveCert : Bytes 92
  drivePriv : U160
  dk : U160
  driveNonce : Bytes 20
  aacsLaPub : Point
  hostNonce : Option (Bytes 20)
  hostCert : Option (Bytes 92)
  busKey : Option (Bytes 16)

namespace DriveAuthState

def new (driveCert : Bytes 92) (drivePriv dk : U160) (driveNonce : Bytes 20) (aacsLaPub : Point) :
    DriveAuthState :=
  { driveCert, drivePriv, dk, driveNonce, aacsLaPub, hostNonce := none, hostCert := none,
    busKey := none }

/-- Verify the host certificate, then keep it with the host's nonce. -/
def acceptHostCertChallenge (hostNonce : Bytes 20) (hostCert : Bytes 92) :
    Proc DriveAuthState AacsError Unit := do
  let cert ← Proc.lift (Certificate.parse hostCert certTypeHost)
  let s ← Proc.get
  Proc.lift (Outcome.refuseIf (cert.verifySignature s.aacsLaPub = false) .hostCertSignatureInvalid)
  Proc.modify fun s => { s with hostNonce := some hostNonce }
  Proc.modify fun s => { s with hostCert := some hostCert }

/-- `Dv || Dsig`. The object is only read. -/
def driveKeyResponse (aes : Aes128) (s : DriveAuthState) : Result (Bytes 40 × Ecdsa.Signature) := do
  let hn ← Outcome.okOr s.hostNonce (.truncated "Hn not yet received")
  let dv := (Point.generator.mulScalar s.dk).toBytes
  let dsig ← Ecdsa.sign aes s.drivePriv (hn.toList ++ dv.toList)
  pure (dv, dsig)

/-- Verify `Hsig` over `Dn || Hv` under the stored certificate, then derive the bus key. -/
def acceptHostKey (hv hsig : Bytes 40) : Proc DriveAuthState AacsError Unit := do
  let s ← Proc.get
  let hostCertRaw ← Proc.lift (Outcome.okOr s.hostCert (.truncated "host cert missing"))
  let hostCert ← Proc.lift (Certificate.parse hostCertRaw certTypeHost)
  Proc.lift (Outcome.refuseIf
    (Ecdsa.verify hostCert.publicKey hsig (s.driveNonce.toList ++ hv.toList) = false)
    .hostSignatureInvalid)
  let hvPoint ← Proc.lift (Outcome.okOr (Point.fromCoords (hv.slice 0 20) (hv.slice 20 20))
    (.invalidValue "Host Hv not on curve" 0))
  let shared := hvPoint.mulScalar s.dk
  Proc.modify fun s => { s with busKey := some (busKeyFromPoint shared) }

end DriveAuthState

end Ake
