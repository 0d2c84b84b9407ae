import Aacs.Ake
import Aacs.SectorExtents

/-!
# The synthetic drive

An in-process drive that answers every AACS command, with the real drive side of
the handshake when it holds an authentication state and with stored bytes when
it does not.
-/
namespace Ake

open Mmc

def cprmMkbPackLen : Nat := 24576
def cprmMkbHeaderOnlyAddress : UInt32 := 0x000000FF

structure MockDrive where
  agidToReturn : UInt8
  driveNonce : Bytes 20
  driveCert : Bytes 92
  driveDv : Bytes 40
  driveDsig : Bytes 40
  volumeId : Bytes 16
  volumeIdMac : Bytes 16
  mediaSerialNumber : Bytes 16
  mediaSerialMac : Bytes 16
  mediaIdentifier : Bytes 16
  mediaIdMac : Bytes 16
  bindingNonce : Bytes 16
  bindingNonceMac : Bytes 16
  lastBindingNonceOp : Option (UInt8 × UInt32 × UInt8)
  readDataKey : Bytes 16
  writeDataKey : Bytes 16
  lastDataKeysRead : Bool
  lastWriteDataKeySent : Option (Bytes 16)
  maxBusEncryptionSectorExtents : UInt16
  busEncryptionSectorExtents : List BusEncryptionSectorExtent
  mediaCapacityLba : UInt32
  lastHostCertChal : Option (List UInt8)
  lastHostKey : Option (List UInt8)
  agidInvalidated : Bool
  cprmMediaKeyBlock : List UInt8
  cprmMkbHash : Bytes 16
  auth : Option DriveAuthState

namespace MockDrive

/-- `MockDrive::default()`. -/
def default : MockDrive where
  agidToReturn := 0
  driveNonce := Bytes.zero 20
  driveCert := Bytes.zero 92
  driveDv := Bytes.zero 40
  driveDsig := Bytes.zero 40
  volumeId := Bytes.zero 16
  volumeIdMac := Bytes.zero 16
  mediaSerialNumber := Bytes.zero 16
  mediaSerialMac := Bytes.zero 16
  mediaIdentifier := Bytes.zero 16
  mediaIdMac := Bytes.zero 16
  bindingNonce := Bytes.zero 16
  bindingNonceMac := Bytes.zero 16
  lastBindingNonceOp := none
  readDataKey := Bytes.zero 16
  writeDataKey := Bytes.zero 16
  lastDataKeysRead := false
  lastWriteDataKeySent := none
  maxBusEncryptionSectorExtents := 1
  busEncryptionSectorExtents := []
  mediaCapacityLba := 0xFFFFFFFF
  lastHostCertChal := none
  lastHostKey := none
  agidInvalidated := false
  cprmMediaKeyBlock := []
  cprmMkbHash := Bytes.zero 16
  auth := none

/-- The bus key of a completed handshake. -/
def busKey (s : MockDrive) : Option (Bytes 16) := s.auth.bind DriveAuthState.busKey

/-- A value with its MAC: the CMAC under the bus key when there is one, else stored bytes. -/
def macOr (aes : Aes128) (s : MockDrive) (value stored : Bytes 16) : Bytes 16 :=
  match s.busKey with
  | some bk => Aes.cmac aes bk value.toList
  | none => stored

/-- A value transferred under the bus key: `wrap` it when there is one, refuse when an
authenticating drive has none, and pass it on as it is in static mode. -/
def underBusKey (s : MockDrive) (wrap : Bytes 16 → α → α) (what : String) (value : α) : Result α :=
  match s.auth with
  | some auth =>
    match auth.busKey with
    | some bk => .ok (wrap bk value)
    | none => .err (.invalidValue what 0)
  | none => .ok value

/-- `length` and `max` as the drive reports them, then the records, behind
`debug_assert!((1..=256).contains(&max))`. -/
def extentsResponse (s : MockDrive) : Result (List UInt8) := do
  let length := s.busEncryptionSectorExtents.length * busEncryptionSectorExtentLen + 2
  Outcome.expect (if 1 ≤ s.maxBusEncryptionSectorExtents ∧ s.maxBusEncryptionSectorExtents ≤ 256
    then some () else none)
  let wireMax := if s.maxBusEncryptionSectorExtents = 256 then 0
    else s.maxBusEncryptionSectorExtents.toUInt8
  pure ([UInt8.ofNat (length >>> 8), UInt8.ofNat length, 0, wireMax] ++
    s.busEncryptionSectorExtents.flatMap BusEncryptionSectorExtent.record)

/-- One pack of the CPRM media key block, or its header alone. The drive replaces the first 16 bytes
of pack 0 by `CMAC(BK, MKB_Hash)`. -/
def cprmPackResponse (aes : Aes128) (s : MockDrive) (address : UInt32) : Result (List UInt8) := do
  let totalBytes := s.cprmMediaKeyBlock.length
  let totalPacks := (totalBytes + (cprmMkbPackLen - 1)) / cprmMkbPackLen
  Outcome.refuseIf (totalPacks > 255) (.invalidValue "MockDrive CPRM MKB Total Packs" totalPacks)
  if address = cprmMkbHeaderOnlyAddress then
    return [0x00, 0x02, 0x00, UInt8.ofNat totalPacks]
  let packIndex := address.toNat
  Outcome.refuseIf (packIndex ≥ totalPacks)
    (.invalidValue "MockDrive CPRM MKB pack index out of range" packIndex)
  let start := packIndex * cprmMkbPackLen
  let stop := min (start + cprmMkbPackLen) totalBytes
  let body ← Outcome.slice s.cprmMediaKeyBlock start stop
  let pack := body ++ List.replicate (cprmMkbPackLen - (stop - start)) 0
  let pack ← if packIndex = 0 then
      underBusKey s (fun bk pack => (Aes.cmac aes bk s.cprmMkbHash.toList).toList ++ pack.drop 16)
        "READ_DISC_STRUCTURE Format 0x86 pack 0 without Bus Key" pack
    else pure pack
  let length := cprmMkbPackLen + 2
  pure ([UInt8.ofNat (length >>> 8), UInt8.ofNat length, 0x00, UInt8.ofNat totalPacks] ++ pack)

def executeReportKey (aes : Aes128) (cdb : Bytes 12) : Proc MockDrive AacsError ScsiResponse := do
  let rk ← Proc.lift (ReportKey.parseCdb cdb)
  Proc.lift (Outcome.refuseIf (rk.keyClass ≠ keyClassAacs)
    (.invalidValue "MockDrive REPORT_KEY Key Class" rk.keyClass.toNat))
  let s ← Proc.get
  if rk.keyFormat = kfReportAacsAgid then
    pure (.good [0x00, 0x06, 0, 0, 0, 0, 0, (s.agidToReturn &&& 0x03) <<< 6])
  else if rk.keyFormat = kfReportAacsDriveCertChal then
    match s.auth with
    | some a => pure (.good (framed 0x0072 a.driveNonce.toList a.driveCert.toList))
    | none => pure (.good (framed 0x0072 s.driveNonce.toList s.driveCert.toList))
  else if rk.keyFormat = kfReportAacsDriveKey then
    let key ← match s.auth with
      | some a => Proc.lift (a.driveKeyResponse aes)
      | none => pure (s.driveDv, s.driveDsig)
    pure (.good (framed 0x0052 key.1.toList key.2.toList))
  else if rk.keyFormat = kfReportAacsDriveCert then
    pure (.good ([0x00, 0x5E, 0x00, 0x00] ++ s.driveCert.toList))
  else if rk.keyFormat = kfReportAacsBindingNonceGen ∨ rk.keyFormat =
    kfReportAacsBindingNonceRead then
    Proc.modify fun s => { s with
      lastBindingNonceOp := some (rk.keyFormat, rk.lbaOrStartingOffset, rk.blockCountFunction) }
    pure (.good (framed 0x0022 s.bindingNonce.toList
      (s.macOr aes s.bindingNonce s.bindingNonceMac).toList))
  else if rk.keyFormat = kfReportAacsInvalidateAgid then
    Proc.modify fun s => { s with agidInvalidated := true }
    pure (.good [])
  else
    Proc.lift (.err (.invalidValue "MockDrive REPORT_KEY Key Format" rk.keyFormat.toNat))

/-- A method of the authentication state, when there is one. -/
def onAuth (p : Proc DriveAuthState AacsError Unit) : Proc MockDrive AacsError Unit :=
  Proc.onField MockDrive.auth (fun s a => { s with auth := some a }) p

theorem onAuth_bind_ok {p : Proc DriveAuthState AacsError Unit}
    {f : Unit → Proc MockDrive AacsError α}
    {s : MockDrive} {a a' : DriveAuthState} (hauth : s.auth = some a) (hp : p a = (.ok (), a')) :
    (onAuth p >>= f) s = f () { s with auth := some a' } := by
  rw [Proc.bind_apply, Proc.bind, onAuth, Proc.onField, hauth]
  simp only [hp]

def executeSendKey (cdb : Bytes 12) (direction : DataDirection) (dataOut : List UInt8) :
    Proc MockDrive AacsError ScsiResponse := do
  let sk ← Proc.lift (SendKey.parseCdb cdb)
  Proc.lift (Outcome.refuseIf (sk.keyClass ≠ keyClassAacs)
    (.invalidValue "MockDrive SEND_KEY Key Class" sk.keyClass.toNat))
  Proc.lift (Outcome.refuseIf (direction ≠ .toDevice ∧ sk.keyFormat ≠ kfSendAacsInvalidateAgid)
    (.invalidValue "MockDrive SEND_KEY data direction" 0))
  if sk.keyFormat = kfSendAacsHostCertChal then
    let chal ← Proc.lift (parseSendKeyHostCertChal dataOut)
    onAuth (DriveAuthState.acceptHostCertChallenge chal.1 chal.2)
    Proc.modify fun s => { s with lastHostCertChal := some dataOut }
    pure (.good [])
  else if sk.keyFormat = kfSendAacsHostKey then
    let key ← Proc.lift (parseSendKeyHostKey dataOut)
    onAuth (DriveAuthState.acceptHostKey key.1 key.2)
    Proc.modify fun s => { s with lastHostKey := some dataOut }
    pure (.good [])
  else if sk.keyFormat = kfSendAacsInvalidateAgid then
    Proc.modify fun s => { s with agidInvalidated := true }
    pure (.good [])
  else
    Proc.lift (.err (.invalidValue "MockDrive SEND_KEY Key Format" sk.keyFormat.toNat))

def executeReadDiscStructure (aes : Aes128) (cdb : Bytes 12) :
    Proc MockDrive AacsError ScsiResponse := do
  let rds ← Proc.lift (ReadDiscStructure.parseCdb cdb)
  let s ← Proc.get
  if rds.format = formatAacsVolumeId then
    pure (.good (framed 0x0022 s.volumeId.toList (s.macOr aes s.volumeId s.volumeIdMac).toList))
  else if rds.format = formatAacsMediaSerial then
    pure (.good (framed 0x0022 s.mediaSerialNumber.toList
      (s.macOr aes s.mediaSerialNumber s.mediaSerialMac).toList))
  else if rds.format = formatAacsMediaId then
    pure (.good (framed 0x0022 s.mediaIdentifier.toList
      (s.macOr aes s.mediaIdentifier s.mediaIdMac).toList))
  else if rds.format = formatAacsDataKeys then
    let keys ← Proc.lift (underBusKey s
      (fun bk keys => (aes.encrypt bk keys.1, aes.encrypt bk keys.2))
      "READ_DISC_STRUCTURE Format 0x84 without Bus Key" (s.readDataKey, s.writeDataKey))
    Proc.modify fun s => { s with lastDataKeysRead := true }
    pure (.good (framed 0x0022 keys.1.toList keys.2.toList))
  else if rds.format = formatAacsBusEncryptionSectorExtents then
    let out ← Proc.lift s.extentsResponse
    pure (.good out)
  else if rds.format = formatAacsCprmMediaKeyBlock then
    let out ← Proc.lift (s.cprmPackResponse aes rds.address)
    pure (.good out)
  else
    Proc.lift (.err (.invalidValue "MockDrive READ_DISC_STRUCTURE Format" rds.format.toNat))

def buildSendDiscStructureWriteDataKey (writeDataKeyEncrypted : Bytes 16) : List UInt8 :=
  [0x00, 0x12, 0x00, 0x00] ++ writeDataKeyEncrypted.toList

/-- `[length:u16 = 0x0012][reserved:u16][Kwd:16]`. -/
def parseSendDiscStructureWriteDataKey (buf : List UInt8) : Result (Bytes 16) := do
  checkPayload "SEND_DISC_STRUCTURE Write Data Key" 0x0012 20 buf
  Outcome.readArray 16 buf 4

def executeSendDiscStructure (aes : Aes128) (cdb : Bytes 12) (direction : DataDirection)
    (dataOut : List UInt8) : Proc MockDrive AacsError ScsiResponse := do
  let sds ← Proc.lift (SendDiscStructure.parseCdb cdb)
  Proc.lift (Outcome.refuseIf (direction ≠ .toDevice)
    (.invalidValue "MockDrive SEND_DISC_STRUCTURE data direction" 0))
  let s ← Proc.get
  if sds.format = formatAacsWriteDataKey then
    let wireKwd ← Proc.lift (parseSendDiscStructureWriteDataKey dataOut)
    let kwdPlain ← Proc.lift (underBusKey s (fun bk kwd => aes.decrypt bk kwd)
      "SEND_DISC_STRUCTURE Format 0x84 without Bus Key" wireKwd)
    Proc.modify fun s => { s with writeDataKey := kwdPlain, lastWriteDataKeySent := some wireKwd }
    pure (.good [])
  else if sds.format = formatAacsBusEncryptionSectorExtents then
    let newExtents ← Proc.lift (parseSendDiscStructureBusEncryptionSectorExtents dataOut)
    Proc.lift (Outcome.refuseIf (newExtents.length > s.maxBusEncryptionSectorExtents.toNat)
      (.invalidValue "SEND_DISC_STRUCTURE Format 0x85 extent count exceeds drive capacity"
        newExtents.length))
    Proc.lift (validateBusEncryptionSectorExtents newExtents s.mediaCapacityLba)
    Proc.modify fun s => { s with busEncryptionSectorExtents := newExtents }
    pure (.good [])
  else
    Proc.lift (.err (.invalidValue "MockDrive SEND_DISC_STRUCTURE Format" sds.format.toNat))

/-- `DriveCommand::execute`: dispatch on the opcode. -/
def execute (aes : Aes128) (c : Command) : Proc MockDrive AacsError ScsiResponse :=
  let opcode := c.cdb.get 0
  if opcode = reportKeyOpcode then executeReportKey aes c.cdb
  else if opcode = sendKeyOpcode then executeSendKey c.cdb c.direction c.dataOut
  else if opcode = readDiscStructureOpcode then executeReadDiscStructure aes c.cdb
  else if opcode = sendDiscStructureOpcode then
    executeSendDiscStructure aes c.cdb c.direction c.dataOut
  else Proc.lift (.err (.invalidValue "MockDrive unsupported opcode" opcode.toNat))

/-- The mock behind the drive interface. -/
def device (aes : Aes128) : Drive MockDrive := ⟨fun s c => execute aes c s⟩

end MockDrive

end Ake
