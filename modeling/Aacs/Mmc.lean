import Aacs.Error

/-!
# MMC command descriptor blocks

The 12-byte commands of the drive interface, each with its builder and its
parser, and the typed AACS payloads they carry.
-/
namespace Mmc

def reportKeyOpcode : UInt8 := 0xA4
def sendKeyOpcode : UInt8 := 0xA3
def readDiscStructureOpcode : UInt8 := 0xAD
def sendDiscStructureOpcode : UInt8 := 0xBF

def keyClassAacs : UInt8 := 0x02

def kfReportAacsAgid : UInt8 := 0x00
def kfReportAacsDriveCertChal : UInt8 := 0x01
def kfReportAacsDriveKey : UInt8 := 0x02
def kfReportAacsBindingNonceGen : UInt8 := 0x20
def kfReportAacsBindingNonceRead : UInt8 := 0x21
def kfReportAacsDriveCert : UInt8 := 0x38
def kfReportAacsInvalidateAgid : UInt8 := 0x3F

def kfSendAacsHostCertChal : UInt8 := 0x01
def kfSendAacsHostKey : UInt8 := 0x02
def kfSendAacsInvalidateAgid : UInt8 := 0x3F

def formatAacsVolumeId : UInt8 := 0x80
def formatAacsMediaSerial : UInt8 := 0x81
def formatAacsMediaId : UInt8 := 0x82
def formatAacsMediaKeyBlock : UInt8 := 0x83
def formatAacsDataKeys : UInt8 := 0x84
def formatAacsWriteDataKey : UInt8 := 0x84
def formatAacsBusEncryptionSectorExtents : UInt8 := 0x85
def formatAacsCprmMediaKeyBlock : UInt8 := 0x86

def mediaTypeBd : UInt8 := 0x01

/-- The AGID in the two high bits, the key format in the six low ones. -/
def packAgid (agid keyFormat : UInt8) : UInt8 := ((agid &&& 0x03) <<< 6) ||| (keyFormat &&& 0x3F)

theorem packAgid_toNat (agid keyFormat : UInt8) :
    (packAgid agid keyFormat).toNat = agid.toNat % 4 * 64 + keyFormat.toNat % 64 := by
  have hagid : (agid &&& 0x03).toNat = agid.toNat % 4 := by
    rw [UInt8.toNat_and]
    exact Nat.and_two_pow_sub_one_eq_mod agid.toNat 2
  have hformat : (keyFormat &&& 0x3F).toNat = keyFormat.toNat % 64 := by
    rw [UInt8.toNat_and]
    exact Nat.and_two_pow_sub_one_eq_mod keyFormat.toNat 6
  have hshift : ((agid &&& 0x03) <<< 6).toNat = (agid.toNat % 4) <<< 6 := by
    rw [UInt8.toNat_shiftLeft, hagid]
    simp only [UInt8.reduceToNat, Nat.reduceMod, Nat.shiftLeft_eq, Nat.reducePow]
    omega
  rw [packAgid, UInt8.toNat_or, hshift, hformat, ← Nat.shiftLeft_add_eq_or_of_lt (by omega),
    Nat.shiftLeft_eq]

theorem packAgid_keyFormat (agid keyFormat : UInt8) :
    packAgid agid keyFormat &&& 0x3F = keyFormat &&& 0x3F := by
  rw [← UInt8.toNat_inj, UInt8.toNat_and, UInt8.toNat_and, packAgid_toNat]
  have hmask (x : Nat) : x &&& (0x3F : UInt8).toNat = x % 64 := Nat.and_two_pow_sub_one_eq_mod x 6
  rw [hmask, hmask]
  omega

theorem packAgid_agid (agid keyFormat : UInt8) :
    (packAgid agid keyFormat >>> 6) &&& 0x03 = agid &&& 0x03 := by
  rw [← UInt8.toNat_inj, UInt8.toNat_and, UInt8.toNat_and, UInt8.toNat_shiftRight, packAgid_toNat]
  have hmask (x : Nat) : x &&& (0x03 : UInt8).toNat = x % 4 := Nat.and_two_pow_sub_one_eq_mod x 2
  rw [hmask, hmask, Nat.shiftRight_eq_div_pow]
  simp only [UInt8.reduceToNat, Nat.reduceMod, Nat.reducePow]
  omega

structure ReportKey where
  keyClass : UInt8
  keyFormat : UInt8
  agid : UInt8
  lbaOrStartingOffset : UInt32
  blockCountFunction : UInt8
  allocationLength : UInt16
  control : UInt8
  deriving DecidableEq

namespace ReportKey

/-- The request for a key format that addresses no blocks. -/
def aacs (keyFormat agid : UInt8) (allocationLength : UInt16) : ReportKey :=
  ⟨keyClassAacs, keyFormat, agid &&& 0x03, 0, 0, allocationLength, 0⟩

def aacsAgid : ReportKey := aacs kfReportAacsAgid 0 8
def aacsDriveCertChallenge (agid : UInt8) : ReportKey := aacs kfReportAacsDriveCertChal agid 116
def aacsDriveKey (agid : UInt8) : ReportKey := aacs kfReportAacsDriveKey agid 84
def aacsDriveCert : ReportKey := aacs kfReportAacsDriveCert 0 96
def aacsInvalidateAgid (agid : UInt8) : ReportKey := aacs kfReportAacsInvalidateAgid agid 0

def aacsBindingNonceGen (agid : UInt8) (startingLba : UInt32) (blockCount : UInt8) : ReportKey :=
  ⟨keyClassAacs, kfReportAacsBindingNonceGen, agid &&& 0x03, startingLba, blockCount, 36, 0⟩

def aacsBindingNonceRead (agid : UInt8) (startingLba : UInt32) (blockCount : UInt8) : ReportKey :=
  ⟨keyClassAacs, kfReportAacsBindingNonceRead, agid &&& 0x03, startingLba, blockCount, 36, 0⟩

def cdb (rk : ReportKey) : Bytes 12 :=
  ⟨[reportKeyOpcode, 0] ++ u32ToBe rk.lbaOrStartingOffset ++ [rk.blockCountFunction, rk.keyClass] ++
    u16ToBe rk.allocationLength ++ [packAgid rk.agid rk.keyFormat, rk.control], rfl⟩

def parseCdb (cdb : Bytes 12) : Result ReportKey := do
  Outcome.refuseIf (cdb.get 0 ≠ reportKeyOpcode)
    (.invalidValue "REPORT_KEY opcode" (cdb.get 0).toNat)
  pure {
    keyClass := cdb.get 7
    keyFormat := cdb.get 10 &&& 0x3F
    agid := (cdb.get 10 >>> 6) &&& 0x03
    lbaOrStartingOffset := u32FromBe (cdb.get 2) (cdb.get 3) (cdb.get 4) (cdb.get 5)
    blockCountFunction := cdb.get 6
    allocationLength := u16FromBe (cdb.get 8) (cdb.get 9)
    control := cdb.get 11 }

/-- Parsing a built command gives back its fields, the AGID and key format masked. -/
theorem parseCdb_cdb (rk : ReportKey) : parseCdb rk.cdb =
    .ok { rk with keyFormat := rk.keyFormat &&& 0x3F, agid := rk.agid &&& 0x03 } := by
  have hop : ¬rk.cdb.get 0 ≠ reportKeyOpcode := not_not_intro rfl
  rw [parseCdb, Outcome.refuseIf_neg hop, Outcome.bind_ok]
  congr 1
  rw [mk.injEq]
  exact ⟨rfl, packAgid_keyFormat _ _, packAgid_agid _ _, u32FromBe_toBe _, rfl,
    u16FromBe_toBe _, rfl⟩

end ReportKey

structure SendKey where
  keyClass : UInt8
  keyFormat : UInt8
  agid : UInt8
  parameterListLength : UInt16
  control : UInt8
  deriving DecidableEq

namespace SendKey

def aacs (keyFormat agid : UInt8) (parameterListLength : UInt16) : SendKey :=
  ⟨keyClassAacs, keyFormat, agid &&& 0x03, parameterListLength, 0⟩

def aacsHostCertChallenge (agid : UInt8) : SendKey := aacs kfSendAacsHostCertChal agid 116
def aacsHostKey (agid : UInt8) : SendKey := aacs kfSendAacsHostKey agid 84
def aacsInvalidateAgid (agid : UInt8) : SendKey := aacs kfSendAacsInvalidateAgid agid 0

def cdb (sk : SendKey) : Bytes 12 :=
  ⟨[sendKeyOpcode, 0, 0, 0, 0, 0, 0, sk.keyClass] ++ u16ToBe sk.parameterListLength ++
    [packAgid sk.agid sk.keyFormat, sk.control], rfl⟩

def parseCdb (cdb : Bytes 12) : Result SendKey := do
  Outcome.refuseIf (cdb.get 0 ≠ sendKeyOpcode) (.invalidValue "SEND_KEY opcode" (cdb.get 0).toNat)
  pure {
    keyClass := cdb.get 7
    keyFormat := cdb.get 10 &&& 0x3F
    agid := (cdb.get 10 >>> 6) &&& 0x03
    parameterListLength := u16FromBe (cdb.get 8) (cdb.get 9)
    control := cdb.get 11 }

theorem parseCdb_cdb (sk : SendKey) : parseCdb sk.cdb =
    .ok { sk with keyFormat := sk.keyFormat &&& 0x3F, agid := sk.agid &&& 0x03 } := by
  have hop : ¬sk.cdb.get 0 ≠ sendKeyOpcode := not_not_intro rfl
  rw [parseCdb, Outcome.refuseIf_neg hop, Outcome.bind_ok]
  congr 1
  rw [mk.injEq]
  exact ⟨rfl, packAgid_keyFormat _ _, packAgid_agid _ _, u16FromBe_toBe _, rfl⟩

end SendKey

structure ReadDiscStructure where
  mediaType : UInt8
  address : UInt32
  layerNumber : UInt8
  format : UInt8
  allocationLength : UInt16
  agid : UInt8
  control : UInt8
  deriving DecidableEq

namespace ReadDiscStructure

def aacsVolumeId (agid : UInt8) : ReadDiscStructure :=
  ⟨mediaTypeBd, 0, 0, formatAacsVolumeId, 36, agid &&& 0x03, 0⟩

def aacsMediaSerial (agid : UInt8) : ReadDiscStructure :=
  ⟨mediaTypeBd, 0, 0, formatAacsMediaSerial, 36, agid &&& 0x03, 0⟩

def aacsMediaId (agid : UInt8) : ReadDiscStructure :=
  ⟨mediaTypeBd, 0, 0, formatAacsMediaId, 36, agid &&& 0x03, 0⟩

/-- The allocation length is that of the header and the longest pack. -/
def aacsMediaKeyBlockPack (agid : UInt8) (packNumber : UInt32) (layer : UInt8) :
    ReadDiscStructure :=
  ⟨mediaTypeBd, packNumber, layer, formatAacsMediaKeyBlock, 32 * 1024 + 4, agid &&& 0x03, 0⟩

def aacsDataKeys (agid : UInt8) : ReadDiscStructure :=
  ⟨mediaTypeBd, 0, 0, formatAacsDataKeys, 36, agid &&& 0x03, 0⟩

def aacsBusEncryptionSectorExtents : ReadDiscStructure :=
  ⟨mediaTypeBd, 0, 0, formatAacsBusEncryptionSectorExtents, 12 + 256 * 16, 0, 0⟩

/-- The allocation length is that of the header and one pack. -/
def aacsCprmMediaKeyBlockPack (agid : UInt8) (packNumber : UInt32) : ReadDiscStructure :=
  ⟨mediaTypeBd, packNumber, 0, formatAacsCprmMediaKeyBlock, 4 + 24576, agid &&& 0x03, 0⟩

def cdb (rds : ReadDiscStructure) : Bytes 12 :=
  ⟨[readDiscStructureOpcode, rds.mediaType &&& 0x0F] ++ u32ToBe rds.address ++
    [rds.layerNumber, rds.format] ++ u16ToBe rds.allocationLength ++
    [(rds.agid &&& 0x03) <<< 6, rds.control], rfl⟩

def parseCdb (cdb : Bytes 12) : Result ReadDiscStructure := do
  Outcome.refuseIf (cdb.get 0 ≠ readDiscStructureOpcode)
    (.invalidValue "READ_DISC_STRUCTURE opcode" (cdb.get 0).toNat)
  pure {
    mediaType := cdb.get 1 &&& 0x0F
    address := u32FromBe (cdb.get 2) (cdb.get 3) (cdb.get 4) (cdb.get 5)
    layerNumber := cdb.get 6
    format := cdb.get 7
    allocationLength := u16FromBe (cdb.get 8) (cdb.get 9)
    agid := (cdb.get 10 >>> 6) &&& 0x03
    control := cdb.get 11 }

theorem parseCdb_of_opcode {cdb : Bytes 12} (hop : cdb.get 0 = readDiscStructureOpcode) :
    ∃ rds, parseCdb cdb = .ok rds ∧ rds.format = cdb.get 7 ∧
      rds.address = u32FromBe (cdb.get 2) (cdb.get 3) (cdb.get 4) (cdb.get 5) := by
  rw [parseCdb, Outcome.refuseIf_neg (not_not_intro hop), Outcome.bind_ok]
  exact ⟨_, rfl, rfl, rfl⟩

theorem parseCdb_cdb (rds : ReadDiscStructure) : ∃ rds', parseCdb rds.cdb = .ok rds' ∧
    rds'.format = rds.format ∧ rds'.address = rds.address := by
  have hop : ¬rds.cdb.get 0 ≠ readDiscStructureOpcode := not_not_intro rfl
  rw [parseCdb, Outcome.refuseIf_neg hop, Outcome.bind_ok]
  exact ⟨_, rfl, rfl, u32FromBe_toBe _⟩

end ReadDiscStructure

structure SendDiscStructure where
  mediaType : UInt8
  format : UInt8
  parameterListLength : UInt16
  agid : UInt8
  control : UInt8
  deriving DecidableEq

namespace SendDiscStructure

def aacsWriteDataKey (agid : UInt8) : SendDiscStructure :=
  ⟨mediaTypeBd, formatAacsWriteDataKey, 20, agid &&& 0x03, 0⟩

def aacsBusEncryptionSectorExtents (numExtents : Nat) : SendDiscStructure :=
  ⟨mediaTypeBd, formatAacsBusEncryptionSectorExtents, UInt16.ofNat (4 + numExtents * 16), 0, 0⟩

def cdb (sds : SendDiscStructure) : Bytes 12 :=
  ⟨[sendDiscStructureOpcode, sds.mediaType &&& 0x0F, 0, 0, 0, 0, 0, sds.format] ++
    u16ToBe sds.parameterListLength ++ [(sds.agid &&& 0x03) <<< 6, sds.control], rfl⟩

def parseCdb (cdb : Bytes 12) : Result SendDiscStructure := do
  Outcome.refuseIf (cdb.get 0 ≠ sendDiscStructureOpcode)
    (.invalidValue "SEND_DISC_STRUCTURE opcode" (cdb.get 0).toNat)
  pure {
    mediaType := cdb.get 1 &&& 0x0F
    format := cdb.get 7
    parameterListLength := u16FromBe (cdb.get 8) (cdb.get 9)
    agid := (cdb.get 10 >>> 6) &&& 0x03
    control := cdb.get 11 }

theorem parseCdb_of_opcode {cdb : Bytes 12} (hop : cdb.get 0 = sendDiscStructureOpcode) :
    ∃ sds, parseCdb cdb = .ok sds := by
  rw [parseCdb, Outcome.refuseIf_neg (not_not_intro hop), Outcome.bind_ok]
  exact ⟨_, rfl⟩

theorem parseCdb_format {cdb : Bytes 12} {sds : SendDiscStructure}
    (h : parseCdb cdb = .ok sds) : sds.format = cdb.get 7 := by
  simp only [parseCdb, Outcome.bind_eq_ok, Outcome.pure_eq, Outcome.ok.injEq] at h
  obtain ⟨-, -, rfl⟩ := h
  rfl

end SendDiscStructure

/-- The checks every payload starts with: a two-byte length of the expected value, and
at least `size` bytes in all. -/
def checkPayload (name : String) (expected : UInt16) (size : Nat) (buf : List UInt8) :
    Result Unit := do
  let length ← readU16Be buf (name ++ " header")
  Outcome.refuseIf (length ≠ expected) (.invalidValue (name ++ " length") length.toNat)
  Outcome.refuseIf (buf.length < size) (.truncated (name ++ " payload"))

/-- A payload of two adjacent fields behind the four header bytes. -/
def parseFields (name : String) (expected : UInt16) (m n : Nat) (buf : List UInt8) :
    Result (Bytes m × Bytes n) := do
  checkPayload name expected (4 + m + n) buf
  let first ← Outcome.readArray m buf 4
  let second ← Outcome.readArray n buf (4 + m)
  pure (first, second)

/-- The header `[length:u16][reserved:u16]` and two fields. -/
def framed (length : UInt16) (first second : List UInt8) : List UInt8 :=
  u16ToBe length ++ [0, 0] ++ first ++ second

theorem readU16Be_eq_ok {buf : List UInt8} {what : String} {v : UInt16} :
    readU16Be buf what = .ok v ↔ buf.take 2 = u16ToBe v := by
  cases buf with
  | nil => simp [readU16Be, u16ToBe]
  | cons b₀ buf =>
    cases buf with
    | nil => simp [readU16Be, u16ToBe]
    | cons b₁ buf =>
      simp only [readU16Be, Outcome.ok.injEq, List.take_succ_cons, List.take_zero]
      constructor
      · rintro rfl
        rw [u16ToBe_fromBe]
      · intro h
        rw [u16ToBe, List.cons.injEq, List.cons.injEq] at h
        rw [h.1, h.2.1, u16FromBe_toBe]

theorem checkPayload_eq_ok {name : String} {expected : UInt16} {size : Nat} {buf : List UInt8}
    {u : Unit} : checkPayload name expected size buf = .ok u ↔
      buf.take 2 = u16ToBe expected ∧ size ≤ buf.length := by
  simp only [checkPayload, Outcome.bind_eq_ok, Outcome.refuseIf_eq_ok, readU16Be_eq_ok, not_not,
    Nat.not_lt, exists_const]
  constructor
  · rintro ⟨_, h, rfl, hsize⟩
    exact ⟨h, hsize⟩
  · rintro ⟨h, hsize⟩
    exact ⟨expected, h, rfl, hsize⟩

theorem parseFields_eq_ok {name : String} {expected : UInt16} {m n : Nat} {buf : List UInt8}
    {first : Bytes m} {second : Bytes n} :
    parseFields name expected m n buf = .ok (first, second) ↔
      buf.take 2 = u16ToBe expected ∧ 4 + m + n ≤ buf.length ∧
        first.toList = (buf.drop 4).take m ∧ second.toList = (buf.drop (4 + m)).take n := by
  simp only [parseFields, Outcome.bind_eq_ok, checkPayload_eq_ok, Outcome.readArray_eq_ok,
    Outcome.pure_eq, Outcome.ok.injEq, Prod.mk.injEq]
  constructor
  · rintro ⟨_, ⟨hlen, hsize⟩, a, ⟨-, ha⟩, b, ⟨-, hb⟩, rfl, rfl⟩
    exact ⟨hlen, hsize, ha, hb⟩
  · rintro ⟨hlen, hsize, ha, hb⟩
    exact ⟨(), ⟨hlen, hsize⟩, first, ⟨by omega, ha⟩, second, ⟨hsize, hb⟩, rfl, rfl⟩

theorem readU16Be_returns (buf : List UInt8) (what : String) : (readU16Be buf what).Returns := by
  unfold readU16Be
  split <;> simp

theorem checkPayload_returns (name : String) (expected : UInt16) (size : Nat) (buf : List UInt8) :
    (checkPayload name expected size buf).Returns := by
  apply (readU16Be_returns _ _).bind
  intro length _
  apply (Outcome.returns_refuseIf _ _).bind
  intro _ _
  apply Outcome.returns_refuseIf

theorem parseFields_returns (name : String) (expected : UInt16) (m n : Nat) (buf : List UInt8) :
    (parseFields name expected m n buf).Returns := by
  apply (checkPayload_returns _ _ _ _).bind
  intro _ hcheck
  have hsize := (checkPayload_eq_ok.mp hcheck).2
  apply (Outcome.returns_of_ok (Outcome.readArray_of_le (by omega))).bind
  intro _ _
  apply (Outcome.returns_of_ok (Outcome.readArray_of_le (by omega))).bind
  intro _ _
  exact Outcome.returns_ok _

/-- A framed payload parses to its fields. -/
theorem parseFields_framed (name : String) (length : UInt16) {m n : Nat} (first : Bytes m)
    (second : Bytes n) :
    parseFields name length m n (framed length first.toList second.toList) = .ok
      (first, second) := by
  rw [parseFields_eq_ok]
  refine ⟨by simp [framed, u16ToBe], ?_, ?_, ?_⟩
  · simp [framed]
    omega
  · simp [framed, u16ToBe]
  · simp [framed, u16ToBe, Nat.add_comm 4]

end Mmc
