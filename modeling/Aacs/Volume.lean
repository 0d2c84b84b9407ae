import Aacs.Content
import Aacs.KeyDb
import Aacs.MediaKey
import Aacs.UnitKey

/-!
# The volume

A disc whose key files have been read: its MKB, its unit key file, and the CPS
units whose title keys a volume unique key unwraps.
-/

/-- A device key with its place in the tree; `deviceNode` is the leaf of the device, when known. -/
structure DeviceKey where
  key : Bytes 16
  uv : UInt32
  uMaskZeroBits : UInt8
  vMaskZeroBits : UInt8
  deviceNode : Option UInt32
  deriving DecidableEq

structure TitleKey where
  bytes : Bytes 16
  deriving DecidableEq

structure CpsUnit where
  id : UInt16
  encryptedTitleKey : Bytes 16
  titleKey : Option TitleKey
  deriving DecidableEq

structure AacsVolume where
  mkb : Mkb
  unitKeyFile : UnitKeyFile
  cpsUnits : List CpsUnit
  deriving DecidableEq

namespace AacsVolume

/-- `read_aacs_file`: the files of the disc by their path below its root, with the duplicate
in the place of one that cannot be read. -/
def readAacsFile (discRoot : List String → Option (List UInt8)) (name : String) :
    Result (List UInt8) :=
  match discRoot ["AACS", name] with
  | some bytes => pure bytes
  | none =>
    match discRoot ["AACS", "DUPLICATE", name] with
    | some bytes => pure bytes
    | none => .err (.missingDiscFile name)

/-- The CPS units of a unit key file, numbered from one. -/
def cpsUnitsOf (unitKeyFile : UnitKeyFile) : List CpsUnit :=
  unitKeyFile.cpsUnits.mapIdx fun i rec =>
    { id := UInt16.ofNat (i + 1), encryptedTitleKey := rec.encryptedCpsUnitKey, titleKey := none }

/-- `open`. -/
def openDisc (discRoot : List String → Option (List UInt8)) : Result AacsVolume := do
  let mkbBytes ← readAacsFile discRoot "MKB_RO.inf"
  let unitKeyBytes ← readAacsFile discRoot "Unit_Key_RO.inf"
  let mkb ← Mkb.parse mkbBytes
  let unitKeyFile ← UnitKeyFile.parse unitKeyBytes
  pure { mkb, unitKeyFile, cpsUnits := cpsUnitsOf unitKeyFile }

variable (aes : Aes128)

def subsetDifference (e : SubsetDifferenceEntry) : Subdiff.SubsetDifference :=
  ⟨e.uMaskZeroBits, e.uv⟩

/-- The leaf of the device, made up from `uv` where it is not known. -/
def dNode (deviceKey : DeviceKey) : UInt32 := deviceKey.deviceNode.getD ((deviceKey.uv <<< 1) ||| 1)

/-- The search for the first entry that applies, with its index. -/
def chooseEntry (dNode : UInt32) : Nat → List SubsetDifferenceEntry → Option
    (Nat × Subdiff.SubsetDifference)
  | _, [] => none
  | i, e :: es =>
    let sd := subsetDifference e
    if Subdiff.appliesToDevice sd dNode then some (i, sd) else chooseEntry dNode (i + 1) es

def targetVMaskZeroBits (uv : UInt32) : UInt8 :=
  if uv = 0 then 32 else UInt8.ofNat (min (Subdiff.trailingZeros uv + 1) 32)

def deriveMediaKeyFromDeviceKey (vol : AacsVolume) (deviceKey : DeviceKey) : Result (Bytes 16) := do
  let chosen ← Outcome.okOr (chooseEntry (dNode deviceKey) 0 vol.mkb.explicitSubdiff) .deviceRevoked
  let sd := chosen.2
  let pk ← Subdiff.deriveProcessingKey aes deviceKey.key deviceKey.uv deviceKey.vMaskZeroBits sd.uv
    (targetVMaskZeroBits sd.uv)
  let pk ← Outcome.okOr pk .deviceRevoked
  let encKm ← Outcome.okOr vol.mkb.mediaKeyData[chosen.1]? .missingVerifyMediaKeyRecord
  pure (Subdiff.mediaKeyFromProcessingKey aes pk sd.uv encKm)

/-- `K_vu = AES-G(K_m, ID_v)`. -/
def deriveVuk (mediaKey volumeId : Bytes 16) : Vuk := ⟨Aes.aesG aes mediaKey volumeId⟩

def deriveVukFromDeviceKey (vol : AacsVolume) (deviceKey : DeviceKey) (volumeId : Bytes 16) :
    Result Vuk := do
  let km ← vol.deriveMediaKeyFromDeviceKey aes deviceKey
  let _ ← vol.mkb.checkMediaKey aes km
  pure (deriveVuk aes km volumeId)

def deriveVukFromDeviceKeyWithKcd (vol : AacsVolume) (deviceKey : DeviceKey) (volumeId : Bytes 16)
    (kcd : Option (Bytes 16)) : Result Vuk := do
  let candidate ← vol.deriveMediaKeyFromDeviceKey aes deviceKey
  if vol.mkb.isVerifiedMediaKey aes candidate then pure (deriveVuk aes candidate volumeId)
  else
    match kcd with
    | some kcdBytes => do
      let km := Subdiff.applyKeyConversionData aes candidate kcdBytes
      let _ ← vol.mkb.checkMediaKey aes km
      pure (deriveVuk aes km volumeId)
    | none => .err .mediaKeyVerificationFailed

def unwrapTitleKeys (vol : AacsVolume) (vuk : Vuk) : Result AacsVolume :=
  pure { vol with
    cpsUnits := vol.cpsUnits.map fun unit =>
      { unit with titleKey := some ⟨aes.decrypt vuk.bytes unit.encryptedTitleKey⟩ } }

def decryptUnit (_vol : AacsVolume) (cpsUnit : CpsUnit) (unitBytes : List UInt8) :
    Result (Bytes Content.alignedUnitSize) := do
  let tk ← Outcome.okOr cpsUnit.titleKey
    (.invalidValue "CPS Unit title key (not yet unwrapped)" cpsUnit.id.toNat)
  Content.decryptAlignedUnit aes tk.bytes unitBytes

end AacsVolume
