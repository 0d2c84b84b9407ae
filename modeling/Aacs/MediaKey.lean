import Aacs.Mkb
import Aacs.Subdiff

/-!
# The Verify Media Key Record

A media key is right when it decrypts the record to a block that starts with the
sentinel.
-/
namespace Mkb

def verifyMediaKeySentinel : List UInt8 := [0x01, 0x23, 0x45, 0x67, 0x89, 0xAB, 0xCD, 0xEF]

variable (aes : Aes128)

/-- `verify_media_key`, the method; the field of that name is the record. -/
def checkMediaKey (mkb : Mkb) (km : Bytes 16) : Result Unit := do
  let vd ← Outcome.okOr mkb.verifyMediaKey .missingVerifyMediaKeyRecord
  let plaintext := aes.decrypt km vd
  if plaintext.toList.take 8 = verifyMediaKeySentinel then pure ()
  else .err .mediaKeyVerificationFailed

def isVerifiedMediaKey (mkb : Mkb) (km : Bytes 16) : Bool :=
  match mkb.verifyMediaKey with
  | none => false
  | some vd => (aes.decrypt km vd).toList.take 8 = verifyMediaKeySentinel

/-- The key conversion data is applied only to a precursor that is not the media key. -/
def resolveMediaKeyWithKcd (mkb : Mkb) (candidatePrecursor kcd : Bytes 16) : Result (Bytes 16) := do
  Outcome.refuseIf (mkb.verifyMediaKey = none) .missingVerifyMediaKeyRecord
  if mkb.isVerifiedMediaKey aes candidatePrecursor then pure candidatePrecursor
  else
    let km := Subdiff.applyKeyConversionData aes candidatePrecursor kcd
    if mkb.isVerifiedMediaKey aes km then pure km else .err .mediaKeyPrecursorResolutionFailed

variable {aes}

theorem checkMediaKey_eq_ok {mkb : Mkb} {km : Bytes 16} :
    mkb.checkMediaKey aes km = .ok () ↔ mkb.isVerifiedMediaKey aes km := by
  rw [checkMediaKey, isVerifiedMediaKey]
  cases mkb.verifyMediaKey with
  | none => simp
  | some vd =>
    by_cases h : (aes.decrypt km vd).toList.take 8 = verifyMediaKeySentinel <;> simp [h]

end Mkb
