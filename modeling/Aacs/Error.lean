import Aacs.Bytes
import Aacs.Interact

/-!
# Errors
-/

/-- The errors of the modelled functions, with the texts the code gives them. -/
inductive AacsError where
  | truncated (what : String)
  | oversizedRecord (what : String) (declared available : Nat)
  | invalidValue (what : String) (value : Nat)
  | missingTypeAndVersionRecord
  | missingVerifyMediaKeyRecord
  | mediaKeyVerificationFailed
  | mediaKeyPrecursorResolutionFailed
  | deviceRevoked
  | missingDiscFile (name : String)
  | badAlignedUnitLength (len : Nat)
  | keyDbParseError (line : List Char)
  | headerParseError (msg : String) (excerpt : List Char)
  | driveCertSignatureInvalid
  | hostCertSignatureInvalid
  | driveSignatureInvalid
  | hostSignatureInvalid
  | volumeIdMacInvalid
  | mkbSignatureMissing
  | mkbSignatureInvalid
  | contentHashMismatch (index : Nat)
  deriving DecidableEq

/-- `Result<T, AacsError>`. -/
abbrev Result := Outcome AacsError

/-- `buf[..2]` as a big-endian number, or the error that names the structure. -/
def readU16Be (buf : List UInt8) (what : String) : Result UInt16 :=
  match buf with
  | b₀ :: b₁ :: _ => .ok (u16FromBe b₀ b₁)
  | _ => .err (.truncated what)
