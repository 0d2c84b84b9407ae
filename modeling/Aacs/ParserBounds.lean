import Aacs.CertificateOffsets
import Aacs.ContentHashTable
import Aacs.CrlOffsets
import Aacs.MkbOffsets
import Aacs.UnitKeyOffsets
import Aacs.UsageFile

/-!
# Every binary parser returns

On a byte string that a slice can hold, each parser and each verifier of a media
key block ends with a value or an error: no read is out of range, and no size or
offset leaves 64 bits.
-/

open Outcome

/-- The binary parsers end on `bytes`, and so do the verifiers of a block and its revocation lists.
-/
structure ParsersReturn (bytes : List UInt8) (mkb : Mkb) (aacsLaPub : Point)
    (numberOfDigests numberOfHashUnits : UInt32) : Prop where
  mediaKeyBlock : Returns (Mkb.Checked.parse bytes)
  endOfBlockSignature : Returns (Mkb.Checked.verifyEndOfBlockSignature mkb bytes aacsLaPub)
  hostRevocationList : Returns (Mkb.Checked.verifyHostRevocationList mkb bytes aacsLaPub)
  driveRevocationList : Returns (Mkb.Checked.verifyDriveRevocationList mkb bytes aacsLaPub)
  contentRevocationList : Returns (ContentRevocationList.Checked.parse bytes)
  unitKeyFile : Returns (UnitKeyFile.Checked.parse bytes)
  contentCertificate : Returns (ContentCertificate.Checked.parse bytes)
  bdFormatSpecificSection : Returns (BdFormatSpecificSection.Checked.parse bytes)
  contentHashTable : Returns
    (ContentHashTable.Checked.parse bytes numberOfDigests numberOfHashUnits)
  cpsUnitUsageFile : Returns (CpsUnitUsageFile.Checked.parse bytes)

namespace Mkb.Checked

variable {bytes : List UInt8} (mkb : Mkb) (aacsLaPub : Point)

theorem returns_parse (h : IsSlice bytes) : Returns (parse bytes) := by
  rw [parse_eq h]
  exact Mkb.returns_parse bytes

theorem returns_verifyEndOfBlockSignature (h : IsSlice bytes) :
    Returns (verifyEndOfBlockSignature mkb bytes aacsLaPub) := by
  rw [verifyEndOfBlockSignature_eq mkb h]
  exact Mkb.returns_verifyEndOfBlockSignature mkb bytes aacsLaPub

theorem returns_verifyRevocationListSignatures (hmkb : IsSlice mkb.typeAndVersionRaw)
    (h : IsSlice bytes) (tag : UInt8) (blocks : List RevocationSignatureBlock) :
    Returns (verifyRevocationListSignatures mkb bytes aacsLaPub tag blocks) := by
  rw [verifyRevocationListSignatures_eq mkb hmkb h]
  exact Mkb.returns_verifyRevocationListSignatures mkb bytes aacsLaPub tag blocks

end Mkb.Checked

/-- The byte string and the kept Type-and-Version record are any that memory can hold; the
block, the key and the two counts are arbitrary. -/
theorem parsers_return (bytes : List UInt8) (mkb : Mkb) (aacsLaPub : Point)
    (numberOfDigests numberOfHashUnits : UInt32)
    (h : IsSlice bytes) (hmkb : IsSlice mkb.typeAndVersionRaw) :
    ParsersReturn bytes mkb aacsLaPub numberOfDigests numberOfHashUnits where
  mediaKeyBlock := Mkb.Checked.returns_parse h
  endOfBlockSignature := Mkb.Checked.returns_verifyEndOfBlockSignature mkb aacsLaPub h
  hostRevocationList := Mkb.Checked.returns_verifyRevocationListSignatures mkb aacsLaPub hmkb h _ _
  driveRevocationList := Mkb.Checked.returns_verifyRevocationListSignatures mkb aacsLaPub hmkb h _ _
  contentRevocationList := by
    rw [ContentRevocationList.Checked.parse_eq h]
    exact ContentRevocationList.returns_parse bytes
  unitKeyFile := by
    rw [UnitKeyFile.Checked.parse_eq h]
    exact UnitKeyFile.returns_parse bytes
  contentCertificate := by
    rw [ContentCertificate.Checked.parse_eq]
    exact ContentCertificate.returns_parse bytes
  bdFormatSpecificSection := by
    rw [BdFormatSpecificSection.Checked.parse_eq]
    exact BdFormatSpecificSection.returns_parse bytes
  contentHashTable := by
    rw [ContentHashTable.Checked.parse_eq]
    exact ContentHashTable.returns_parse bytes numberOfDigests numberOfHashUnits
  cpsUnitUsageFile := by
    rw [CpsUnitUsageFile.Checked.parse_eq h]
    exact CpsUnitUsageFile.returns_parse bytes

/-- A revocation list that declares more entries than any byte string holds, and the greatest
counts. -/
theorem parsers_return_greatestCounts : ParsersReturn
    [0x21, 0x00, 0x00, 0x0C, 0x00, 0x00, 0x00, 0x01, 0xFF, 0xFF, 0xFF, 0xFF]
    {} Point.generator 0xFFFFFFFF 0xFFFFFFFF :=
  parsers_return _ _ _ _ _ (by rw [IsSlice]; decide) (by rw [IsSlice]; decide)
