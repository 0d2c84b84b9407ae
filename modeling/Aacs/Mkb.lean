import Aacs.Ecdsa
import Aacs.Error

/-!
# The Media Key Block

A stream of records, each a tag, a 24-bit length that counts the header, and a
payload. The parser keeps one value for each record type it knows and all
records it does not; the signature checks walk the same bytes again.
-/

inductive MkbType where
  | type3
  | type4
  | type10
  | other (v : UInt32)
  deriving DecidableEq

def MkbType.fromU32 (v : UInt32) : MkbType :=
  if v = 0x00031003 then .type3
  else if v = 0x00041003 then .type4
  else if v = 0x000A1003 then .type10
  else .other v

/-- One entry of a revocation list: the first id, and how many follow it. -/
structure RevocationEntry where
  range : UInt16
  id : Bytes 6
  deriving DecidableEq

structure RevocationSignatureBlock where
  entriesInBlock : UInt32
  entries : List RevocationEntry
  signature : Option Ecdsa.Signature
  deriving DecidableEq

structure SubsetDifferenceEntry where
  uMaskZeroBits : UInt8
  uv : UInt32
  deriving DecidableEq

structure SubsetDiffIndex where
  span : UInt32
  offsets : List UInt32
  deriving DecidableEq

structure VariantNumberRecord where
  nonce : Bytes 16
  variantNumberData : List UInt8
  deriving DecidableEq

structure Mkb where
  mkbType : Option MkbType := none
  version : UInt32 := 0
  hostRevocationList : List RevocationEntry := []
  hostRevocationBlocks : List RevocationSignatureBlock := []
  driveRevocationList : List RevocationEntry := []
  driveRevocationBlocks : List RevocationSignatureBlock := []
  verifyMediaKey : Option (Bytes 16) := none
  explicitSubdiff : List SubsetDifferenceEntry := []
  subdiffIndex : Option SubsetDiffIndex := none
  mediaKeyData : List (Bytes 16) := []
  mediaKeyVariantData : List (Bytes 16) := []
  variantNumberRecord : Option VariantNumberRecord := none
  endOfBlock : Bool := false
  endOfBlockSignature : Option Ecdsa.Signature := none
  typeAndVersionRaw : List UInt8 := []
  unknownRecords : List (UInt8 × List UInt8) := []
  deriving DecidableEq

namespace Mkb

def parseTypeAndVersion (payload : List UInt8) : Result (MkbType × UInt32) := do
  Outcome.refuseIf (payload.length < 8) (.truncated "Type-and-Version Record")
  let mkbType ← Outcome.indexU32 payload 0
  let version ← Outcome.indexU32 payload 4
  pure (MkbType.fromU32 mkbType, version)

/-- `n` entries of a revocation list, from the cursor on. -/
def readEntries : Nat → List UInt8 → Result (List RevocationEntry)
  | 0, _ => pure []
  | n + 1, rest => do
    let range ← Outcome.indexU16 rest 0
    let id ← Outcome.readArray 6 rest 2
    let entries ← readEntries n (rest.drop 8)
    pure (⟨range, id⟩ :: entries)

/-- The blocks of a revocation list, from the cursor on: all entries, and the entries of
each block with its signature, which the last block may lack. -/
def blockLoop (rest : List UInt8) :
    Result (List RevocationEntry × List RevocationSignatureBlock) :=
  if rest.length = 0 then pure ([], [])
  else if _h : rest.length < 4 then .err (.truncated "Revocation List block header")
  else do
    let n ← Outcome.indexU32 rest 0
    let rest' := rest.drop 4
    Outcome.refuseIf (rest'.length < n.toNat * 8) (.truncated "Revocation List entries")
    let blockEntries ← readEntries n.toNat rest'
    let rest'' := rest'.drop (n.toNat * 8)
    if 40 ≤ rest''.length then
      let sig ← Outcome.readArray 40 rest'' 0
      let more ← blockLoop (rest''.drop 40)
      pure (blockEntries ++ more.1, ⟨n, blockEntries, some sig⟩ :: more.2)
    else pure (blockEntries, [⟨n, blockEntries, none⟩])
termination_by rest.length
decreasing_by
  simp +zetaDelta only [List.length_drop]
  omega

def parseRevocationListWithBlocks (payload : List UInt8) :
    Result (List RevocationEntry × List RevocationSignatureBlock) := do
  Outcome.refuseIf (payload.length < 4) (.truncated "Revocation List header")
  let _ ← Outcome.indexU32 payload 0
  blockLoop (payload.drop 4)

def parseVerifyMediaKey (payload : List UInt8) : Result (Bytes 16) := do
  Outcome.refuseIf (payload.length < 16) (.truncated "Verify Media Key Record")
  Outcome.readArray 16 payload 0

/-- Five-byte entries up to the first one whose two high mask bits are set. -/
def parseExplicitSubdiff (payload : List UInt8) : Result (List SubsetDifferenceEntry) :=
  if _h : payload.length < 5 then pure []
  else do
    let uMask ← Outcome.index payload 0
    if uMask &&& 0xC0 ≠ 0 then pure []
    else
      let uv ← Outcome.indexU32 payload 1
      let entries ← parseExplicitSubdiff (payload.drop 5)
      pure (⟨uMask, uv⟩ :: entries)
termination_by payload.length
decreasing_by
  rw [List.length_drop]
  omega

/-- Three-byte offsets, a shorter rest dropped. -/
def readOffsets (rest : List UInt8) : Result (List UInt32) :=
  if _h : rest.length < 3 then pure []
  else do
    let off ← Outcome.indexU24 rest 0
    let offsets ← readOffsets (rest.drop 3)
    pure (off :: offsets)
termination_by rest.length
decreasing_by
  rw [List.length_drop]
  omega

def parseSubdiffIndex (payload : List UInt8) : Result SubsetDiffIndex := do
  Outcome.refuseIf (payload.length < 4) (.truncated "Subset-Difference Index Record")
  let span ← Outcome.indexU32 payload 0
  let offsets ← readOffsets (payload.drop 4)
  pure ⟨span, offsets⟩

/-- Sixteen-byte keys, a shorter rest dropped. -/
def parseMediaKeyData (payload : List UInt8) : Result (List (Bytes 16)) :=
  if _h : payload.length < 16 then pure []
  else do
    let key ← Outcome.readArray 16 payload 0
    let keys ← parseMediaKeyData (payload.drop 16)
    pure (key :: keys)
termination_by payload.length
decreasing_by
  rw [List.length_drop]
  omega

def parseVariantNumber (payload : List UInt8) : Result VariantNumberRecord := do
  Outcome.refuseIf (payload.length < 16) (.truncated "Variant Number Record")
  let nonce ← Outcome.readArray 16 payload 0
  let variantNumberData ← Outcome.sliceFrom payload 16
  pure ⟨nonce, variantNumberData⟩

/-- The signature of an End record, when its payload has the length of one. -/
def endSignature (payload : List UInt8) : Result (Option Ecdsa.Signature) :=
  if payload.length = 40 then do
    let sig ← Outcome.readArray 40 payload 0
    pure (some sig)
  else pure none

def tagTypeAndVersion : UInt8 := 0x10
def tagHostRevocationList : UInt8 := 0x21
def tagDriveRevocationList : UInt8 := 0x20
def tagVerifyMediaKey : UInt8 := 0x81
def tagExplicitSubdiff : UInt8 := 0x04
def tagSubdiffIndex : UInt8 := 0x07
def tagMediaKeyData : UInt8 := 0x05
def tagMediaKeyVariantData : UInt8 := 0x0C
def tagVariantNumber : UInt8 := 0x0D
def tagEndOfBlock : UInt8 := 0x02

/-- The arms of the parser. `record` is the whole record, header included. -/
def decodeRecord (tag : UInt8) (payload record : List UInt8) (out : Mkb) : Result Mkb :=
  if tag = tagTypeAndVersion then do
    let tv ← parseTypeAndVersion payload
    pure { out with mkbType := some tv.1, version := tv.2, typeAndVersionRaw := record }
  else if tag = tagHostRevocationList then do
    let rl ← parseRevocationListWithBlocks payload
    pure { out with hostRevocationList := rl.1, hostRevocationBlocks := rl.2 }
  else if tag = tagDriveRevocationList then do
    let rl ← parseRevocationListWithBlocks payload
    pure { out with driveRevocationList := rl.1, driveRevocationBlocks := rl.2 }
  else if tag = tagVerifyMediaKey then do
    let vd ← parseVerifyMediaKey payload
    pure { out with verifyMediaKey := some vd }
  else if tag = tagExplicitSubdiff then do
    let entries ← parseExplicitSubdiff payload
    pure { out with explicitSubdiff := entries }
  else if tag = tagSubdiffIndex then do
    let index ← parseSubdiffIndex payload
    pure { out with subdiffIndex := some index }
  else if tag = tagMediaKeyData then do
    let keys ← parseMediaKeyData payload
    pure { out with mediaKeyData := keys }
  else if tag = tagMediaKeyVariantData then do
    let keys ← parseMediaKeyData payload
    pure { out with mediaKeyVariantData := keys }
  else if tag = tagVariantNumber then do
    let record ← parseVariantNumber payload
    pure { out with variantNumberRecord := some record }
  else if tag = tagEndOfBlock then do
    let sig ← endSignature payload
    pure { out with endOfBlock := true, endOfBlockSignature := sig }
  else pure { out with unknownRecords := out.unknownRecords ++ [(tag, record)] }

structure ParseState where
  out : Mkb
  sawTypeRecordFirst : Bool
  firstRecord : Bool

/-- The record loop. `remaining` is `bytes[cursor..]`. It stops at the end of the bytes or at one to
three bytes of padding, and a length below four is padding behind the End record or before
nothing but zeros. -/
def parseLoop (remaining : List UInt8) (st : ParseState) : Result ParseState :=
  if remaining.length < 4 then pure st
  else do
    let tag ← Outcome.index remaining 0
    let length ← Outcome.indexU24 remaining 1
    let length := length.toNat
    if length < 4 then
      if st.out.endOfBlock || remaining.all (· == 0) then pure st
      else .err (.invalidValue "MKB record length" length)
    else if _h : length > remaining.length then
      .err (.oversizedRecord "MKB" length remaining.length)
    else
      let payload ← Outcome.slice remaining 4 length
      let record ← Outcome.slice remaining 0 length
      let out ← decodeRecord tag payload record st.out
      parseLoop (remaining.drop length)
        { out
          sawTypeRecordFirst := if st.firstRecord ∧ tag = tagTypeAndVersion then true
            else st.sawTypeRecordFirst
          firstRecord := false }
termination_by remaining.length
decreasing_by
  rw [List.length_drop]
  omega

def parse (bytes : List UInt8) : Result Mkb := do
  let st ← parseLoop bytes ⟨{}, false, true⟩
  Outcome.refuseIf (st.sawTypeRecordFirst = false) .missingTypeAndVersionRecord
  pure st.out

/-- The first record with a tag: its offset and length. `rest` is `original_bytes[cursor..]`. -/
def findRecord (tag : UInt8) (cursor : Nat) (rest : List UInt8) : Result (Option (Nat × Nat)) :=
  if rest.length < 4 then pure none
  else do
    let curTag ← Outcome.index rest 0
    let length ← Outcome.indexU24 rest 1
    let length := length.toNat
    if _h : length < 4 ∨ length > rest.length then pure none
    else if curTag = tag then pure (some (cursor, length))
    else findRecord tag (cursor + length) (rest.drop length)
termination_by rest.length
decreasing_by
  rw [List.length_drop]
  omega

def findRecordExtent (originalBytes : List UInt8) (tag : UInt8) : Result (Option (Nat × Nat)) :=
  findRecord tag 0 originalBytes

def findEndOfBlockSignedPrefixLen (originalBytes : List UInt8) : Result Nat := do
  let extent ← findRecord tagEndOfBlock 0 originalBytes
  let extent ← Outcome.okOr extent .mkbSignatureMissing
  pure extent.1

/-- `AACS_Verify` of the kept signature over the bytes before the first End record. -/
def verifyEndOfBlockSignature (mkb : Mkb) (originalBytes : List UInt8) (aacsLaPub : Point) :
    Result Unit := do
  let signature ← Outcome.okOr mkb.endOfBlockSignature .mkbSignatureMissing
  let signedLen ← findEndOfBlockSignedPrefixLen originalBytes
  let signedData ← Outcome.slice originalBytes 0 signedLen
  Outcome.refuseIf (Ecdsa.verify aacsLaPub signature signedData = false) .mkbSignatureInvalid

/-- The walk over the blocks: `cursor` counts from the record's payload, and the result
says whether any signature was verified. A `u32` times 8: `checked_mul` does not fail. -/
def verifyBlocks (aacsLaPub : Point) (typeAndVersionRaw rlRecord : List UInt8) :
    List RevocationSignatureBlock → Nat → Bool → Result Bool
  | [], _, verifiedAny => pure verifiedAny
  | block :: blocks, cursor, verifiedAny => do
    let payloadLen := rlRecord.length - 4
    Outcome.refuseIf (cursor + 4 > payloadLen) (.truncated "Revocation List per-block entry count")
    let cursor := cursor + 4
    let entriesBytes := block.entriesInBlock.toNat * 8
    Outcome.refuseIf (cursor + entriesBytes > payloadLen)
      (.truncated "Revocation List block entries")
    let cursor := cursor + entriesBytes
    let verifiedAny ← match block.signature with
      | some sig => do
        let signed ← Outcome.slice rlRecord 0 (4 + cursor)
        Outcome.refuseIf (Ecdsa.verify aacsLaPub sig (typeAndVersionRaw ++ signed) = false)
          .mkbSignatureInvalid
        pure true
      | none => pure verifiedAny
    if cursor + 40 > payloadLen then pure verifiedAny
    else verifyBlocks aacsLaPub typeAndVersionRaw rlRecord blocks (cursor + 40) verifiedAny

def verifyRevocationListSignatures (mkb : Mkb) (originalBytes : List UInt8) (aacsLaPub : Point)
    (recordTag : UInt8) (blocks : List RevocationSignatureBlock) : Result Unit := do
  Outcome.refuseIf (blocks = []) .mkbSignatureMissing
  Outcome.refuseIf (mkb.typeAndVersionRaw = []) .mkbSignatureMissing
  let extent ← findRecordExtent originalBytes recordTag
  let extent ← Outcome.okOr extent .mkbSignatureMissing
  let rlRecord ← Outcome.slice originalBytes extent.1 (extent.1 + extent.2)
  let payload ← Outcome.sliceFrom rlRecord 4
  Outcome.refuseIf (payload.length < 4) (.truncated "Revocation List signed payload")
  let verifiedAny ← verifyBlocks aacsLaPub mkb.typeAndVersionRaw rlRecord blocks 4 false
  Outcome.refuseIf (verifiedAny = false) .mkbSignatureMissing

def verifyHostRevocationList (mkb : Mkb) (originalBytes : List UInt8) (aacsLaPub : Point) :
    Result Unit :=
  mkb.verifyRevocationListSignatures originalBytes aacsLaPub tagHostRevocationList
    mkb.hostRevocationBlocks

def verifyDriveRevocationList (mkb : Mkb) (originalBytes : List UInt8) (aacsLaPub : Point) :
    Result Unit :=
  mkb.verifyRevocationListSignatures originalBytes aacsLaPub tagDriveRevocationList
    mkb.driveRevocationBlocks

end Mkb
