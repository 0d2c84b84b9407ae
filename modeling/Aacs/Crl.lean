import Aacs.ContentCertificate

/-!
# The Content Revocation List

A header and segments, each with its size, a set of eight-byte revocation
records and a signature over everything before it. Three records in a row can
make one item; records of a form not known are kept as they are.
-/

structure ManagedCopyServerCertificateId where
  bytes : Bytes 6
  deriving DecidableEq

inductive RecordableMediaType where
  | bdRecordable
  | hdDvdRecordable
  | dvdRecordable
  | plusRecordable
  | reserved (v : UInt8)
  deriving DecidableEq

namespace RecordableMediaType

def fromU3 (v : UInt8) : RecordableMediaType :=
  if v &&& 0x07 = 0 then .bdRecordable
  else if v &&& 0x07 = 1 then .hdDvdRecordable
  else if v &&& 0x07 = 2 then .dvdRecordable
  else if v &&& 0x07 = 3 then .plusRecordable
  else .reserved (v &&& 0x07)

def toU3 : RecordableMediaType → UInt8
  | .bdRecordable => 0
  | .hdDvdRecordable => 1
  | .dvdRecordable => 2
  | .plusRecordable => 3
  | .reserved v => v &&& 0x07

end RecordableMediaType

structure RecordableMediaRevocation where
  iccid : Bool
  mediaType : RecordableMediaType
  contentCertificateId : ContentCertificateId
  mediaId : Bytes 16
  deriving DecidableEq

inductive RevocationRecord where
  | contentCertificateId (range : UInt16) (id : ContentCertificateId)
  | managedCopyServerCertificateId (range : UInt16) (id : ManagedCopyServerCertificateId)
  | recordableMedia (rmrr : RecordableMediaRevocation)
  | unknown (recordType : UInt8) (bytes : Bytes 8)
  deriving DecidableEq

structure CrlSegment where
  segmentSize : UInt32
  records : List RevocationRecord
  signature : Ecdsa.Signature
  deriving DecidableEq

structure ContentRevocationList where
  listType : UInt8
  reservedNibble : UInt8
  listVersion : UInt16
  numberOfSegments : UInt8
  segments : List CrlSegment
  deriving DecidableEq

namespace Crl

/-- Forty-eight bits: `saturating_add` of a 16-bit range does not saturate. -/
def idInRange (query start : Bytes 6) (range : UInt16) : Bool :=
  let q := beNat query.toList
  let s := beNat start.toList
  q ≥ s && q ≤ s + range.toNat

end Crl

namespace RevocationRecord

def revokesContentCertificateId (r : RevocationRecord) (query : ContentCertificateId) : Bool :=
  match r with
  | .contentCertificateId range id => Crl.idInRange query.bytes id.bytes range
  | .recordableMedia rmrr => if !rmrr.iccid then rmrr.contentCertificateId = query else false
  | _ => false

def revokesManagedCopyServerId (r : RevocationRecord)
    (query : ManagedCopyServerCertificateId) : Bool :=
  match r with
  | .managedCopyServerCertificateId range id => Crl.idInRange query.bytes id.bytes range
  | _ => false

end RevocationRecord

namespace Crl

def recordTypeContentCertificateId : UInt8 := 0x0
def recordTypeManagedCopyServerId : UInt8 := 0x1
def recordTypeRmrrPart1 : UInt8 := 0x2
def recordTypeRmrrPart2 : UInt8 := 0x3
def recordTypeRmrrPart3 : UInt8 := 0x4

/-- The four high bits. -/
def recordType (b : UInt8) : UInt8 := (b >>> 4) &&& 0x0F

def decodeRangeAndId (slot : Bytes 8) : UInt16 × Bytes 6 :=
  (u16FromBe (slot.get 0 &&& 0x0F) (slot.get 1), slot.slice 2 6)

/-- Three records as one. The second byte of the media id is split over the low nibbles of
the second and the third record. -/
def decodeRmrr (rec1 rec2 rec3 : Bytes 8) : RecordableMediaRevocation where
  iccid := rec1.get 0 &&& 0x08 ≠ 0
  mediaType := .fromU3 (rec1.get 0 &&& 0x07)
  contentCertificateId := ⟨rec1.slice 1 6⟩
  mediaId := ⟨[rec1.get 7, ((rec2.get 0 &&& 0x0F) <<< 4) ||| (rec3.get 0 &&& 0x0F)] ++
    (rec2.slice 1 7).toList ++ (rec3.slice 1 7).toList, by simp⟩

def encodeRmrr (rmrr : RecordableMediaRevocation) : List UInt8 :=
  [(recordTypeRmrrPart1 <<< 4) ||| (if rmrr.iccid then 0x08 else 0x00) |||
    (rmrr.mediaType.toU3 &&& 0x07)] ++
    rmrr.contentCertificateId.bytes.toList ++ [rmrr.mediaId.get 0] ++
    [(recordTypeRmrrPart2 <<< 4) ||| ((rmrr.mediaId.get 1 >>> 4) &&& 0x0F)] ++
      (rmrr.mediaId.slice 2 7).toList ++
    [(recordTypeRmrrPart3 <<< 4) ||| (rmrr.mediaId.get 1 &&& 0x0F)] ++
      (rmrr.mediaId.slice 9 7).toList

/-- The two id records share their form. -/
def encodeRangeAndId (type : UInt8) (range : UInt16) (id : Bytes 6) : List UInt8 :=
  [(type <<< 4) ||| ((range >>> 8).toUInt8 &&& 0x0F), (range &&& 0xFF).toUInt8] ++ id.toList

def encodeRevocationRecord : RevocationRecord → List UInt8
  | .contentCertificateId range id => encodeRangeAndId recordTypeContentCertificateId range id.bytes
  | .managedCopyServerCertificateId range id => encodeRangeAndId recordTypeManagedCopyServerId
    range id.bytes
  | .recordableMedia rmrr => encodeRmrr rmrr
  | .unknown _ bytes => bytes.toList

/-- `bytes[i] >> 4 & 0x0F == type`, after the test that the bytes are there. -/
def partIs (have3 : Bool) (rest : List UInt8) (i : Nat) (type : UInt8) : Result Bool :=
  if have3 then do
    let b ← Outcome.index rest i
    pure (recordType b = type)
  else pure false

/-- The record loop. `rest` is `bytes[i..]`. -/
def recordLoop (rest : List UInt8) : Result (List RevocationRecord) :=
  if _h : rest.length = 0 then pure []
  else do
    let slot ← Outcome.readArray 8 rest 0
    let type := recordType (slot.get 0)
    if type = recordTypeContentCertificateId then
      let records ← recordLoop (rest.drop 8)
      pure (.contentCertificateId (decodeRangeAndId slot).1 ⟨(decodeRangeAndId slot).2⟩ :: records)
    else if type = recordTypeManagedCopyServerId then
      let records ← recordLoop (rest.drop 8)
      pure (.managedCopyServerCertificateId (decodeRangeAndId slot).1
        ⟨(decodeRangeAndId slot).2⟩ :: records)
    else if type = recordTypeRmrrPart1 then
      let have3 := decide (3 * 8 ≤ rest.length)
      let part2Ok ← partIs have3 rest 8 recordTypeRmrrPart2
      let part3Ok ← partIs have3 rest 16 recordTypeRmrrPart3
      if have3 && part2Ok && part3Ok then
        let rec1 ← Outcome.readArray 8 rest 0
        let rec2 ← Outcome.readArray 8 rest 8
        let rec3 ← Outcome.readArray 8 rest 16
        let records ← recordLoop (rest.drop 24)
        pure (.recordableMedia (decodeRmrr rec1 rec2 rec3) :: records)
      else
        let records ← recordLoop (rest.drop 8)
        pure (.unknown type slot :: records)
    else
      let records ← recordLoop (rest.drop 8)
      pure (.unknown type slot :: records)
termination_by rest.length
decreasing_by
  all_goals
    rw [List.length_drop]
    omega

def parseRevocationRecordSet (bytes : List UInt8) : Result (List RevocationRecord) := do
  Outcome.refuseIf (bytes.length % 8 ≠ 0)
    (.invalidValue "CRL Revocation Record Set length (must be a multiple of 8)" bytes.length)
  recordLoop bytes

end Crl

namespace CrlSegment

/-- The size and the records, without the signature. -/
def unsignedBytes (s : CrlSegment) : List UInt8 :=
  u32ToBe s.segmentSize ++ s.records.flatMap Crl.encodeRevocationRecord

def bytes (s : CrlSegment) : List UInt8 := s.unsignedBytes ++ s.signature.toList

end CrlSegment

namespace ContentRevocationList

open Crl

def segment1SizeMax : Nat := 128 * 1024 - 4

/-- The segments `segmentIndex ..` and what follows them; `rest` is `bytes[cursor..]`. -/
def segmentLoop : Nat → Nat → Nat → List UInt8 → Result (List CrlSegment × List UInt8)
  | 0, _, _, rest => pure ([], rest)
  | n + 1, segmentIndex, cursor, rest => do
    Outcome.refuseIf (rest.length < 4) (.truncated "CRL Segment Size")
    let segmentSize ← Outcome.indexU32 rest 0
    Outcome.refuseIf (segmentIndex = 0 ∧ segmentSize.toNat > segment1SizeMax)
      (.invalidValue "CRL Segment #1 Segment Size (must be ≤ 128 KiB − CRL Header)"
        segmentSize.toNat)
    Outcome.refuseIf (segmentSize.toNat < 44)
      (.invalidValue "CRL Segment Size (must accommodate 4-byte size field + 40-byte signature)"
        segmentSize.toNat)
    Outcome.refuseIf (cursor + segmentSize.toNat > cursor + rest.length)
      (.oversizedRecord "CRL Segment" (cursor + segmentSize.toNat) (cursor + rest.length))
    let recordSetBytes ← Outcome.slice rest 4 (segmentSize.toNat - 40)
    let records ← parseRevocationRecordSet recordSetBytes
    let signature ← Outcome.readArray 40 rest (segmentSize.toNat - 40)
    let more ← segmentLoop n (segmentIndex + 1) (cursor + segmentSize.toNat)
      (rest.drop segmentSize.toNat)
    pure (⟨segmentSize, records, signature⟩ :: more.1, more.2)

/-- Only zero bytes may follow; `i` counts them. -/
def checkPadding : List UInt8 → Nat → Result Unit
  | [], _ => pure ()
  | b :: rest, i => do
    Outcome.refuseIf (b ≠ 0)
      (.invalidValue "CRL trailing byte (only 0x00 padding permitted)" (b.toNat ||| (i <<< 8)))
    checkPadding rest (i + 1)

def parse (bytes : List UInt8) : Result ContentRevocationList := do
  Outcome.refuseIf (bytes.length < 4) (.truncated "CRL Header")
  let headerByte ← Outcome.index bytes 0
  let listVersion ← Outcome.indexU16 bytes 1
  let numberOfSegments ← Outcome.index bytes 3
  Outcome.refuseIf (numberOfSegments = 0) (.invalidValue "CRL Number of Segments (must be ≥ 1)" 0)
  let segments ← segmentLoop numberOfSegments.toNat 0 4 (bytes.drop 4)
  checkPadding segments.2 0
  pure { listType := (headerByte >>> 4) &&& 0x0F, reservedNibble := headerByte &&& 0x0F,
         listVersion, numberOfSegments, segments := segments.1 }

def headerBytes (c : ContentRevocationList) : List UInt8 :=
  [(c.listType <<< 4) ||| (c.reservedNibble &&& 0x0F)] ++ u16ToBe c.listVersion ++
    [c.numberOfSegments]

def toBytes (c : ContentRevocationList) : List UInt8 :=
  c.headerBytes ++ c.segments.flatMap CrlSegment.bytes

/-- The segments before `k` with their signatures, and segment `k` without. -/
def signedSegments : List CrlSegment → Nat → List UInt8
  | [], _ => []
  | seg :: _, 0 => seg.unsignedBytes
  | seg :: segs, k + 1 => seg.bytes ++ signedSegments segs k

def signedRangeForSegment (c : ContentRevocationList) (k : Nat) : Option (List UInt8) :=
  if k ≥ c.segments.length then none else some (c.headerBytes ++ signedSegments c.segments k)

def verifySegmentSignature (c : ContentRevocationList) (k : Nat) (aacsLaPub : Point) :
    Result Unit := do
  let payload ← Outcome.okOr (c.signedRangeForSegment k) (.invalidValue "CRL segment index" k)
  let seg ← Outcome.expect c.segments[k]?
  Outcome.refuseIf (Ecdsa.verify aacsLaPub seg.signature payload = false) .mkbSignatureInvalid

def verifyLastSegmentSignature (c : ContentRevocationList) (aacsLaPub : Point) : Result Unit := do
  Outcome.refuseIf (c.segments = []) (.invalidValue "CRL Number of Segments (must be ≥ 1)" 0)
  c.verifySegmentSignature (c.segments.length - 1) aacsLaPub

def verifyAllSegments (c : ContentRevocationList) (aacsLaPub : Point) : Result Unit :=
  (List.range c.segments.length).forM fun k => c.verifySegmentSignature k aacsLaPub

def records (c : ContentRevocationList) : List RevocationRecord :=
  c.segments.flatMap CrlSegment.records

def isContentCertificateIdRevoked (c : ContentRevocationList)
    (query : ContentCertificateId) : Bool :=
  c.records.any (·.revokesContentCertificateId query)

def isManagedCopyServerIdRevoked (c : ContentRevocationList)
    (query : ManagedCopyServerCertificateId) : Bool :=
  c.records.any (·.revokesManagedCopyServerId query)

def recordableMediaRevoked (c : ContentRevocationList) (mediaType : RecordableMediaType)
    (mediaId : Bytes 16) (contentCertificateId : ContentCertificateId) : Bool :=
  c.records.any fun r =>
    match r with
    | .recordableMedia rmrr =>
      if rmrr.mediaType ≠ mediaType then false
      else if rmrr.mediaId ≠ mediaId then false
      else if rmrr.iccid then true
      else rmrr.contentCertificateId = contentCertificateId
    | _ => false

end ContentRevocationList
