import Aacs.Ecdsa
import Aacs.Error

/-!
# The Content Certificate

A signed certificate with a fixed header, a section whose length the header
gives, a list of digests and a signature. The signature is checked over the
certificate written back from its fields.
-/

/-- The applicant id and the content sequence number. -/
structure ContentCertificateId where
  bytes : Bytes 6
  deriving DecidableEq

namespace ContentCertificateId

def fromComponents (applicantId : Bytes 2) (contentSequenceNumber : Bytes 4) :
    ContentCertificateId :=
  ⟨applicantId.append contentSequenceNumber⟩

def applicantId (id : ContentCertificateId) : Bytes 2 := id.bytes.slice 0 2

def contentSequenceNumber (id : ContentCertificateId) : Bytes 4 := id.bytes.slice 2 4

end ContentCertificateId

/-- Six bits of server id, fifteen of timestamp and eleven of sequence number. -/
structure ContentSequenceNumber where
  ccssId : UInt8
  timestamp : UInt16
  sequenceNumber : UInt16
  deriving DecidableEq

namespace ContentSequenceNumber

def fromBeBytes (b : Bytes 4) : ContentSequenceNumber :=
  let ccssId := b.get 0 >>> 2
  let seq1 := ((b.get 0 &&& 0x03).toUInt16 <<< 2) ||| ((b.get 1).toUInt16 >>> 6)
  let timestamp := ((b.get 1 &&& 0x3F).toUInt16 <<< 9) ||| ((b.get 2).toUInt16 <<< 1) |||
    ((b.get 3).toUInt16 >>> 7)
  let seq2 := (b.get 3 &&& 0x7F).toUInt16
  ⟨ccssId, timestamp, (seq1 <<< 7) ||| seq2⟩

def toBeBytes (n : ContentSequenceNumber) : Bytes 4 :=
  let ccssId := n.ccssId &&& 0x3F
  let seq1 := (n.sequenceNumber >>> 7) &&& 0x0F
  let seq2 := n.sequenceNumber &&& 0x7F
  let timestamp := n.timestamp &&& 0x7FFF
  let b0 := (ccssId <<< 2) ||| ((seq1 >>> 2).toUInt8 &&& 0x03)
  let b1 := ((seq1 &&& 0x03).toUInt8 <<< 6) ||| ((timestamp >>> 9).toUInt8 &&& 0x3F)
  let b2 := ((timestamp >>> 1) &&& 0xFF).toUInt8
  let b3 := ((timestamp &&& 0x01).toUInt8 <<< 7) ||| (seq2.toUInt8 &&& 0x7F)
  ⟨[b0, b1, b2, b3], rfl⟩

end ContentSequenceNumber

/-- The section of a disc certificate. -/
structure BdFormatSpecificSection where
  hashValueOfMcManifestFile : Bytes 20
  hashValueOfBdjRootCert : Bytes 20
  hashValueOfCpsUnitUsageFiles : List (Bytes 20)
  deriving DecidableEq

namespace BdFormatSpecificSection

def parse (bytes : List UInt8) : Result BdFormatSpecificSection := do
  Outcome.refuseIf (bytes.length < 42) (.truncated "Content Certificate BD Format-Specific Section")
  let mc ← Outcome.readArray 20 bytes 0
  let bdj ← Outcome.readArray 20 bytes 20
  let numOfCpsUnit ← Outcome.indexU16 bytes 40
  let required := 42 + numOfCpsUnit.toNat * 20
  Outcome.refuseIf (bytes.length < required)
    (.oversizedRecord "Content Certificate BD Format-Specific Section" required bytes.length)
  let usage ← Outcome.readArrays 20 numOfCpsUnit.toNat bytes 42
  pure ⟨mc, bdj, usage⟩

def toBytes (s : BdFormatSpecificSection) : List UInt8 :=
  s.hashValueOfMcManifestFile.toList ++ s.hashValueOfBdjRootCert.toList ++
    u16ToBe (UInt16.ofNat s.hashValueOfCpsUnitUsageFiles.length) ++
    s.hashValueOfCpsUnitUsageFiles.flatMap Bytes.toList

def numOfCpsUnit (s : BdFormatSpecificSection) : UInt16 :=
  UInt16.ofNat s.hashValueOfCpsUnitUsageFiles.length

end BdFormatSpecificSection

structure ContentCertificate where
  certificateType : UInt8
  bee : Bool
  totalNumberOfHashUnits : UInt32
  totalNumberOfLayers : UInt8
  layerNumber : UInt8
  numberOfHashUnits : UInt32
  numberOfDigests : UInt16
  applicantId : Bytes 2
  contentSequenceNumber : Bytes 4
  minimumCrlVersion : UInt16
  formatSpecificSection : List UInt8
  contentHashTableDigests : List (Bytes 8)
  signatureData : Ecdsa.Signature
  deriving DecidableEq

namespace ContentCertificate

def certificateTypeFirstGen : UInt8 := 0

/-- The section, which a length of zero leaves empty. -/
def readFormatSpecificSection (bytes : List UInt8) (length : Nat) : Result (List UInt8) :=
  if length > 0 then Outcome.slice bytes 26 (26 + length) else pure []

/-- The sizes added and multiplied are at most `2 ^ 16` times eight, so `checked_add` and
`checked_mul` do not fail. A section of length zero leaves two bytes of alignment. -/
def parse (bytes : List UInt8) : Result ContentCertificate := do
  Outcome.refuseIf (bytes.length < 26) (.truncated "Content Certificate header")
  let certificateType ← Outcome.index bytes 0
  Outcome.refuseIf (certificateType ≠ certificateTypeFirstGen)
    (.invalidValue "Content Certificate Type" certificateType.toNat)
  let flags ← Outcome.index bytes 1
  let totalNumberOfHashUnits ← Outcome.indexU32 bytes 2
  let totalNumberOfLayers ← Outcome.index bytes 6
  let layerNumber ← Outcome.index bytes 7
  let numberOfHashUnits ← Outcome.indexU32 bytes 8
  let numberOfDigests ← Outcome.indexU16 bytes 12
  let applicantId ← Outcome.readArray 2 bytes 14
  let contentSequenceNumber ← Outcome.readArray 4 bytes 16
  let minimumCrlVersion ← Outcome.indexU16 bytes 20
  let lengthFormatSpecificSection ← Outcome.indexU16 bytes 24
  let lengthFormatSpecificSection := lengthFormatSpecificSection.toNat
  Outcome.refuseIf (lengthFormatSpecificSection ≠ 0 ∧ (lengthFormatSpecificSection + 2) % 4 ≠ 0)
    (.invalidValue "Content Certificate Length_Format_Specific_Section (must be 0 or ≡ 2 mod 4)"
      lengthFormatSpecificSection)
  let formatSpecificSectionLen :=
  if lengthFormatSpecificSection = 0 then 2 else lengthFormatSpecificSection
  let digestsOffset := 26 + formatSpecificSectionLen
  let signatureOffset := digestsOffset + numberOfDigests.toNat * 8
  let total := signatureOffset + 40
  Outcome.refuseIf (bytes.length < total)
    (.oversizedRecord "Content Certificate" total bytes.length)
  let formatSpecificSection ← readFormatSpecificSection bytes lengthFormatSpecificSection
  let contentHashTableDigests ← Outcome.readArrays 8 numberOfDigests.toNat bytes digestsOffset
  let signatureData ← Outcome.readArray 40 bytes signatureOffset
  pure { certificateType, bee := flags &&& 0x80 ≠ 0, totalNumberOfHashUnits, totalNumberOfLayers,
         layerNumber, numberOfHashUnits, numberOfDigests, applicantId, contentSequenceNumber,
         minimumCrlVersion, formatSpecificSection, contentHashTableDigests, signatureData }

def contentCertificateId (c : ContentCertificate) : ContentCertificateId :=
  .fromComponents c.applicantId c.contentSequenceNumber

def contentSequenceNumberDecoded (c : ContentCertificate) : ContentSequenceNumber :=
  .fromBeBytes c.contentSequenceNumber

def bdFormatSpecificSection (c : ContentCertificate) : Result BdFormatSpecificSection :=
  BdFormatSpecificSection.parse c.formatSpecificSection

def toBytes (c : ContentCertificate) : List UInt8 :=
  [c.certificateType, if c.bee then 0x80 else 0x00] ++ u32ToBe c.totalNumberOfHashUnits ++
    [c.totalNumberOfLayers, c.layerNumber] ++ u32ToBe c.numberOfHashUnits ++
      u16ToBe c.numberOfDigests ++
    c.applicantId.toList ++ c.contentSequenceNumber.toList ++
      u16ToBe c.minimumCrlVersion ++ [0, 0] ++
    u16ToBe (UInt16.ofNat c.formatSpecificSection.length) ++
    (if c.formatSpecificSection = [] then [0, 0] else c.formatSpecificSection) ++
    c.contentHashTableDigests.flatMap Bytes.toList ++ c.signatureData.toList

def signedRangeBytes (c : ContentCertificate) : List UInt8 := c.toBytes.take (c.toBytes.length - 40)

def verifySignature (c : ContentCertificate) (aacsCcPub : Point) : Result Unit :=
  Outcome.refuseIf (Ecdsa.verify aacsCcPub c.signatureData c.signedRangeBytes = false)
    .mkbSignatureInvalid

def contentHashTableDigest (chtBytes : List UInt8) : Bytes 8 := (Sha1.sha1 chtBytes).slice 12 8

def verifyContentHashTableDigest (c : ContentCertificate) (digestIndex : Nat)
    (chtBytes : List UInt8) :
    Result Unit := do
  let stored ← Outcome.okOr c.contentHashTableDigests[digestIndex]?
    (.invalidValue "Content Certificate digest index" digestIndex)
  Outcome.refuseIf (contentHashTableDigest chtBytes ≠ stored) (.contentHashMismatch digestIndex)

/-- The certificate on disc: its fields, and the bytes that no field keeps. -/
def layout (c : ContentCertificate) (flags : UInt8) (reserved alignment : Bytes 2) : List UInt8 :=
  [c.certificateType, flags] ++ u32ToBe c.totalNumberOfHashUnits ++
    [c.totalNumberOfLayers, c.layerNumber] ++ u32ToBe c.numberOfHashUnits ++
      u16ToBe c.numberOfDigests ++
    c.applicantId.toList ++ c.contentSequenceNumber.toList ++ u16ToBe c.minimumCrlVersion ++
      reserved.toList ++
    u16ToBe (UInt16.ofNat c.formatSpecificSection.length) ++
    (if c.formatSpecificSection = [] then alignment.toList else c.formatSpecificSection) ++
    c.contentHashTableDigests.flatMap Bytes.toList ++ c.signatureData.toList

theorem toBytes_eq_layout (c : ContentCertificate) :
    c.toBytes = c.layout (if c.bee then 0x80 else 0x00) (Bytes.zero 2) (Bytes.zero 2) := rfl

/-- The bytes between the header and the digests. -/
theorem readFormatSpecificSection_take {bytes fss : List UInt8} {n : Nat}
    (h : readFormatSpecificSection bytes n = .ok fss)
    (hlen : 26 + (if n = 0 then 2 else n) ≤ bytes.length) :
    fss.length = n ∧ ∃ alignment : Bytes 2,
      (bytes.drop 26).take (if n = 0 then 2 else n) = if fss =
      [] then alignment.toList else fss := by
  rw [readFormatSpecificSection] at h
  by_cases hn : n = 0
  · rw [if_pos hn] at hlen
    rw [if_neg (by omega)] at h
    obtain rfl := Outcome.ok.inj h
    refine ⟨hn.symm, ⟨(bytes.drop 26).take 2, by simp; omega⟩, ?_⟩
    rw [if_pos hn, if_pos rfl]
  · rw [if_neg hn] at hlen
    rw [if_pos (by omega), Outcome.slice_eq_ok, Nat.add_sub_cancel_left] at h
    have hfss : fss.length = n := by
      rw [h.2.2, List.length_take, List.length_drop]
      omega
    have hne : fss ≠ [] := fun hnil => hn (by rw [← hfss, hnil, List.length_nil])
    refine ⟨hfss, Bytes.zero 2, ?_⟩
    rw [if_neg hn, if_neg hne, h.2.2]

/-- An accepted byte string is the layout of the certificate read, and a rest. -/
theorem parse_layout {bytes : List UInt8} {c : ContentCertificate} (h : parse bytes = .ok c) :
    ∃ (flags : UInt8) (reserved alignment : Bytes 2) (rest : List UInt8),
      c.bee = (flags &&& 0x80 ≠ 0 : Bool) ∧ c.contentHashTableDigests.length =
        c.numberOfDigests.toNat ∧
      c.formatSpecificSection.length < 2 ^ 16 ∧ bytes = c.layout flags reserved alignment ++ rest :=
  by
  simp only [parse, Outcome.bind_eq_ok, Outcome.refuseIf_eq_ok, Outcome.index_eq_ok,
    Outcome.indexU32_eq_ok, Outcome.indexU16_eq_ok, Outcome.readArray_eq_ok, exists_const] at h
  obtain ⟨hlen, type, htype, -, flags, hflags, units, hunits, layers, hlayers, layer,
    hlayer, layerUnits, hlayerUnits, digests, hdigests, applicant, ⟨-, happlicant⟩, sequence,
    ⟨-, hsequence⟩, crl, hcrl, L, hL, -,
    htotal, fss, hfss, hashes, hhashes, sig, ⟨-, hsig⟩, hc⟩ := h
  obtain rfl := Outcome.ok.inj hc
  rw [Nat.not_lt] at hlen htotal
  obtain ⟨hfssLen, alignment, hsection⟩ := readFormatSpecificSection_take hfss (by omega)
  rw [Outcome.readArrays_eq_ok (by omega)] at hhashes
  have hlength : UInt16.ofNat fss.length = L := by rw [hfssLen, UInt16.ofNat_toNat]
  refine ⟨flags, ⟨(bytes.drop 22).take 2, by simp; omega⟩, alignment, bytes.drop (26 +
    (if L.toNat = 0 then 2 else L.toNat) + digests.toNat * 8 +
      40), rfl, hhashes.1, by rw [hfssLen]; exact L.toNat_lt, ?_⟩
  have hheader : bytes.take 26 = [type, flags] ++ u32ToBe units ++ [layers, layer] ++
    u32ToBe layerUnits ++
      u16ToBe digests ++ applicant.toList ++ sequence.toList ++ u16ToBe crl ++
        (bytes.drop 22).take 2 ++ u16ToBe L := by
    rw [show 26 = 1 + 1 + 4 + 1 + 1 + 4 + 2 + 2 + 4 + 2 + 2 + 2 by rfl]
    have htype' : bytes.take 1 = [type] := Outcome.drop_take_one htype
    simp only [List.take_add]
    simp only [Nat.reduceAdd, htype', Outcome.drop_take_one hflags, hunits,
      Outcome.drop_take_one hlayers, Outcome.drop_take_one hlayer, hlayerUnits, hdigests,
      ← happlicant, ← hsequence, hcrl, hL, List.append_assoc, List.cons_append, List.nil_append]
  have htake : bytes.take (26 + (if L.toNat = 0 then 2 else L.toNat) + digests.toNat * 8 + 40) =
      bytes.take 26 ++ (if fss = [] then alignment.toList else fss) ++
        hashes.flatMap Bytes.toList ++ sig.toList := by
    rw [List.take_add, List.take_add, List.take_add, hsection, hhashes.2, hsig]
  rw [layout, hlength]
  calc bytes = bytes.take (26 + (if L.toNat = 0 then 2 else L.toNat) + digests.toNat * 8 + 40) ++
    _ :=
        (List.take_append_drop _ _).symm
    _ = _ := by rw [htake, hheader]

/-- The length of the certificate at the head of a byte string. -/
def totalLength (bytes : List UInt8) : Nat :=
  let n := beNat ((bytes.drop 24).take 2)
  26 + (if n = 0 then 2 else n) + beNat ((bytes.drop 12).take 2) * 8 + 40

/-- The bytes that no field keeps are clear: the low bits of the flags, the reserved bytes,
and the alignment bytes in place of an empty section. -/
structure FreeBytesClear (bytes : List UInt8) : Prop where
  flags : (bytes.drop 1).headD 0 &&& 0x7F = 0
  reserved : (bytes.drop 22).take 2 = [0, 0]
  alignment : (bytes.drop 24).take 2 = [0, 0] → (bytes.drop 26).take 2 = [0, 0]

theorem flags_eq_iff (flags : UInt8) :
    (if (flags &&& 0x80 ≠ 0 : Bool) then 0x80 else 0x00) = flags ↔ flags &&& 0x7F = 0 :=
  byte_cases (p := fun flags => (if (flags &&& 0x80 ≠ 0 : Bool) then 0x80 else 0x00) = flags ↔
    flags &&& 0x7F = 0) (by decide +kernel) flags

section
variable (c : ContentCertificate) (flags : UInt8) (reserved alignment : Bytes 2) (rest : List UInt8)

theorem layout_inj {flags' : UInt8} {reserved' alignment' : Bytes 2} :
    c.layout flags reserved alignment = c.layout flags' reserved' alignment' ↔
      flags = flags' ∧ reserved = reserved' ∧
        (c.formatSpecificSection = [] → alignment = alignment') := by
  have hr {as bs : List UInt8} : reserved.toList ++ as = reserved'.toList ++ bs ↔ reserved =
      reserved' ∧ as = bs := by
    rw [List.append_eq_append_iff_of_size_eq_left (by simp), Bytes.ext_iff]
  by_cases hfss : c.formatSpecificSection = []
  · simp [layout, hfss, hr, Bytes.ext_iff]
  · simp [layout, hfss, hr]

theorem length_layout : (c.layout flags reserved alignment).length =
    26 + (if c.formatSpecificSection.length = 0 then 2 else c.formatSpecificSection.length) +
      c.contentHashTableDigests.length * 8 + 40 := by
  have hdigests : (c.contentHashTableDigests.flatMap Bytes.toList).length =
      c.contentHashTableDigests.length * 8 := by
    simp [List.length_flatMap]
  by_cases hfss : c.formatSpecificSection = []
  · simp [layout, hfss, hdigests]
    omega
  · simp [layout, hfss, hdigests]
    omega

theorem layout_digests :
    ((c.layout flags reserved alignment ++ rest).drop 12).take 2 = u16ToBe c.numberOfDigests := rfl

/-- The fields before the reserved bytes. -/
def front : List UInt8 :=
  [c.certificateType, flags] ++ u32ToBe c.totalNumberOfHashUnits ++
    [c.totalNumberOfLayers, c.layerNumber] ++
    u32ToBe c.numberOfHashUnits ++ u16ToBe c.numberOfDigests ++ c.applicantId.toList ++
    c.contentSequenceNumber.toList ++ u16ToBe c.minimumCrlVersion

theorem length_front : (c.front flags).length = 22 := by simp [front]

/-- The bytes from the reserved ones on. -/
theorem drop_layout : (c.layout flags reserved alignment ++ rest).drop 22 =
    reserved.toList ++ (u16ToBe (UInt16.ofNat c.formatSpecificSection.length) ++
      ((if c.formatSpecificSection = [] then alignment.toList else c.formatSpecificSection) ++
        (c.contentHashTableDigests.flatMap Bytes.toList ++ (c.signatureData.toList ++ rest)))) := by
  have hsplit : c.layout flags reserved alignment ++ rest = c.front flags ++
      (reserved.toList ++ (u16ToBe (UInt16.ofNat c.formatSpecificSection.length) ++
        ((if c.formatSpecificSection = [] then alignment.toList else c.formatSpecificSection) ++
          (c.contentHashTableDigests.flatMap Bytes.toList ++
            (c.signatureData.toList ++ rest))))) := by
    simp only [layout, front, List.append_assoc]
  rw [hsplit]
  exact List.drop_left' (length_front c flags)

theorem layout_length : ((c.layout flags reserved alignment ++ rest).drop 24).take 2 =
    u16ToBe (UInt16.ofNat c.formatSpecificSection.length) := by
  rw [← List.drop_drop (i := 2) (j := 22), drop_layout, List.drop_left' reserved.length_toList]
  exact List.take_left' (length_u16ToBe _)

theorem layout_alignment (h : c.formatSpecificSection = []) :
    ((c.layout flags reserved alignment ++ rest).drop 26).take 2 = alignment.toList := by
  rw [← List.drop_drop (i := 4) (j := 22), drop_layout, ← List.append_assoc,
    List.drop_left' (by simp), if_pos h]
  exact List.take_left' alignment.length_toList

end

/-- The certificate written back is the one on disc, and so is what its signature is checked
over, exactly when the bytes that no field keeps are clear. -/
theorem toBytes_eq_iff (bytes : List UInt8) (c : ContentCertificate) (h : parse bytes = .ok c) :
    (c.toBytes = bytes.take (totalLength bytes) ∧ c.signedRangeBytes =
      bytes.take (totalLength bytes - 40)) ↔ FreeBytesClear bytes := by
  obtain ⟨flags, reserved, alignment, rest, hbee, hdigests, hsection, rfl⟩ := parse_layout h
  have hzero : (Bytes.zero 2).toList = [0, 0] := rfl
  have hcount : beNat (u16ToBe (UInt16.ofNat c.formatSpecificSection.length)) =
      c.formatSpecificSection.length := by
    rw [beNat_u16ToBe]
    exact UInt16.toNat_ofNat_of_lt' hsection
  have hlen : totalLength (c.layout flags reserved alignment ++ rest) =
      (c.layout flags reserved alignment).length := by
    rw [totalLength, layout_length, layout_digests, hcount, beNat_u16ToBe, length_layout, hdigests]
  have htake : (c.layout flags reserved alignment ++ rest).take
    (totalLength (c.layout flags reserved alignment ++ rest)) =
      c.layout flags reserved alignment := List.take_left' hlen.symm
  have hsigned (heq : c.toBytes = c.layout flags reserved alignment) : c.signedRangeBytes =
      (c.layout flags reserved alignment ++ rest).take
        (totalLength (c.layout flags reserved alignment ++ rest) - 40) := by
    rw [signedRangeBytes, heq, hlen, List.take_append_of_le_length (Nat.sub_le _ _)]
  rw [htake, and_iff_left_of_imp hsigned, toBytes_eq_layout, layout_inj, hbee, flags_eq_iff]
  constructor
  · rintro ⟨hflags, rfl, halign⟩
    refine ⟨hflags, ?_, fun hL => ?_⟩
    · rw [drop_layout]
      rfl
    · rw [layout_length] at hL
      have hnil : c.formatSpecificSection = [] := by
        rw [← List.length_eq_zero_iff, ← hcount, hL]
        rfl
      rw [layout_alignment _ _ _ _ _ hnil, ← halign hnil, hzero]
  · intro hclear
    refine ⟨hclear.flags, ?_, fun hnil => ?_⟩
    · have hreserved := hclear.reserved
      rw [drop_layout, List.take_left' reserved.length_toList] at hreserved
      rw [Bytes.ext_iff, hreserved, hzero]
    · have halign := hclear.alignment (by rw [layout_length, hnil]; rfl)
      rw [layout_alignment _ _ _ _ _ hnil] at halign
      rw [Bytes.ext_iff, halign, hzero]

/-- A flag byte with its lowest bit set, and zeros: the byte is not written back. -/
theorem low_flag_lost : ∃ (bytes : List UInt8) (c : ContentCertificate), parse bytes = .ok c ∧
    ¬(c.toBytes = bytes.take (totalLength bytes) ∧ c.signedRangeBytes =
      bytes.take (totalLength bytes - 40)) := by
  refine ⟨0 :: 1 :: List.replicate 66 0,
    ⟨0, false, 0, 0, 0, 0, 0, Bytes.zero 2, Bytes.zero 4, 0, [], [], Bytes.zero 40⟩, ?_⟩
  decide

/-- A certificate with bus encryption, a section of six bytes and two digests. -/
def twoDigests : ContentCertificate :=
  ⟨0, true, 2, 1, 1, 7, 2, Bytes.ofNat 2 0x0304, Bytes.ofNat 4 0x05060708, 2,
    [9, 10, 11, 12, 13, 14], [Bytes.ofNat 8 15, Bytes.ofNat 8 16], Bytes.ofNat 40 17⟩

/-- Two bytes stand behind the certificate. -/
theorem toBytes_eq_iff_twoDigests : ∃ c, parse (twoDigests.toBytes ++ [15, 16]) = .ok c ∧
    (c.toBytes = (twoDigests.toBytes ++ [15, 16]).take
      (totalLength (twoDigests.toBytes ++ [15, 16])) ∧ c.signedRangeBytes =
        (twoDigests.toBytes ++ [15, 16]).take
        (totalLength (twoDigests.toBytes ++ [15, 16]) - 40)) := by
  have hparse : parse (twoDigests.toBytes ++ [15, 16]) = .ok twoDigests := by decide
  exact ⟨_, hparse, (toBytes_eq_iff _ _ hparse).mpr ⟨by decide, by decide, by decide⟩⟩

end ContentCertificate
