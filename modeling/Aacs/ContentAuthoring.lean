import Aacs.AesCipher
import Aacs.ContentCertificate
import Aacs.Cursor

/-!
# Authoring a Content Certificate

A certificate made of a section, content hash tables and a sequence number is read
back from its bytes, and its parts from it. The signature is made over the bytes in
front of the place it is put in.
-/

theorem UInt8.shiftLeft_or_toNat (a b : UInt8) {k : Nat} (hk : k < 8) (ha : a.toNat * 2 ^ k < 2 ^ 8)
    (hb : b.toNat < 2 ^ k) : ((a <<< UInt8.ofNat k) ||| b).toNat = a.toNat * 2 ^ k + b.toNat := by
  have hshift : (a <<< UInt8.ofNat k).toNat = a.toNat <<< k := by
    rw [UInt8.toNat_shiftLeft, UInt8.toNat_ofNat_of_lt' (Nat.lt_trans hk (by decide)),
      Nat.mod_eq_of_lt hk, Nat.mod_eq_of_lt]
    rwa [Nat.shiftLeft_eq]
  rw [UInt8.toNat_or, hshift, ← Nat.shiftLeft_add_eq_or_of_lt hb, Nat.shiftLeft_eq]

theorem UInt16.shiftLeft_or_toNat (a b : UInt16) {k : Nat} (hk : k < 16)
    (ha : a.toNat * 2 ^ k < 2 ^ 16)
    (hb : b.toNat < 2 ^ k) : ((a <<< UInt16.ofNat k) ||| b).toNat = a.toNat * 2 ^ k + b.toNat := by
  have hshift : (a <<< UInt16.ofNat k).toNat = a.toNat <<< k := by
    rw [UInt16.toNat_shiftLeft, UInt16.toNat_ofNat_of_lt' (Nat.lt_trans hk (by decide)),
      Nat.mod_eq_of_lt hk, Nat.mod_eq_of_lt]
    rwa [Nat.shiftLeft_eq]
  rw [UInt16.toNat_or, hshift, ← Nat.shiftLeft_add_eq_or_of_lt hb, Nat.shiftLeft_eq]

namespace ContentSequenceNumber

/-- The numbers that the fields can hold: six, fifteen and eleven bits. -/
structure InRange (n : ContentSequenceNumber) : Prop where
  ccssId : n.ccssId.toNat < 2 ^ 6
  timestamp : n.timestamp.toNat < 2 ^ 15
  sequenceNumber : n.sequenceNumber.toNat < 2 ^ 11

theorem and_three (x : Nat) : x &&& 3 = x % 4 := Nat.and_two_pow_sub_one_eq_mod x 2
theorem and_fifteen (x : Nat) : x &&& 15 = x % 16 := Nat.and_two_pow_sub_one_eq_mod x 4
theorem and_six_bits (x : Nat) : x &&& 63 = x % 64 := Nat.and_two_pow_sub_one_eq_mod x 6
theorem and_seven_bits (x : Nat) : x &&& 127 = x % 128 := Nat.and_two_pow_sub_one_eq_mod x 7
theorem and_byte (x : Nat) : x &&& 255 = x % 256 := Nat.and_two_pow_sub_one_eq_mod x 8
theorem and_fifteen_bits (x : Nat) : x &&& 32767 = x % 32768 := Nat.and_two_pow_sub_one_eq_mod x 15

section
variable {n : ContentSequenceNumber} (h : n.InRange)
include h

theorem toBeBytes_get_zero :
    (n.toBeBytes.get 0).toNat = n.ccssId.toNat * 4 + n.sequenceNumber.toNat / 512 := by
  have hlt := h.ccssId
  have hlt' := h.sequenceNumber
  have hid : (n.ccssId &&& 0x3F).toNat = n.ccssId.toNat := by
    simp [and_six_bits]
    omega
  have hseq : ((((n.sequenceNumber >>> 7) &&& 0x0F) >>> 2).toUInt8 &&& 0x03).toNat =
      n.sequenceNumber.toNat / 512 := by
    simp [and_three, and_fifteen, Nat.shiftRight_eq_div_pow]
    omega
  calc (n.toBeBytes.get 0).toNat
      = (((n.ccssId &&& 0x3F) <<< UInt8.ofNat 2) |||
          ((((n.sequenceNumber >>> 7) &&& 0x0F) >>> 2).toUInt8 &&& 0x03)).toNat := rfl
    _ = n.ccssId.toNat * 2 ^ 2 + n.sequenceNumber.toNat / 512 := by
        rw [UInt8.shiftLeft_or_toNat _ _ (by decide) (by omega) (by omega), hid, hseq]
    _ = n.ccssId.toNat * 4 + n.sequenceNumber.toNat / 512 := rfl

theorem toBeBytes_get_one :
    (n.toBeBytes.get 1).toNat = n.sequenceNumber.toNat / 128 % 4 * 64 +
      n.timestamp.toNat / 512 := by
  have hlt := h.timestamp
  have hlt' := h.sequenceNumber
  have hseq : (((n.sequenceNumber >>> 7) &&& 0x0F) &&& 0x03).toUInt8.toNat =
      n.sequenceNumber.toNat / 128 % 4 := by
    simp [and_three, and_fifteen, Nat.shiftRight_eq_div_pow]
  have htime : (((n.timestamp &&& 0x7FFF) >>> 9).toUInt8 &&& 0x3F).toNat =
      n.timestamp.toNat / 512 := by
    simp [and_six_bits, and_fifteen_bits, Nat.shiftRight_eq_div_pow]
    omega
  calc (n.toBeBytes.get 1).toNat
      = (((((n.sequenceNumber >>> 7) &&& 0x0F) &&& 0x03).toUInt8 <<< UInt8.ofNat 6) |||
          (((n.timestamp &&& 0x7FFF) >>> 9).toUInt8 &&& 0x3F)).toNat := rfl
    _ = n.sequenceNumber.toNat / 128 % 4 * 2 ^ 6 + n.timestamp.toNat / 512 := by
        rw [UInt8.shiftLeft_or_toNat _ _ (by decide) (by omega) (by omega), hseq, htime]
    _ = n.sequenceNumber.toNat / 128 % 4 * 64 + n.timestamp.toNat / 512 := rfl

theorem toBeBytes_get_two : (n.toBeBytes.get 2).toNat = n.timestamp.toNat / 2 % 256 := by
  have hlt := h.timestamp
  calc (n.toBeBytes.get 2).toNat = (((n.timestamp &&& 0x7FFF) >>> 1) &&& 0xFF).toUInt8.toNat := rfl
    _ = n.timestamp.toNat / 2 % 256 := by
        simp [and_byte, and_fifteen_bits, Nat.shiftRight_eq_div_pow]
        omega

end

theorem toBeBytes_get_three (n : ContentSequenceNumber) :
    (n.toBeBytes.get 3).toNat = n.timestamp.toNat % 2 * 128 + n.sequenceNumber.toNat % 128 := by
  have htime : ((n.timestamp &&& 0x7FFF) &&& 0x01).toUInt8.toNat = n.timestamp.toNat % 2 := by
    simp [and_byte]
  have hseq : ((n.sequenceNumber &&& 0x7F).toUInt8 &&& 0x7F).toNat =
      n.sequenceNumber.toNat % 128 := by
    simp [and_seven_bits]
  calc (n.toBeBytes.get 3).toNat
      = ((((n.timestamp &&& 0x7FFF) &&& 0x01).toUInt8 <<< UInt8.ofNat 7) |||
          ((n.sequenceNumber &&& 0x7F).toUInt8 &&& 0x7F)).toNat := rfl
    _ = n.timestamp.toNat % 2 * 2 ^ 7 + n.sequenceNumber.toNat % 128 := by
        rw [UInt8.shiftLeft_or_toNat _ _ (by decide) (by omega) (by omega), htime, hseq]
    _ = n.timestamp.toNat % 2 * 128 + n.sequenceNumber.toNat % 128 := rfl

section
variable (b : Bytes 4)

theorem fromBeBytes_ccssId : (fromBeBytes b).ccssId.toNat = (b.get 0).toNat / 4 := by
  simp [fromBeBytes, Nat.shiftRight_eq_div_pow]

theorem fromBeBytes_timestamp : (fromBeBytes b).timestamp.toNat =
    (b.get 1).toNat % 64 * 512 + (b.get 2).toNat * 2 + (b.get 3).toNat / 128 := by
  have h₁ := (b.get 1).toNat_lt
  have h₂ := (b.get 2).toNat_lt
  have h₃ := (b.get 3).toNat_lt
  have hhigh : (b.get 1 &&& 0x3F).toUInt16.toNat = (b.get 1).toNat % 64 := by
    simp [and_six_bits]
  have hlow : ((b.get 3).toUInt16 >>> 7).toNat = (b.get 3).toNat / 128 := by
    simp [Nat.shiftRight_eq_div_pow]
  have hmiddle : (((b.get 2).toUInt16 <<< UInt16.ofNat 1) ||| ((b.get 3).toUInt16 >>> 7)).toNat =
      (b.get 2).toNat * 2 + (b.get 3).toNat / 128 := by
    rw [UInt16.shiftLeft_or_toNat _ _ (by decide) (by simp; omega) (by omega), hlow]
    simp
  calc (fromBeBytes b).timestamp.toNat
      = (((b.get 1 &&& 0x3F).toUInt16 <<< UInt16.ofNat 9) |||
        ((b.get 2).toUInt16 <<< UInt16.ofNat 1) |||
          ((b.get 3).toUInt16 >>> 7)).toNat := rfl
    _ = (b.get 1).toNat % 64 * 2 ^ 9 + ((b.get 2).toNat * 2 + (b.get 3).toNat / 128) := by
        rw [UInt16.or_assoc, UInt16.shiftLeft_or_toNat _ _ (by decide) (by omega) (by omega),
          hhigh, hmiddle]
    _ = (b.get 1).toNat % 64 * 512 + (b.get 2).toNat * 2 + (b.get 3).toNat / 128 :=
      (Nat.add_assoc _ _ _).symm

theorem fromBeBytes_sequenceNumber : (fromBeBytes b).sequenceNumber.toNat =
    ((b.get 0).toNat % 4 * 4 + (b.get 1).toNat / 64) * 128 + (b.get 3).toNat % 128 := by
  have h₁ := (b.get 1).toNat_lt
  have hhigh : (b.get 0 &&& 0x03).toUInt16.toNat = (b.get 0).toNat % 4 := by
    simp [and_three]
  have hmiddle : ((b.get 1).toUInt16 >>> 6).toNat = (b.get 1).toNat / 64 := by
    simp [Nat.shiftRight_eq_div_pow]
  have hlow : (b.get 3 &&& 0x7F).toUInt16.toNat = (b.get 3).toNat % 128 := by
    simp [and_seven_bits]
  have hseq : (((b.get 0 &&& 0x03).toUInt16 <<< UInt16.ofNat 2) |||
    ((b.get 1).toUInt16 >>> 6)).toNat =
      (b.get 0).toNat % 4 * 2 ^ 2 + (b.get 1).toNat / 64 := by
    rw [UInt16.shiftLeft_or_toNat _ _ (by decide) (by omega) (by omega), hhigh, hmiddle]
  calc (fromBeBytes b).sequenceNumber.toNat
      = (((((b.get 0 &&& 0x03).toUInt16 <<< UInt16.ofNat 2) ||| ((b.get 1).toUInt16 >>> 6)) <<<
        UInt16.ofNat 7) |||
          (b.get 3 &&& 0x7F).toUInt16).toNat := rfl
    _ = ((b.get 0).toNat % 4 * 2 ^ 2 + (b.get 1).toNat / 64) * 2 ^ 7 + (b.get 3).toNat % 128 := by
        rw [UInt16.shiftLeft_or_toNat _ _ (by decide) (by omega) (by omega), hseq, hlow]
    _ = ((b.get 0).toNat % 4 * 4 + (b.get 1).toNat / 64) * 128 + (b.get 3).toNat % 128 := rfl

end

/-- A number in range crosses the four bytes unchanged. -/
theorem fromBeBytes_toBeBytes {n : ContentSequenceNumber} (h : n.InRange) :
    fromBeBytes n.toBeBytes = n := by
  have hid := h.ccssId
  have htime := h.timestamp
  have hseq := h.sequenceNumber
  have hid' : (fromBeBytes n.toBeBytes).ccssId = n.ccssId := by
    rw [← UInt8.toNat_inj, fromBeBytes_ccssId, toBeBytes_get_zero h]
    omega
  have htime' : (fromBeBytes n.toBeBytes).timestamp = n.timestamp := by
    rw [← UInt16.toNat_inj, fromBeBytes_timestamp, toBeBytes_get_one h, toBeBytes_get_two h,
      toBeBytes_get_three]
    omega
  have hseq' : (fromBeBytes n.toBeBytes).sequenceNumber = n.sequenceNumber := by
    rw [← UInt16.toNat_inj, fromBeBytes_sequenceNumber, toBeBytes_get_zero h, toBeBytes_get_one h,
      toBeBytes_get_three]
    omega
  cases n
  rw [ContentSequenceNumber.mk.injEq]
  exact ⟨hid', htime', hseq'⟩

end ContentSequenceNumber

theorem length_flatMap_toList {n : Nat} (as : List (Bytes n)) :
    (as.flatMap Bytes.toList).length = as.length * n := by
  simp [List.length_flatMap]

namespace BdFormatSpecificSection

variable (s : BdFormatSpecificSection)

theorem length_toBytes : s.toBytes.length = 42 + s.hashValueOfCpsUnitUsageFiles.length * 20 := by
  rw [toBytes, List.length_append, length_flatMap_toList]
  simp

theorem parse_toBytes (h : s.hashValueOfCpsUnitUsageFiles.length < 2 ^ 16) :
    parse s.toBytes = .ok s := by
  have hlen := s.length_toBytes
  have hcount : (UInt16.ofNat s.hashValueOfCpsUnitUsageFiles.length).toNat =
      s.hashValueOfCpsUnitUsageFiles.length :=
    UInt16.toNat_ofNat_of_lt' h
  have hmc : Ahead s.toBytes 0
    (s.hashValueOfMcManifestFile.toList ++ (s.hashValueOfBdjRootCert.toList ++
      (u16ToBe (UInt16.ofNat s.hashValueOfCpsUnitUsageFiles.length) ++
        (s.hashValueOfCpsUnitUsageFiles.flatMap Bytes.toList ++ [])))) := by
    rw [Ahead, List.drop_zero, toBytes, List.append_nil, List.append_assoc, List.append_assoc]
  have hbdj : Ahead s.toBytes 20 _ := hmc.step s.hashValueOfMcManifestFile.length_toList
  have hnum : Ahead s.toBytes 40 _ := hbdj.step s.hashValueOfBdjRootCert.length_toList
  have husage : Ahead s.toBytes 42 _ := hnum.step (length_u16ToBe _)
  rw [parse, Outcome.refuseIf_neg (by omega), Outcome.bind_ok, hmc.readArray (by decide),
    Outcome.bind_ok, hbdj.readArray (by decide), Outcome.bind_ok, hnum.indexU16,
    Outcome.bind_ok, hcount]
  dsimp only
  rw [Outcome.refuseIf_neg (by omega), Outcome.bind_ok, husage.readArrays (by decide)]
  rfl

end BdFormatSpecificSection

namespace ContentCertificate

variable (c : ContentCertificate)

theorem length_toBytes : c.toBytes.length =
    26 + (if c.formatSpecificSection.length = 0 then 2 else c.formatSpecificSection.length) +
      c.contentHashTableDigests.length * 8 + 40 := by
  rw [toBytes_eq_layout, length_layout]

/-- The fields in their order. -/
theorem ahead_toBytes : Ahead c.toBytes 0 (c.certificateType :: (if c.bee then 0x80 else 0x00) ::
    (u32ToBe c.totalNumberOfHashUnits ++
      (c.totalNumberOfLayers :: c.layerNumber :: (u32ToBe c.numberOfHashUnits ++
      (u16ToBe c.numberOfDigests ++ (c.applicantId.toList ++ (c.contentSequenceNumber.toList ++
        (u16ToBe c.minimumCrlVersion ++
          (0 :: 0 :: (u16ToBe (UInt16.ofNat c.formatSpecificSection.length) ++
          ((if c.formatSpecificSection = [] then [0, 0] else c.formatSpecificSection) ++
            (c.contentHashTableDigests.flatMap Bytes.toList ++
              (c.signatureData.toList ++ []))))))))))))) := by
  simp only [Ahead, List.drop_zero, toBytes, List.append_assoc, List.cons_append, List.nil_append,
    List.append_nil]

/-- What the encoder keeps and the decoder accepts: the one certificate type, a count that
is the number of digests, and a section whose length fits its field and keeps the alignment. -/
structure Encodable : Prop where
  certificateType : c.certificateType = certificateTypeFirstGen
  digests : c.contentHashTableDigests.length = c.numberOfDigests.toNat
  section_lt : c.formatSpecificSection.length < 2 ^ 16
  section_aligned : c.formatSpecificSection.length ≠ 0 →
    (c.formatSpecificSection.length + 2) % 4 = 0

variable {c}

theorem readFormatSpecificSection_toBytes {tail : List UInt8}
    (h : Ahead c.toBytes 26
      ((if c.formatSpecificSection = [] then [0, 0] else c.formatSpecificSection) ++ tail)) :
    readFormatSpecificSection c.toBytes c.formatSpecificSection.length =
      .ok c.formatSpecificSection := by
  by_cases hnil : c.formatSpecificSection = []
  · rw [readFormatSpecificSection, hnil, List.length_nil, if_neg (Nat.lt_irrefl 0)]
    rfl
  · rw [if_neg hnil] at h
    have hpos : 0 < c.formatSpecificSection.length := List.length_pos_iff.mpr hnil
    have hfits : 26 + c.formatSpecificSection.length ≤ c.toBytes.length := h.fits rfl hpos
    rw [readFormatSpecificSection, if_pos hpos, Outcome.slice_of_le (Nat.le_add_right _ _) hfits,
      Nat.add_sub_cancel_left, h.take rfl]

/-- Such a certificate is read back from its bytes. -/
theorem parse_toBytes (h : c.Encodable) : parse c.toBytes = .ok c := by
  have hlen := c.length_toBytes
  have hsection : (UInt16.ofNat c.formatSpecificSection.length).toNat =
      c.formatSpecificSection.length :=
    UInt16.toNat_ofNat_of_lt' h.section_lt
  have htype := c.ahead_toBytes
  have hflags : Ahead c.toBytes 1 _ := htype.next
  have hunits : Ahead c.toBytes 2 _ := hflags.next
  have hlayers : Ahead c.toBytes 6 _ := hunits.step (length_u32ToBe _)
  have hlayer : Ahead c.toBytes 7 _ := hlayers.next
  have hlayerUnits : Ahead c.toBytes 8 _ := hlayer.next
  have hdigests : Ahead c.toBytes 12 _ := hlayerUnits.step (length_u32ToBe _)
  have happlicant : Ahead c.toBytes 14 _ := hdigests.step (length_u16ToBe _)
  have hsequence : Ahead c.toBytes 16 _ := happlicant.step c.applicantId.length_toList
  have hcrl : Ahead c.toBytes 20 _ := hsequence.step c.contentSequenceNumber.length_toList
  have hlength : Ahead c.toBytes 24 _ := (hcrl.step (length_u16ToBe _)).next.next
  have hfss : Ahead c.toBytes 26 _ := hlength.step (length_u16ToBe _)
  have hlenSection : (if c.formatSpecificSection = [] then [0, 0]
    else c.formatSpecificSection).length =
      if c.formatSpecificSection.length = 0 then 2 else c.formatSpecificSection.length := by
    by_cases hnil : c.formatSpecificSection = []
    · simp [hnil]
    · simp [hnil]
  have hhashes : Ahead c.toBytes
      (26 + if c.formatSpecificSection.length = 0 then 2 else c.formatSpecificSection.length) _ :=
        hfss.step hlenSection
  have hsig := hhashes.step (length_flatMap_toList _)
  have hbee : (decide ((if c.bee then 0x80 else 0x00 : UInt8) &&& 0x80 ≠ 0)) = c.bee := by
    cases c.bee <;> rfl
  have htypeOk : ¬c.certificateType ≠ certificateTypeFirstGen := not_not_intro h.certificateType
  have haligned : ¬(c.formatSpecificSection.length ≠ 0 ∧
      (c.formatSpecificSection.length + 2) % 4 ≠ 0) :=
    fun hnot => hnot.2 (h.section_aligned hnot.1)
  rw [parse, Outcome.refuseIf_neg (by omega), Outcome.bind_ok, htype.index, Outcome.bind_ok,
    Outcome.refuseIf_neg htypeOk, Outcome.bind_ok, hflags.index, Outcome.bind_ok, hunits.indexU32,
    Outcome.bind_ok,
    hlayers.index, Outcome.bind_ok, hlayer.index, Outcome.bind_ok, hlayerUnits.indexU32,
      Outcome.bind_ok,
    hdigests.indexU16, Outcome.bind_ok, happlicant.readArray (by decide), Outcome.bind_ok,
    hsequence.readArray (by decide), Outcome.bind_ok, hcrl.indexU16, Outcome.bind_ok,
      hlength.indexU16, Outcome.bind_ok]
  dsimp only
  rw [hsection, ← h.digests, Outcome.refuseIf_neg haligned, Outcome.bind_ok,
    Outcome.refuseIf_neg (by omega), Outcome.bind_ok, readFormatSpecificSection_toBytes hfss,
    Outcome.bind_ok, hhashes.readArrays (by decide),
    Outcome.bind_ok, hsig.readArray (by decide), Outcome.bind_ok, hbee]
  rfl

/-- Every other certificate type is refused, whatever follows it. -/
theorem parse_toBytes_otherType (h : c.certificateType ≠ certificateTypeFirstGen) :
    parse c.toBytes = .err (.invalidValue "Content Certificate Type" c.certificateType.toNat) := by
  have hlen := c.length_toBytes
  have htype := c.ahead_toBytes
  rw [parse, Outcome.refuseIf_neg (by omega), Outcome.bind_ok, htype.index, Outcome.bind_ok,
    Outcome.refuseIf_pos h]
  rfl

/-- The certificate up to its last digest. -/
def body (c : ContentCertificate) : List UInt8 :=
  [c.certificateType, if c.bee then 0x80 else 0x00] ++ u32ToBe c.totalNumberOfHashUnits ++
    [c.totalNumberOfLayers, c.layerNumber] ++ u32ToBe c.numberOfHashUnits ++
      u16ToBe c.numberOfDigests ++
    c.applicantId.toList ++ c.contentSequenceNumber.toList ++
      u16ToBe c.minimumCrlVersion ++ [0, 0] ++
    u16ToBe (UInt16.ofNat c.formatSpecificSection.length) ++
    (if c.formatSpecificSection = [] then [0, 0] else c.formatSpecificSection) ++
    c.contentHashTableDigests.flatMap Bytes.toList

theorem signedRangeBytes_eq_body (c : ContentCertificate) : c.signedRangeBytes = c.body := by
  have htoBytes : c.toBytes = c.body ++ c.signatureData.toList := rfl
  rw [signedRangeBytes, htoBytes, List.length_append, c.signatureData.length_toList,
    Nat.add_sub_cancel, List.take_left]

/-- The bytes signed do not depend on the signature that stands behind them. -/
theorem signedRangeBytes_with (sig : Ecdsa.Signature) :
    ({ c with signatureData := sig } : ContentCertificate).signedRangeBytes =
      c.signedRangeBytes := by
  rw [signedRangeBytes_eq_body, signedRangeBytes_eq_body]
  rfl

theorem verifySignature_of_sign {aes : Aes128} {d : U160} {sig : Ecdsa.Signature}
    (hd : Ecdsa.InRange d)
    (h : (Ecdsa.sign aes d c.signedRangeBytes : Result Ecdsa.Signature) = .ok sig) :
    ({ c with signatureData := sig } : ContentCertificate).verifySignature
    (Point.generator.mulScalar d) = .ok () := by
  have hverify := Ecdsa.sign_verifies hd h
  rw [Ecdsa.publicKey] at hverify
  rw [verifySignature, signedRangeBytes_with, hverify]
  rfl

theorem verifyContentHashTableDigest_of_map {tables : List (List UInt8)} {i : Nat}
    {table : List UInt8} (hdigests : c.contentHashTableDigests = tables.map contentHashTableDigest)
    (hi : tables[i]? = some table) :
    c.verifyContentHashTableDigest i table = .ok () := by
  have hstored : c.contentHashTableDigests[i]? = some (contentHashTableDigest table) := by
    rw [hdigests, List.getElem?_map, hi]
    rfl
  rw [verifyContentHashTableDigest, hstored, Outcome.okOr_some, Outcome.bind_ok]
  exact Outcome.refuseIf_neg (not_not_intro rfl)

/-- The header values that are not computed from the other parts. -/
structure Header where
  certificateType : UInt8
  bee : Bool
  totalNumberOfHashUnits : UInt32
  totalNumberOfLayers : UInt8
  layerNumber : UInt8
  numberOfHashUnits : UInt32
  applicantId : Bytes 2
  minimumCrlVersion : UInt16

/-- A certificate over its parts, with a placeholder for the signature. -/
def ofParts (header : Header) (bd : BdFormatSpecificSection) (number : ContentSequenceNumber)
    (tables : List (List UInt8)) (placeholder : Ecdsa.Signature) : ContentCertificate where
  certificateType := header.certificateType
  bee := header.bee
  totalNumberOfHashUnits := header.totalNumberOfHashUnits
  totalNumberOfLayers := header.totalNumberOfLayers
  layerNumber := header.layerNumber
  numberOfHashUnits := header.numberOfHashUnits
  numberOfDigests := UInt16.ofNat tables.length
  applicantId := header.applicantId
  contentSequenceNumber := number.toBeBytes
  minimumCrlVersion := header.minimumCrlVersion
  formatSpecificSection := bd.toBytes
  contentHashTableDigests := tables.map contentHashTableDigest
  signatureData := placeholder

/-- The certificate is built with a placeholder, signed, and the signature put in its place. -/
def author (aes : Aes128) (d : U160) (header : Header) (bd : BdFormatSpecificSection)
    (number : ContentSequenceNumber) (tables : List (List UInt8)) (placeholder : Ecdsa.Signature) :
    Result ContentCertificate := do
  let cert := ofParts header bd number tables placeholder
  let sig ← Ecdsa.sign aes d cert.signedRangeBytes
  pure { cert with signatureData := sig }

section
variable {header : Header} {bd : BdFormatSpecificSection} {number : ContentSequenceNumber}
  {tables : List (List UInt8)} {placeholder : Ecdsa.Signature}

theorem ofParts_encodable (htype : header.certificateType = certificateTypeFirstGen)
    (hbd : bd.hashValueOfCpsUnitUsageFiles.length ≤ 3274) (htables : tables.length ≤ 65535) :
    (ofParts header bd number tables placeholder).Encodable where
  certificateType := htype
  digests := by
    rw [ofParts, List.length_map]
    exact (UInt16.toNat_ofNat_of_lt' (Nat.lt_succ_of_le htables)).symm
  section_lt := by
    rw [ofParts, bd.length_toBytes]
    omega
  section_aligned := by
    intro _
    rw [ofParts, bd.length_toBytes]
    omega

end

/-- A certificate of the first generation made of its parts and signed is read back, and
every part from it; the signature verifies under the public point of the signing scalar. -/
theorem author_roundTrip (aes : Aes128) (d : U160) (header : Header) (bd : BdFormatSpecificSection)
    (number : ContentSequenceNumber) (tables : List (List UInt8)) (placeholder : Ecdsa.Signature)
    (cert : ContentCertificate) (hd : Ecdsa.InRange d)
    (htype : header.certificateType = certificateTypeFirstGen)
    (hbd : bd.hashValueOfCpsUnitUsageFiles.length ≤ 3274) (hnumber : number.InRange)
    (htables : tables.length ≤ 65535)
    (h : author aes d header bd number tables placeholder = .ok cert) :
    parse cert.toBytes = .ok cert ∧ cert.bdFormatSpecificSection = .ok bd ∧
      cert.contentSequenceNumberDecoded = number ∧
      cert.verifySignature (Point.generator.mulScalar d) = .ok () ∧
      ∀ i table, tables[i]? = some table → cert.verifyContentHashTableDigest i table = .ok () := by
  rw [author, Outcome.bind_eq_ok] at h
  obtain ⟨sig, hsig, hcert⟩ := h
  obtain rfl := Outcome.ok.inj hcert
  have hencodable : (ofParts header bd number tables sig).Encodable :=
    ofParts_encodable htype hbd htables
  have hparse : parse (ofParts header bd number tables sig).toBytes =
      .ok (ofParts header bd number tables sig) :=
    parse_toBytes hencodable
  have hsection : BdFormatSpecificSection.parse bd.toBytes = .ok bd := bd.parse_toBytes (by omega)
  refine ⟨hparse, hsection, ContentSequenceNumber.fromBeBytes_toBeBytes hnumber,
    verifySignature_of_sign hd hsig, ?_⟩
  intro i table hi
  exact verifyContentHashTableDigest_of_map rfl hi

/-- One usage file hash, one table, and a number that fills its fields. -/
def sampleHeader (certificateType : UInt8) : Header :=
  ⟨certificateType, true, 8192, 2, 1, 4096, Bytes.zero 2, 3⟩

def sampleSection : BdFormatSpecificSection := ⟨Bytes.zero 20, Bytes.zero 20, [Bytes.zero 20]⟩

def sampleNumber : ContentSequenceNumber := ⟨63, 32767, 2047⟩

theorem sampleNumber_inRange : sampleNumber.InRange := ⟨by decide, by decide, by decide⟩

def sampleParts (certificateType : UInt8) : ContentCertificate :=
  ofParts (sampleHeader certificateType) sampleSection sampleNumber [[1, 2, 3]] (Bytes.zero 40)

theorem author_sample {certificateType : UInt8}
    (h : Ecdsa.signable Aes128.fips197 1 (sampleParts certificateType).signedRangeBytes = true) :
    ∃ cert, author Aes128.fips197 U160.one (sampleHeader certificateType) sampleSection
      sampleNumber [[1, 2, 3]]
      (Bytes.zero 40) = .ok cert ∧ cert.certificateType = certificateType := by
  obtain ⟨sig, hsig⟩ := Ecdsa.sign_one (ε := AacsError) h
  refine ⟨{ sampleParts certificateType with signatureData := sig }, ?_, rfl⟩
  rw [author]
  exact Outcome.bind_eq_ok.mpr ⟨sig, hsig, rfl⟩

theorem author_roundTrip_sample : ∃ cert,
    author Aes128.fips197 U160.one (sampleHeader 0) sampleSection sampleNumber [[1, 2, 3]]
      (Bytes.zero 40) = .ok cert ∧
      parse cert.toBytes = .ok cert ∧ cert.bdFormatSpecificSection = .ok sampleSection ∧
      cert.contentSequenceNumberDecoded = sampleNumber ∧
      cert.verifySignature (Point.generator.mulScalar U160.one) = .ok () ∧
      cert.verifyContentHashTableDigest 0 [1, 2, 3] = .ok () := by
  obtain ⟨cert, hauthor, -⟩ := author_sample
    (by decide +kernel : Ecdsa.signable Aes128.fips197 1 (sampleParts 0).signedRangeBytes = true)
  obtain ⟨hparse, hsection, hnumber, hverify, hdigests⟩ :=
    author_roundTrip Aes128.fips197 U160.one (sampleHeader 0)
    sampleSection sampleNumber [[1, 2, 3]] (Bytes.zero 40) cert Ecdsa.inRange_one rfl (by decide)
      sampleNumber_inRange
    (by decide) hauthor
  exact ⟨cert, hauthor, hparse, hsection, hnumber, hverify, hdigests 0 [1, 2, 3] rfl⟩

/-- A signed certificate of type one is refused by the parser. -/
theorem author_otherType : ∃ cert,
    Ecdsa.InRange U160.one ∧ sampleSection.hashValueOfCpsUnitUsageFiles.length ≤ 3274 ∧
      sampleNumber.InRange ∧
      author Aes128.fips197 U160.one (sampleHeader 1) sampleSection sampleNumber [[1, 2, 3]]
        (Bytes.zero 40) = .ok cert ∧
      parse cert.toBytes ≠ .ok cert := by
  obtain ⟨cert, hauthor, htype⟩ := author_sample
    (by decide +kernel : Ecdsa.signable Aes128.fips197 1 (sampleParts 1).signedRangeBytes = true)
  have hother : cert.certificateType ≠ certificateTypeFirstGen := by
    rw [htype]
    decide
  refine ⟨cert, Ecdsa.inRange_one, by decide, sampleNumber_inRange, hauthor, ?_⟩
  rw [parse_toBytes_otherType hother]
  intro heq
  cases heq

end ContentCertificate
