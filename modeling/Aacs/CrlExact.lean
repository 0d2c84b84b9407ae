import Aacs.CrlSegmentation

/-!
# What a Content Revocation List can hold

Which records come back as they were written, and with them which lists the parser
accepts, field by field.
-/
namespace RevocationRecord

/-- The fields are as wide as the record has room for. -/
def Fits : RevocationRecord → Prop
  | .contentCertificateId range _ => range.toNat < 4096
  | .managedCopyServerCertificateId range _ => range.toNat < 4096
  | .recordableMedia rmrr => .fromU3 rmrr.mediaType.toU3 = rmrr.mediaType
  | .unknown type slot => type = Crl.slotType slot ∧ type ≠ Crl.recordTypeContentCertificateId ∧
      type ≠ Crl.recordTypeManagedCopyServerId

end RevocationRecord

namespace Crl

theorem nibble_of_lt {b : UInt8} (h : b.toNat < 16) : b &&& 0x0F = b := by
  rw [← UInt8.toNat_inj, UInt8.toNat_and]
  exact (Nat.and_two_pow_sub_one_eq_mod b.toNat 4).trans (Nat.mod_eq_of_lt h)

/-- A slot with a range is decoded to what was encoded. -/
theorem decode_encodeRange (type : UInt8) (htype : type &&& 0x0F = type) {range : UInt16}
    (hrange : range.toNat < 4096)
    (id : Bytes 6) : ∃ slot : Bytes 8, encodeRangeAndId type range id = slot.toList ∧
      slotType slot = type ∧ decodeRangeAndId slot = (range, id) := by
  have hnibble : (range >>> 8).toUInt8 &&& (0x0F : UInt8) = (range >>> 8).toUInt8 := by
    apply nibble_of_lt
    rw [UInt16.toNat_toUInt8, UInt16.toNat_shiftRight]
    change range.toNat >>> 8 % 2 ^ 8 < 16
    rw [Nat.shiftRight_eq_div_pow]
    omega
  have hlow : (range &&& 0xFF).toUInt8 = range.toUInt8 := by
    rw [UInt16.toUInt8_and]
    exact UInt8.and_neg_one
  obtain ⟨hhead, htail⟩ := splitNibbles type (range >>> 8).toUInt8
  rw [htype] at hhead htail
  rw [hnibble] at hhead htail
  obtain ⟨i, hi⟩ := id
  match i, hi with
  | [i₀, i₁, i₂, i₃, i₄, i₅], _ =>
    refine ⟨⟨[(type <<< 4) ||| (range >>> 8).toUInt8, range.toUInt8, i₀, i₁, i₂, i₃, i₄, i₅], rfl⟩,
      ?_, hhead, ?_⟩
    · rw [encodeRangeAndId, hnibble, hlow]
      rfl
    · change (u16FromBe (((type <<< 4) ||| (range >>> 8).toUInt8) &&& 0x0F) range.toUInt8, _) = _
      rw [htail, u16FromBe_toBe]
      rfl

/-- The first byte of a media record gives its type, the flag and the media type. -/
theorem mediaByte_read (iccid : Bool) (t : UInt8) :
    recordType ((recordTypeRmrrPart1 <<< 4) ||| (if iccid then 0x08 else 0x00) ||| (t &&& 0x07)) =
      recordTypeRmrrPart1 ∧
      decide (((recordTypeRmrrPart1 <<< 4) ||| (if iccid then 0x08 else 0x00) ||| (t &&& 0x07)) &&&
        0x08 ≠ 0) = iccid ∧
      ((recordTypeRmrrPart1 <<< 4) ||| (if iccid then 0x08 else 0x00) ||| (t &&& 0x07)) &&& 0x07 =
        t &&& 0x07 :=
  byte_cases (p := fun t => ∀ iccid : Bool,
    recordType ((recordTypeRmrrPart1 <<< 4) ||| (if iccid then 0x08 else 0x00) ||| (t &&& 0x07)) =
      recordTypeRmrrPart1 ∧
      decide (((recordTypeRmrrPart1 <<< 4) ||| (if iccid then 0x08 else 0x00) ||| (t &&& 0x07)) &&&
        0x08 ≠ 0) = iccid ∧
      ((recordTypeRmrrPart1 <<< 4) ||| (if iccid then 0x08 else 0x00) ||| (t &&& 0x07)) &&&
        0x07 = t &&& 0x07)
    (by decide +kernel) t iccid

theorem fromU3_and (v : UInt8) : RecordableMediaType.fromU3 (v &&& 0x07) = .fromU3 v := by
  have htwice : v &&& 0x07 &&& 0x07 = v &&& 0x07 := by
    rw [UInt8.and_assoc]
    rfl
  simp only [RecordableMediaType.fromU3, htwice]

theorem exists_sixteen (b : Bytes 16) : ∃ b₀ b₁ b₂ b₃ b₄ b₅ b₆ b₇ b₈ b₉ b₁₀ b₁₁ b₁₂ b₁₃ b₁₄ b₁₅,
    b = ⟨[b₀, b₁, b₂, b₃, b₄, b₅, b₆, b₇, b₈, b₉, b₁₀, b₁₁, b₁₂, b₁₃, b₁₄, b₁₅], rfl⟩ := by
  obtain ⟨l, hl⟩ := b
  match l, hl with
  | [b₀, b₁, b₂, b₃, b₄, b₅, b₆, b₇, b₈, b₉, b₁₀, b₁₁, b₁₂, b₁₃, b₁₄, b₁₅], _ =>
    exact ⟨b₀, b₁, b₂, b₃, b₄, b₅, b₆, b₇, b₈, b₉, b₁₀, b₁₁, b₁₂, b₁₃, b₁₄, b₁₅, rfl⟩

/-- Three slots with a media record are decoded to what was encoded. -/
theorem decode_encodeRmrr {rmrr : RecordableMediaRevocation}
    (htype : .fromU3 rmrr.mediaType.toU3 = rmrr.mediaType) :
    ∃ a b c : Bytes 8, encodeRmrr rmrr = [a, b, c].flatMap Bytes.toList ∧ IsRmrr a b c ∧
      decodeRmrr a b c = rmrr := by
  obtain ⟨iccid, mediaType, ⟨⟨i, hi⟩⟩, mediaId⟩ := rmrr
  obtain ⟨m₀, m₁, m₂, m₃, m₄, m₅, m₆, m₇, m₈, m₉, m₁₀, m₁₁, m₁₂, m₁₃, m₁₄, m₁₅, rfl⟩ :=
    exists_sixteen mediaId
  match i, hi with
  | [i₀, i₁, i₂, i₃, i₄, i₅], _ =>
    have hnibble : recordType m₁ &&& 0x0F = recordType m₁ := and_nibble _
    obtain ⟨hpart1, hflag, htype'⟩ := mediaByte_read iccid mediaType.toU3
    obtain ⟨hpart2, hhigh⟩ := splitNibbles recordTypeRmrrPart2 (recordType m₁)
    obtain ⟨hpart3, hlow⟩ := splitNibbles recordTypeRmrrPart3 m₁
    have hmedia :
      ((((recordTypeRmrrPart2 &&& 0x0F) <<< 4 ||| (recordType m₁ &&& 0x0F)) &&& 0x0F) <<< 4) |||
        (((recordTypeRmrrPart3 &&& 0x0F) <<< 4 ||| (m₁ &&& 0x0F)) &&& 0x0F) = m₁ := by
      rw [hhigh, hlow, hnibble, recordType_eq]
    refine ⟨⟨[(recordTypeRmrrPart1 <<< 4) ||| (if iccid then 0x08 else 0x00) |||
      (mediaType.toU3 &&& 0x07),
        i₀, i₁, i₂, i₃, i₄, i₅, m₀], rfl⟩,
      ⟨[(recordTypeRmrrPart2 &&& 0x0F) <<< 4 ||| (recordType m₁ &&& 0x0F), m₂, m₃, m₄, m₅, m₆,
        m₇, m₈], rfl⟩,
      ⟨[(recordTypeRmrrPart3 &&& 0x0F) <<< 4 ||| (m₁ &&& 0x0F), m₉, m₁₀, m₁₁, m₁₂, m₁₃, m₁₄,
        m₁₅], rfl⟩, ?_,
      ⟨hpart1, hpart2, hpart3⟩, ?_⟩
    · rw [hnibble]
      rfl
    · rw [decodeRmrr, RecordableMediaRevocation.mk.injEq]
      refine ⟨hflag, ?_, rfl, ?_⟩
      · exact (congrArg RecordableMediaType.fromU3 htype').trans ((fromU3_and _).trans htype)
      · rw [Bytes.ext_iff]
        exact congrArg (fun m => [m₀, m, m₂, m₃, m₄, m₅, m₆, m₇, m₈, m₉, m₁₀, m₁₁, m₁₂, m₁₃, m₁₄,
          m₁₅]) hmedia

/-- The records fit, and no three that stand singly would be joined. -/
structure Written (rs : List RevocationRecord) : Prop where
  fits : ∀ r ∈ rs, r.Fits
  apart : ∀ t₁ t₂ t₃ a b c, [.unknown t₁ a, .unknown t₂ b, .unknown t₃ c] <:+: rs → ¬IsRmrr a b c

theorem length_encode (r : RevocationRecord) :
    (encodeRevocationRecord r).length = 8 * slotCount r := by
  cases r with
  | contentCertificateId range id => simp [encodeRevocationRecord, encodeRangeAndId, slotCount]
  | managedCopyServerCertificateId range id =>
    simp [encodeRevocationRecord, encodeRangeAndId, slotCount]
  | recordableMedia rmrr => simp [encodeRevocationRecord, encodeRmrr, slotCount]
  | unknown type slot => simp [encodeRevocationRecord, slotCount]

theorem slots_flatMap (as : List (Bytes 8)) : slots (as.flatMap Bytes.toList) = as := by
  induction as with
  | nil => rfl
  | cons a as ih => rw [List.flatMap_cons, slots_append, ih]

theorem slots_toList (a : Bytes 8) : slots a.toList = [a] := by
  have h := slots_append a []
  rw [List.append_nil] at h
  exact h

theorem slots_encode (r : RevocationRecord) :
    (slots (encodeRevocationRecord r)).flatMap Bytes.toList = encodeRevocationRecord r :=
  flatMap_slots (by rw [length_encode, Nat.mul_mod_right])

theorem encode_slots (rs : List RevocationRecord) :
    rs.flatMap encodeRevocationRecord =
      (rs.flatMap fun r => slots (encodeRevocationRecord r)).flatMap Bytes.toList := by
  rw [List.flatMap_assoc]
  exact List.flatMap_congr fun r _ => (slots_encode r).symm

/-- A record that fits is what its own slots are. -/
theorem row_of_fits {r : RevocationRecord} (h : r.Fits) :
    rmrrTriples.Row r (slots (encodeRevocationRecord r)) := by
  have hne : recordTypeManagedCopyServerId ≠ recordTypeContentCertificateId := by decide
  cases r with
  | contentCertificateId range id =>
    obtain ⟨slot, hslot, htype, hdecode⟩ :=
      decode_encodeRange recordTypeContentCertificateId rfl h id.bytes
    refine .inl ⟨slot, ?_, ?_⟩
    · rw [encodeRevocationRecord, hslot, slots_toList]
    · change singleRecord slot = _
      rw [singleRecord, if_pos htype, hdecode]
  | managedCopyServerCertificateId range id =>
    obtain ⟨slot, hslot, htype, hdecode⟩ :=
      decode_encodeRange recordTypeManagedCopyServerId rfl h id.bytes
    refine .inl ⟨slot, ?_, ?_⟩
    · rw [encodeRevocationRecord, hslot, slots_toList]
    · change singleRecord slot = _
      rw [singleRecord, if_neg (htype.trans_ne hne), if_pos htype, hdecode]
  | recordableMedia rmrr =>
    obtain ⟨a, b, c, hbytes, hparts, hdecode⟩ := decode_encodeRmrr h
    refine .inr ⟨a, b, c, ?_, joinRmrr_eq_some.mpr ⟨hparts, ?_⟩⟩
    · rw [encodeRevocationRecord, hbytes, slots_flatMap]
    · rw [hdecode]
  | unknown type slot =>
    obtain ⟨rfl, hcert, hserver⟩ := h
    refine .inl ⟨slot, slots_toList slot, ?_⟩
    change singleRecord slot = _
    rw [singleRecord, if_neg hcert, if_neg hserver]

theorem fits_single (slot : Bytes 8) : (singleRecord slot).Fits := by
  have hrange : (decodeRangeAndId slot).1.toNat < 4096 := by
    rw [decodeRange_toNat]
    exact Nat.mod_lt _ (by decide)
  rcases singleRecord_cases slot with ⟨-, h⟩ | ⟨-, h⟩ | ⟨hcert, hserver, h⟩
  · rw [h]
    exact hrange
  · rw [h]
    exact hrange
  · rw [h]
    exact ⟨rfl, hcert, hserver⟩

theorem toU3_fromU3 (v : UInt8) : RecordableMediaType.fromU3 (RecordableMediaType.fromU3 v).toU3 =
    .fromU3 v :=
  byte_cases
    (p := fun v => RecordableMediaType.fromU3 (RecordableMediaType.fromU3 v).toU3 = .fromU3 v)
    (by decide +kernel) v

/-- A slot kept as it is. -/
theorem eq_of_single {slot slot' : Bytes 8} {type : UInt8}
    (h : .unknown type slot = singleRecord slot') :
    slot = slot' := by
  rcases singleRecord_cases slot' with ⟨-, h'⟩ | ⟨-, h'⟩ | ⟨-, -, h'⟩
  · rw [h'] at h
    cases h
  · rw [h'] at h
    cases h
  · exact (RevocationRecord.unknown.inj (h.trans h')).2

theorem written_scan (as : List (Bytes 8)) : Written (rmrrTriples.scan as) where
  fits r hr := by
    rcases Triples.mem_scan hr with ⟨slot, rfl⟩ | ⟨a, b, c, hjoin⟩
    · exact fits_single slot
    · obtain ⟨-, rfl⟩ := joinRmrr_eq_some.mp hjoin
      exact toU3_fromU3 _
  apart t₁ t₂ t₃ a b c hwithin hparts := by
    obtain ⟨a', b', c', ha, hb, hc, hjoin⟩ := Triples.scan_apart hwithin rfl rfl rfl
    obtain rfl := eq_of_single ha
    obtain rfl := eq_of_single hb
    obtain rfl := eq_of_single hc
    have hsome : joinRmrr a b c = some _ := joinRmrr_eq_some.mpr ⟨hparts, rfl⟩
    cases hjoin.symm.trans hsome

/-- A record in one slot that holds no range. -/
theorem eq_unknown_of_row {r : RevocationRecord} {slot : Bytes 8} (hr : r.Fits)
    (h : slots (encodeRevocationRecord r) = [slot])
    (hcert : slotType slot ≠ recordTypeContentCertificateId)
    (hserver : slotType slot ≠ recordTypeManagedCopyServerId) :
    r = .unknown (slotType slot) slot := by
  rcases row_of_fits hr with ⟨slot', hslot, hsingle⟩ | ⟨a, b, c, habc, -⟩
  · obtain rfl := List.singleton_inj.mp (h.symm.trans hslot)
    rw [← hsingle]
    change singleRecord slot = _
    rw [singleRecord, if_neg hcert, if_neg hserver]
  · cases h.symm.trans habc

theorem scan_written {rs : List RevocationRecord} (h : Written rs) :
    rmrrTriples.scan (rs.flatMap fun r => slots (encodeRevocationRecord r)) = rs := by
  refine Triples.scan_rows (fun r hr => row_of_fits (h.fits r hr)) ?_
  intro r₁ r₂ r₃ a b c hwithin ha hb hc
  rw [Option.eq_none_iff_forall_ne_some]
  intro z hz
  obtain ⟨⟨hpart1, hpart2, hpart3⟩, -⟩ := joinRmrr_eq_some.mp hz
  have hfits : ∀ r ∈ [r₁, r₂, r₃], r.Fits := fun r hr => h.fits r (hwithin.subset hr)
  simp only [List.forall_mem_cons] at hfits
  obtain ⟨hr₁, hr₂, hr₃, -⟩ := hfits
  have h₁ := eq_unknown_of_row hr₁ ha (by rw [hpart1]; decide) (by rw [hpart1]; decide)
  have h₂ := eq_unknown_of_row hr₂ hb (by rw [hpart2]; decide) (by rw [hpart2]; decide)
  have h₃ := eq_unknown_of_row hr₃ hc (by rw [hpart3]; decide) (by rw [hpart3]; decide)
  rw [h₁, h₂, h₃] at hwithin
  exact h.apart _ _ _ a b c hwithin ⟨hpart1, hpart2, hpart3⟩

/-- The record loop is exact: it reads what was written, and nothing else. -/
theorem parseRevocationRecordSet_exact {bytes : List UInt8} {rs : List RevocationRecord} :
    parseRevocationRecordSet bytes = .ok rs ↔ Written rs ∧ bytes =
      rs.flatMap encodeRevocationRecord := by
  constructor
  · intro h
    obtain ⟨_, hlen, -⟩ := Outcome.bind_eq_ok.mp h
    rw [Outcome.refuseIf_eq_ok, not_not] at hlen
    refine ⟨?_, (encode_parseRevocationRecordSet h).symm⟩
    rw [parseRevocationRecordSet_slots hlen] at h
    obtain rfl := Outcome.ok.inj h
    exact written_scan _
  · rintro ⟨hwritten, rfl⟩
    have hlen : (rs.flatMap encodeRevocationRecord).length % 8 = 0 := by
      rw [encode_slots, length_flatMap_const fun (a : Bytes 8) _ => a.length_toList]
      exact Nat.mul_mod_left _ _
    rw [parseRevocationRecordSet_slots hlen]
    conv_lhs => rw [encode_slots, slots_flatMap, scan_written hwritten]

end Crl

namespace CrlSegment

/-- The size counts the slots of the records, the two fields around them and nothing else. -/
structure Fits (s : CrlSegment) : Prop where
  size : s.segmentSize.toNat = 44 + 8 * (s.records.map Crl.slotCount).sum
  records : Crl.Written s.records

theorem length_bytes_slots (s : CrlSegment) : s.bytes.length = 44 + 8 *
    (s.records.map Crl.slotCount).sum := by
  rw [length_bytes, List.length_flatMap, ← List.sum_map_mul_left]
  simp only [Crl.length_encode]

theorem fits_iff {s : CrlSegment} : s.Fits ↔ s.WellFormed := by
  constructor
  · intro h
    exact ⟨h.size.trans s.length_bytes_slots.symm,
      Crl.parseRevocationRecordSet_exact.mpr ⟨h.records, rfl⟩⟩
  · intro h
    exact ⟨h.size.trans s.length_bytes_slots, (Crl.parseRevocationRecordSet_exact.mp h.records).1⟩

end CrlSegment

namespace ContentRevocationList

open Crl

/-- Two nibbles, as many segments as counted, at least one, and a first one of limited size. -/
structure Fits (c : ContentRevocationList) : Prop where
  listType : c.listType &&& 0x0F = c.listType
  reservedNibble : c.reservedNibble &&& 0x0F = c.reservedNibble
  numberOfSegments : c.numberOfSegments ≠ 0
  count : c.segments.length = c.numberOfSegments.toNat
  first : FirstFits c.segments
  segments : ∀ seg ∈ c.segments, seg.Fits

theorem fits_iff {c : ContentRevocationList} : c.Fits ↔ c.WellFormed := by
  constructor
  · rintro ⟨hlist, hnibble, hne, hcount, hfirst, hsegs⟩
    exact ⟨hlist, hnibble, hne, hcount, hfirst, fun seg hseg => CrlSegment.fits_iff.mp
      (hsegs seg hseg)⟩
  · rintro ⟨hlist, hnibble, hne, hcount, hfirst, hsegs⟩
    exact ⟨hlist, hnibble, hne, hcount, hfirst, fun seg hseg => CrlSegment.fits_iff.mpr
      (hsegs seg hseg)⟩

theorem parse_eq_ok_iff_fits {bytes : List UInt8} {c : ContentRevocationList} :
    parse bytes = .ok c ↔ c.Fits ∧ ∃ zeros, bytes = c.toBytes ++ zeros ∧ ∀ b ∈ zeros, b = 0 := by
  rw [parse_eq_ok, fits_iff]

/-- The parser of a list and that of its record sets accept exactly what fits, as it is
written, and zeros behind a list. -/
theorem list_exact :
    (∀ (set : List UInt8) (rs : List RevocationRecord), parseRevocationRecordSet set = .ok rs ↔
      Written rs ∧ set = rs.flatMap encodeRevocationRecord) ∧
    ∀ (bytes : List UInt8) (c : ContentRevocationList), parse bytes = .ok c ↔
      c.Fits ∧ ∃ zeros, bytes = c.toBytes ++ zeros ∧ ∀ b ∈ zeros, b = 0 :=
  ⟨fun _ _ => parseRevocationRecordSet_exact, fun _ _ => parse_eq_ok_iff_fits⟩

end ContentRevocationList
