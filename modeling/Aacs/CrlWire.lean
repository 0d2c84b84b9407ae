import Aacs.Crl

/-!
# The bytes of a Content Revocation List

What is parsed is written back byte for byte, and it is accepted again. The
parser accepts exactly the well-formed lists, each followed by zeros.
-/
namespace Crl

theorem recordType_eq (b : UInt8) : (recordType b <<< 4) ||| (b &&& 0x0F) = b :=
  byte_cases (p := fun b => (recordType b <<< 4) ||| (b &&& 0x0F) = b) (by decide +kernel) b

theorem and_nibble (b : UInt8) : b &&& 0x0F &&& 0x0F = b &&& 0x0F := by
  rw [UInt8.and_assoc]
  rfl

/-- The first byte of a media record: type, flag and media type. -/
theorem mediaByte_eq (b : UInt8) (h : recordType b = recordTypeRmrrPart1) :
    (recordTypeRmrrPart1 <<< 4) ||| (if (b &&& 0x08 ≠ 0 : Bool) then 0x08 else 0x00) |||
      ((RecordableMediaType.fromU3 (b &&& 0x07)).toU3 &&& 0x07) = b := by
  revert h
  exact byte_cases (p := fun b => recordType b = recordTypeRmrrPart1 →
    (recordTypeRmrrPart1 <<< 4) ||| (if (b &&& 0x08 ≠ 0 : Bool) then 0x08 else 0x00) |||
      ((RecordableMediaType.fromU3 (b &&& 0x07)).toU3 &&& 0x07) = b) (by decide +kernel) b

theorem or_and_nibble (a b : UInt8) : (a ||| b) &&& 0x0F = (a &&& 0x0F) ||| (b &&& 0x0F) := by
  rw [← UInt8.toBitVec_inj]
  simp [BitVec.and_or_distrib_right]

theorem high_nibble (a : UInt8) : ((a &&& 0x0F) <<< 4) >>> 4 &&& 0x0F = a &&& 0x0F ∧
    ((a &&& 0x0F) <<< 4) &&& 0x0F = 0 ∧ (a &&& 0x0F) >>> 4 = 0 :=
  byte_cases (p := fun a => ((a &&& 0x0F) <<< 4) >>> 4 &&& 0x0F = a &&& 0x0F ∧
    ((a &&& 0x0F) <<< 4) &&& 0x0F = 0 ∧ (a &&& 0x0F) >>> 4 = 0) (by decide +kernel) a

/-- A byte put together from two nibbles gives both back. -/
theorem splitNibbles (a b : UInt8) :
    (((a &&& 0x0F) <<< 4) ||| (b &&& 0x0F)) >>> 4 &&& 0x0F = a &&& 0x0F ∧
      (((a &&& 0x0F) <<< 4) ||| (b &&& 0x0F)) &&& 0x0F = b &&& 0x0F := by
  obtain ⟨ha, hlow, -⟩ := high_nibble a
  obtain ⟨-, -, hb⟩ := high_nibble b
  constructor
  · rw [UInt8.shiftRight_or, hb, UInt8.or_zero, ha]
  · rw [or_and_nibble, hlow, and_nibble, UInt8.zero_or]

theorem exists_eight (b : Bytes 8) :
    ∃ b₀ b₁ b₂ b₃ b₄ b₅ b₆ b₇, b = ⟨[b₀, b₁, b₂, b₃, b₄, b₅, b₆, b₇], rfl⟩ := by
  obtain ⟨l, hl⟩ := b
  match l, hl with
  | [b₀, b₁, b₂, b₃, b₄, b₅, b₆, b₇], _ => exact ⟨b₀, b₁, b₂, b₃, b₄, b₅, b₆, b₇, rfl⟩

theorem encodeRangeAndId_decode (slot : Bytes 8) :
    encodeRangeAndId (recordType (slot.get 0)) (decodeRangeAndId slot).1 (decodeRangeAndId slot).2 =
      slot.toList := by
  obtain ⟨b₀, b₁, b₂, b₃, b₄, b₅, b₆, b₇, rfl⟩ := exists_eight slot
  obtain ⟨hhigh, hlow⟩ : (u16FromBe (b₀ &&& 0x0F) b₁ >>> 8).toUInt8 = b₀ &&& 0x0F ∧
      (u16FromBe (b₀ &&& 0x0F) b₁).toUInt8 = b₁ := by
    have hbytes := u16ToBe_fromBe (b₀ &&& 0x0F) b₁
    simpa [u16ToBe] using hbytes
  have hmask : (u16FromBe (b₀ &&& 0x0F) b₁ &&& 0xFF).toUInt8 = b₁ := by
    rw [UInt16.toUInt8_and, hlow]
    exact UInt8.and_neg_one
  change [(recordType b₀ <<< 4) ||| ((u16FromBe (b₀ &&& 0x0F) b₁ >>> 8).toUInt8 &&& 0x0F),
    (u16FromBe (b₀ &&& 0x0F) b₁ &&& 0xFF).toUInt8] ++ [b₂, b₃, b₄, b₅, b₆, b₇] = _
  rw [hhigh, and_nibble, recordType_eq, hmask]
  rfl

theorem encodeRmrr_decode (rec1 rec2 rec3 : Bytes 8)
    (h₁ : recordType (rec1.get 0) = recordTypeRmrrPart1)
    (h₂ : recordType (rec2.get 0) = recordTypeRmrrPart2)
    (h₃ : recordType (rec3.get 0) = recordTypeRmrrPart3) :
    encodeRmrr (decodeRmrr rec1 rec2 rec3) = rec1.toList ++ rec2.toList ++ rec3.toList := by
  obtain ⟨a₀, a₁, a₂, a₃, a₄, a₅, a₆, a₇, rfl⟩ := exists_eight rec1
  obtain ⟨b₀, b₁, b₂, b₃, b₄, b₅, b₆, b₇, rfl⟩ := exists_eight rec2
  obtain ⟨c₀, c₁, c₂, c₃, c₄, c₅, c₆, c₇, rfl⟩ := exists_eight rec3
  obtain ⟨hhigh, hlow⟩ := splitNibbles b₀ c₀
  have hfirst := mediaByte_eq a₀ h₁
  have hsecond : (recordTypeRmrrPart2 <<< 4) ||| (b₀ &&& 0x0F) = b₀ := h₂ ▸ recordType_eq b₀
  have hthird : (recordTypeRmrrPart3 <<< 4) ||| (c₀ &&& 0x0F) = c₀ := h₃ ▸ recordType_eq c₀
  change [(recordTypeRmrrPart1 <<< 4) ||| (if (a₀ &&& 0x08 ≠ 0 : Bool) then 0x08 else 0x00) |||
      ((RecordableMediaType.fromU3 (a₀ &&& 0x07)).toU3 &&& 0x07), a₁, a₂, a₃, a₄, a₅, a₆, a₇,
    (recordTypeRmrrPart2 <<< 4) ||| ((((b₀ &&& 0x0F) <<< 4) ||| (c₀ &&& 0x0F)) >>> 4 &&& 0x0F),
    b₁, b₂, b₃, b₄, b₅, b₆, b₇,
    (recordTypeRmrrPart3 <<< 4) ||| ((((b₀ &&& 0x0F) <<< 4) ||| (c₀ &&& 0x0F)) &&& 0x0F),
    c₁, c₂, c₃, c₄, c₅, c₆, c₇] = _
  rw [hfirst, hhigh, hsecond, hlow, hthird]
  rfl

theorem partIs_eq_true {have3 : Bool} {rest : List UInt8} {i : Nat} {type : UInt8}
    (h : partIs have3 rest i type = .ok true) : ∃ b, rest[i]? = some b ∧ recordType b = type := by
  rw [partIs] at h
  cases have3 with
  | false => cases h
  | true =>
    obtain ⟨b, hb, h⟩ := Outcome.bind_eq_ok.mp h
    exact ⟨b, Outcome.index_eq_ok.mp hb, by simpa using h⟩

/-- The first byte of an array read at an offset. -/
theorem get_zero_of_readArray {rest : List UInt8} {slot : Bytes 8} {off : Nat} {b : UInt8}
    (h : slot.toList = (rest.drop off).take 8) (hb : rest[off]? = some b) : slot.get 0 = b := by
  have hget : slot.toList[0]? = some b := by
    rw [h, List.getElem?_take_of_lt (by decide), List.getElem?_drop]
    exact hb
  obtain ⟨b₀, b₁, b₂, b₃, b₄, b₅, b₆, b₇, rfl⟩ := exists_eight slot
  exact Option.some.inj hget

/-- One pass of the record loop: it takes one item off, and the item is written back as the
bytes taken. -/
theorem recordLoop_cases {rest : List UInt8} {rs : List RevocationRecord}
    (h : recordLoop rest = .ok rs) :
    (rest = [] ∧ rs = []) ∨ ∃ r tail rs', rs = r :: rs' ∧ rest = encodeRevocationRecord r ++ tail ∧
      recordLoop tail = .ok rs' := by
  by_cases h0 : rest.length = 0
  · rw [recordLoop, dif_pos h0] at h
    exact .inl ⟨List.length_eq_zero_iff.mp h0, (Outcome.ok.inj h).symm⟩
  rw [recordLoop, dif_neg h0] at h
  obtain ⟨slot, hslot, h⟩ := Outcome.bind_eq_ok.mp h
  obtain ⟨hlen, hslot⟩ := Outcome.readArray_eq_ok.mp hslot
  rw [List.drop_zero] at hslot
  have hrest : rest = slot.toList ++ rest.drop 8 := by rw [hslot, List.take_append_drop]
  have hencode := encodeRangeAndId_decode slot
  dsimp only at h
  refine .inr ?_
  split at h
  · next htype =>
    obtain ⟨rs', hrs, h⟩ := Outcome.bind_eq_ok.mp h
    rw [htype] at hencode
    exact ⟨_, _, rs', (Outcome.ok.inj h).symm, hrest.trans (congrArg (· ++ _) hencode.symm), hrs⟩
  split at h
  · next htype =>
    obtain ⟨rs', hrs, h⟩ := Outcome.bind_eq_ok.mp h
    rw [htype] at hencode
    exact ⟨_, _, rs', (Outcome.ok.inj h).symm, hrest.trans (congrArg (· ++ _) hencode.symm), hrs⟩
  split at h
  · next htype =>
    obtain ⟨part2Ok, hpart2, h⟩ := Outcome.bind_eq_ok.mp h
    obtain ⟨part3Ok, hpart3, h⟩ := Outcome.bind_eq_ok.mp h
    by_cases hall : (decide (3 * 8 ≤ rest.length) && part2Ok && part3Ok) = true
    · rw [if_pos hall] at h
      simp only [Bool.and_eq_true, decide_eq_true_eq] at hall
      rw [hall.1.2] at hpart2
      rw [hall.2] at hpart3
      obtain ⟨b₂, hb₂, htype₂⟩ := partIs_eq_true hpart2
      obtain ⟨b₃, hb₃, htype₃⟩ := partIs_eq_true hpart3
      obtain ⟨rec1, hrec1, h⟩ := Outcome.bind_eq_ok.mp h
      obtain ⟨rec2, hrec2, h⟩ := Outcome.bind_eq_ok.mp h
      obtain ⟨rec3, hrec3, h⟩ := Outcome.bind_eq_ok.mp h
      obtain ⟨rs', hrs, h⟩ := Outcome.bind_eq_ok.mp h
      have hslot1 : rec1 = slot := by
        rw [Bytes.ext_iff, (Outcome.readArray_eq_ok.mp hrec1).2, hslot, List.drop_zero]
      obtain ⟨-, hrec2⟩ := Outcome.readArray_eq_ok.mp hrec2
      obtain ⟨-, hrec3⟩ := Outcome.readArray_eq_ok.mp hrec3
      refine ⟨_, _, rs', (Outcome.ok.inj h).symm, ?_, hrs⟩
      change rest = encodeRmrr _ ++ _
      rw [encodeRmrr_decode rec1 rec2 rec3 (hslot1 ▸ htype)
        (get_zero_of_readArray hrec2 hb₂ ▸ htype₂)
        (get_zero_of_readArray hrec3 hb₃ ▸ htype₃), hslot1, hslot, hrec2, hrec3]
      have htake : rest.take (8 + 8 + 8) = rest.take 8 ++ (rest.drop 8).take 8 ++
          (rest.drop 16).take 8 := by
        rw [List.take_add, List.take_add]
      rw [← htake, List.take_append_drop]
    · rw [if_neg hall] at h
      obtain ⟨rs', hrs, h⟩ := Outcome.bind_eq_ok.mp h
      exact ⟨_, _, rs', (Outcome.ok.inj h).symm, hrest, hrs⟩
  · obtain ⟨rs', hrs, h⟩ := Outcome.bind_eq_ok.mp h
    exact ⟨_, _, rs', (Outcome.ok.inj h).symm, hrest, hrs⟩

/-- The items of a record set are written back as its bytes. -/
theorem encode_recordLoop {rest : List UInt8} {rs : List RevocationRecord}
    (h : recordLoop rest = .ok rs) :
    rs.flatMap encodeRevocationRecord = rest := by
  induction rs generalizing rest with
  | nil =>
    rcases recordLoop_cases h with ⟨rfl, -⟩ | ⟨r, tail, rs', hrs, -⟩
    · rfl
    · cases hrs
  | cons r rs ih =>
    rcases recordLoop_cases h with ⟨-, hrs⟩ | ⟨r', tail, rs', hrs, hrest, htail⟩
    · cases hrs
    · obtain ⟨rfl, rfl⟩ := List.cons.inj hrs
      rw [List.flatMap_cons, ih htail, hrest]

theorem encode_parseRevocationRecordSet {bytes : List UInt8} {rs : List RevocationRecord}
    (h : parseRevocationRecordSet bytes = .ok rs) : rs.flatMap encodeRevocationRecord = bytes := by
  obtain ⟨_, -, h⟩ := Outcome.bind_eq_ok.mp h
  exact encode_recordLoop h

end Crl

namespace CrlSegment

/-- The size field counts the segment, and the records are the items of their own bytes. -/
structure WellFormed (s : CrlSegment) : Prop where
  size : s.segmentSize.toNat = s.bytes.length
  records : Crl.parseRevocationRecordSet (s.records.flatMap Crl.encodeRevocationRecord) =
    .ok s.records

theorem length_bytes (s : CrlSegment) :
    s.bytes.length = 44 + (s.records.flatMap Crl.encodeRevocationRecord).length := by
  rw [bytes, unsignedBytes, List.length_append, List.length_append, length_u32ToBe,
    Bytes.length_toList]
  omega

end CrlSegment

namespace ContentRevocationList

open Crl

/-- What holds of the first segment only. -/
def FirstFits : List CrlSegment → Prop
  | [] => True
  | seg :: _ => seg.segmentSize.toNat ≤ segment1SizeMax

/-- One segment is read off a byte string that starts with its bytes. -/
theorem segmentLoop_cons {n segmentIndex cursor : Nat} {rest tail : List UInt8} {seg : CrlSegment}
    {segs : List CrlSegment} : segmentLoop (n + 1) segmentIndex cursor rest = .ok
    (seg :: segs, tail) ↔
      seg.WellFormed ∧ (segmentIndex = 0 → seg.segmentSize.toNat ≤ segment1SizeMax) ∧
        ∃ rest', rest = seg.bytes ++ rest' ∧
          segmentLoop n (segmentIndex + 1) (cursor + seg.segmentSize.toNat) rest' = .ok
            (segs, tail) := by
  simp only [segmentLoop, Outcome.bind_eq_ok, Outcome.refuseIf_eq_ok, Outcome.indexU32_eq_ok,
    List.drop_zero, Outcome.slice_eq_ok, Outcome.readArray_eq_ok, exists_const, Nat.not_lt, not_and]
  constructor
  · rintro ⟨hlen, size, hsize, hfirst, hmin, hfit, set, ⟨-, -, hset⟩, records, hrecords, sig,
      ⟨-, hsig⟩, more, hmore, h⟩
    obtain ⟨hseg, htail⟩ := Prod.mk.inj (Outcome.ok.inj h)
    obtain ⟨rfl, rfl⟩ := List.cons.inj hseg
    have hencode := encode_parseRevocationRecordSet hrecords
    have hbytes : CrlSegment.bytes ⟨size, records, sig⟩ = rest.take size.toNat := by
      have htake : rest.take (4 + (size.toNat - 40 - 4) + 40) =
          rest.take 4 ++ (rest.drop 4).take (size.toNat - 40 - 4) ++
            (rest.drop (size.toNat - 40)).take 40 := by
        rw [List.take_add, List.take_add, show 4 + (size.toNat - 40 - 4) = size.toNat - 40 by omega]
      rw [CrlSegment.bytes, CrlSegment.unsignedBytes, hencode, hset, ← hsize, hsig, ← htake]
      congr 1
      omega
    refine ⟨⟨?_, ?_⟩, hfirst, rest.drop size.toNat, ?_, ?_⟩
    · rw [hbytes, List.length_take_of_le (by omega)]
    · rw [hencode]
      exact hrecords
    · rw [hbytes, List.take_append_drop]
    · rw [hmore, ← htail]
  · rintro ⟨⟨hsize, hrecords⟩, hfirst, rest', rfl, hrest⟩
    have hlen := seg.length_bytes
    have hbytes : seg.bytes ++ rest' = u32ToBe seg.segmentSize ++
        (seg.records.flatMap encodeRevocationRecord ++ (seg.signature.toList ++ rest')) := by
      simp only [CrlSegment.bytes, CrlSegment.unsignedBytes, List.append_assoc]
    have hdrop : (seg.bytes ++ rest').drop (seg.segmentSize.toNat - 40) =
        seg.signature.toList ++ rest' := by
      rw [CrlSegment.bytes, List.append_assoc]
      refine List.drop_left' ?_
      rw [hsize, CrlSegment.bytes, List.length_append, Bytes.length_toList, Nat.add_sub_cancel]
    have hall : seg.bytes.length ≤ (seg.bytes ++ rest').length := by
      rw [List.length_append]
      omega
    refine ⟨by omega, seg.segmentSize, ?_, hfirst, by omega, by omega,
      seg.records.flatMap encodeRevocationRecord, ⟨by omega, by omega, ?_⟩, seg.records, hrecords,
      seg.signature, ⟨by omega, ?_⟩, (segs, tail), ?_, rfl⟩
    · rw [hbytes]
      exact List.take_left' (length_u32ToBe _)
    · rw [hbytes, List.drop_left' (length_u32ToBe _)]
      exact (List.take_left' (by omega)).symm
    · rw [hdrop]
      exact (List.take_left' seg.signature.length_toList).symm
    · rw [hsize, List.drop_left' rfl, ← hsize]
      exact hrest

theorem segmentLoop_eq_ok {n segmentIndex cursor : Nat} {rest tail : List UInt8}
    {segs : List CrlSegment} :
    segmentLoop n segmentIndex cursor rest = .ok (segs, tail) ↔
      segs.length = n ∧ (∀ seg ∈ segs, seg.WellFormed) ∧ (segmentIndex = 0 → FirstFits segs) ∧
        rest = segs.flatMap CrlSegment.bytes ++ tail := by
  induction n generalizing segmentIndex cursor rest segs with
  | zero =>
    rw [segmentLoop, List.length_eq_zero_iff]
    constructor
    · intro h
      obtain ⟨rfl, rfl⟩ := Prod.mk.inj (Outcome.ok.inj h)
      exact ⟨rfl, fun _ h => absurd h List.not_mem_nil, fun _ => trivial, rfl⟩
    · rintro ⟨rfl, -, -, rfl⟩
      rfl
  | succ n ih =>
    cases segs with
    | nil =>
      refine iff_of_false (fun h => ?_) (fun h => by simp at h)
      simp only [segmentLoop, Outcome.bind_eq_ok] at h
      obtain ⟨_, _, _, _, _, _, _, _, _, _, _, _, _, _, _, _, _, _, h⟩ := h
      cases (Prod.mk.inj (Outcome.ok.inj h)).1
    | cons seg segs =>
      rw [segmentLoop_cons, List.length_cons, Nat.add_right_cancel_iff, List.forall_mem_cons,
        List.flatMap_cons, List.append_assoc]
      simp only [ih, Nat.add_eq_zero_iff, one_ne_zero, and_false, false_implies,
        true_and, FirstFits]
      constructor
      · rintro ⟨hwf, hfirst, rest', rfl, hcount, hsegs, rfl⟩
        exact ⟨hcount, ⟨hwf, hsegs⟩, hfirst, rfl⟩
      · rintro ⟨hcount, ⟨hwf, hsegs⟩, hfirst, rfl⟩
        exact ⟨hwf, hfirst, _, rfl, hcount, hsegs, rfl⟩

theorem checkPadding_eq_ok {rest : List UInt8} {i : Nat} :
    checkPadding rest i = .ok () ↔ ∀ b ∈ rest, b = 0 := by
  induction rest generalizing i with
  | nil => exact iff_of_true rfl fun _ h => absurd h List.not_mem_nil
  | cons b rest ih =>
    simp only [checkPadding, Outcome.bind_eq_ok, Outcome.refuseIf_eq_ok, exists_const, ih, not_not,
      List.forall_mem_cons]

/-- What the parser accepts. -/
structure WellFormed (c : ContentRevocationList) : Prop where
  listType : c.listType &&& 0x0F = c.listType
  reservedNibble : c.reservedNibble &&& 0x0F = c.reservedNibble
  numberOfSegments : c.numberOfSegments ≠ 0
  count : c.segments.length = c.numberOfSegments.toNat
  first : FirstFits c.segments
  segments : ∀ seg ∈ c.segments, seg.WellFormed

/-- The header byte: list type and reserved nibble. -/
theorem headerByte_eq (b : UInt8) :
    (((b >>> 4) &&& 0x0F) <<< 4) ||| ((b &&& 0x0F) &&& 0x0F) = b := by
  rw [and_nibble]
  exact recordType_eq b

theorem headerByte_split {t r : UInt8} (ht : t &&& 0x0F = t) (hr : r &&& 0x0F = r) :
    (((t <<< 4) ||| (r &&& 0x0F)) >>> 4) &&& 0x0F = t ∧
    ((t <<< 4) ||| (r &&& 0x0F)) &&& 0x0F = r := by
  have h := splitNibbles t r
  rw [ht] at h
  exact ⟨h.1, h.2.trans hr⟩

/-- The parser accepts exactly the well-formed lists, each followed by zeros. -/
theorem parse_eq_ok {bytes : List UInt8} {c : ContentRevocationList} :
    parse bytes = .ok c ↔ c.WellFormed ∧ ∃ zeros, bytes = c.toBytes ++ zeros ∧
      ∀ b ∈ zeros, b = 0 := by
  constructor
  · intro h
    simp only [parse, Outcome.bind_eq_ok, Outcome.refuseIf_eq_ok, Outcome.index_eq_ok,
      Outcome.indexU16_eq_ok, exists_const] at h
    obtain ⟨-, header, hheader, version, hversion, n, hn, hne, ⟨segs, tail⟩, hsegs, _,
      hpadding, hc⟩ := h
    obtain rfl := Outcome.ok.inj hc
    obtain ⟨hcount, hwf, hfirst, hrest⟩ := segmentLoop_eq_ok.mp hsegs
    refine ⟨⟨and_nibble _, and_nibble header, hne, hcount, hfirst rfl, hwf⟩, tail, ?_,
      checkPadding_eq_ok.mp hpadding⟩
    have hhead : bytes.take 4 = [header] ++ u16ToBe version ++ [n] := by
      have hheader' : bytes.take 1 = [header] := Outcome.drop_take_one hheader
      rw [show 4 = 1 + 2 + 1 by rfl, List.take_add, List.take_add, hheader', hversion,
        Outcome.drop_take_one hn]
    rw [toBytes, headerBytes, headerByte_eq, ← hhead, List.append_assoc, ← hrest,
      List.take_append_drop]
  · rintro ⟨hwf, zeros, rfl, hzeros⟩
    obtain ⟨htype, hreserved⟩ := headerByte_split hwf.listType hwf.reservedNibble
    have hsegs : segmentLoop c.numberOfSegments.toNat 0 4
      (c.segments.flatMap CrlSegment.bytes ++ zeros) =
        .ok (c.segments, zeros) :=
      segmentLoop_eq_ok.mpr ⟨hwf.count, hwf.segments, fun _ => hwf.first, rfl⟩
    have hdrop : (c.toBytes ++ zeros).drop 4 = c.segments.flatMap CrlSegment.bytes ++ zeros := rfl
    have hversion : (Outcome.indexU16 (c.toBytes ++ zeros) 1 : Result UInt16) =
        .ok c.listVersion := by
      rw [Outcome.indexU16_eq_ok]
      rfl
    have hheader : (Outcome.index (c.toBytes ++ zeros) 0 : Result UInt8) =
      .ok ((c.listType <<< 4) ||| (c.reservedNibble &&& 0x0F)) := rfl
    have hn : (Outcome.index (c.toBytes ++ zeros) 3 : Result UInt8) = .ok c.numberOfSegments := rfl
    have hlen : ¬(c.toBytes ++ zeros).length < 4 := by
      simp [toBytes, headerBytes]
      omega
    rw [parse, Outcome.refuseIf_neg hlen, hheader, hversion, hn, hdrop]
    simp only [Outcome.bind_ok]
    rw [Outcome.refuseIf_neg hwf.numberOfSegments, Outcome.bind_ok, hsegs, Outcome.bind_ok,
      checkPadding_eq_ok.mpr hzeros, htype, hreserved]
    rfl

/-- Where the signature of segment `k` starts, from the size fields. -/
def signatureOffset (c : ContentRevocationList) (k : Nat) : Nat :=
  4 + ((c.segments.take (k + 1)).map (·.segmentSize.toNat)).sum - 40

theorem signedSegments_eq {segs : List CrlSegment} {k : Nat} {seg : CrlSegment}
    (h : segs[k]? = some seg) :
    signedSegments segs k = (segs.take k).flatMap CrlSegment.bytes ++ seg.unsignedBytes := by
  induction segs generalizing k with
  | nil => cases h
  | cons s segs ih =>
    cases k with
    | zero =>
      obtain rfl := Option.some.inj h
      rfl
    | succ k => rw [signedSegments, ih h, List.take_succ_cons, List.flatMap_cons, List.append_assoc]

theorem length_flatMap_bytes {segs : List CrlSegment} (h : ∀ seg ∈ segs, seg.WellFormed) :
    (segs.flatMap CrlSegment.bytes).length = (segs.map (·.segmentSize.toNat)).sum := by
  induction segs with
  | nil => rfl
  | cons s segs ih =>
    obtain ⟨hs, hsegs⟩ := List.forall_mem_cons.mp h
    rw [List.flatMap_cons, List.length_append, ih hsegs, List.map_cons, List.sum_cons, hs.size]

/-- Wire fidelity: an accepted byte string is the list written back followed by zeros, the
list written back is accepted as the same list, and the bytes a segment's signature is
checked over are those of the input up to it. -/
theorem wire_fidelity (bytes : List UInt8) (c : ContentRevocationList) (h : parse bytes = .ok c) :
    (∃ zeros, bytes = c.toBytes ++ zeros ∧ ∀ b ∈ zeros, b = 0) ∧ parse c.toBytes = .ok c ∧
    ∀ k seg, c.segments[k]? = some seg →
      c.signedRangeForSegment k = some (bytes.take (c.signatureOffset k)) ∧
        (bytes.drop (c.signatureOffset k)).take 40 = seg.signature.toList := by
  obtain ⟨hwf, zeros, rfl, hzeros⟩ := parse_eq_ok.mp h
  refine ⟨⟨zeros, rfl, hzeros⟩, ?_, ?_⟩
  · exact parse_eq_ok.mpr ⟨hwf, [], (List.append_nil _).symm, fun _ h => absurd h List.not_mem_nil⟩
  · intro k seg hk
    obtain ⟨hlt, hget⟩ := List.getElem?_eq_some_iff.mp hk
    have hsplit : c.segments = c.segments.take k ++ seg :: c.segments.drop (k + 1) := by
      rw [← hget, List.cons_getElem_drop_succ, List.take_append_drop]
    have htoBytes : c.toBytes ++ zeros = c.headerBytes ++ signedSegments c.segments k ++
        (seg.signature.toList ++ ((c.segments.drop (k + 1)).flatMap CrlSegment.bytes ++ zeros)) :=
          by
      rw [signedSegments_eq hk, toBytes]
      conv_lhs => rw [hsplit]
      simp only [List.flatMap_append, List.flatMap_cons, CrlSegment.bytes, List.append_assoc]
    have hoffset : c.signatureOffset k = (c.headerBytes ++ signedSegments c.segments k).length := by
      have hsize := (hwf.segments seg (List.mem_of_getElem? hk)).size
      rw [CrlSegment.bytes, List.length_append, Bytes.length_toList] at hsize
      have htake : c.segments.take (k + 1) = c.segments.take k ++ [seg] := by
        rw [List.take_add_one, hk, Option.toList_some]
      rw [signatureOffset, htake, List.map_append, List.sum_append, ← length_flatMap_bytes
        fun s hs => hwf.segments s (List.mem_of_mem_take hs), signedSegments_eq hk,
        List.length_append, List.length_append]
      simp only [headerBytes, List.map_cons, List.map_nil, List.sum_cons, List.sum_nil, hsize,
        List.length_append, List.length_cons, List.length_nil, length_u16ToBe]
      omega
    rw [htoBytes, hoffset, List.drop_left' rfl, List.take_left' rfl]
    refine ⟨?_, List.take_left' seg.signature.length_toList⟩
    rw [signedRangeForSegment, if_neg (Nat.not_le.mpr hlt)]

/-- A range of certificates, a medium in three records, and the second part of a medium alone. -/
def firstSet : List UInt8 :=
  [0x00, 0x05, 0, 0, 0, 0, 1, 0] ++ [0x29, 1, 2, 3, 4, 5, 6, 0xA0] ++
    [0x3B, 8, 9, 10, 11, 12, 13, 14] ++
    [0x4C, 15, 16, 17, 18, 19, 20, 21] ++ [0x3D, 22, 23, 24, 25, 26, 27, 28]

def firstRecords : List RevocationRecord :=
  [.contentCertificateId 5 ⟨⟨[0, 0, 0, 0, 1, 0], rfl⟩⟩,
    .recordableMedia (decodeRmrr ⟨[0x29, 1, 2, 3, 4, 5, 6, 0xA0], rfl⟩
      ⟨[0x3B, 8, 9, 10, 11, 12, 13, 14], rfl⟩ ⟨[0x4C, 15, 16, 17, 18, 19, 20, 21], rfl⟩),
    .unknown 3 ⟨[0x3D, 22, 23, 24, 25, 26, 27, 28], rfl⟩]

/-- A range of servers, and a first part with no other behind it. -/
def secondSet : List UInt8 := [0x1F, 0xFF, 6, 5, 4, 3, 2, 1] ++ [0x20, 1, 2, 3, 4, 5, 6, 7]

def secondRecords : List RevocationRecord :=
  [.managedCopyServerCertificateId 0x0FFF ⟨⟨[6, 5, 4, 3, 2, 1], rfl⟩⟩,
    .unknown 2 ⟨[0x20, 1, 2, 3, 4, 5, 6, 7], rfl⟩]

/-- One item in front of what the rest is read as. -/
theorem recordLoop_item {rest tail : List UInt8} {r : RevocationRecord} {rs : List RevocationRecord}
    (h : recordLoop tail = .ok rs)
    (hstep : recordLoop rest = recordLoop tail >>= fun records => pure (r :: records)) :
    recordLoop rest = .ok (r :: rs) := by
  rw [hstep, h]
  rfl

theorem recordLoop_nil : recordLoop [] = .ok [] := by
  rw [recordLoop]
  rfl

theorem parse_firstSet : parseRevocationRecordSet firstSet = .ok firstRecords := by
  have hpart : recordLoop (firstSet.drop 32) = .ok (firstRecords.drop 2) :=
    recordLoop_item recordLoop_nil (by rw [recordLoop]; rfl)
  have hmedia : recordLoop (firstSet.drop 8) = .ok (firstRecords.drop 1) :=
    recordLoop_item hpart (by rw [recordLoop]; rfl)
  exact recordLoop_item hmedia (by rw [recordLoop]; rfl)

theorem parse_secondSet : parseRevocationRecordSet secondSet = .ok secondRecords := by
  have hpart : recordLoop (secondSet.drop 8) = .ok (secondRecords.drop 1) :=
    recordLoop_item recordLoop_nil (by rw [recordLoop]; rfl)
  exact recordLoop_item hpart (by rw [recordLoop]; rfl)

/-- A list with both record sets, each in a segment of its own. -/
def twoSegments : ContentRevocationList :=
  ⟨0, 0, 1, 2, [⟨84, firstRecords, Bytes.zero 40⟩, ⟨60, secondRecords, Bytes.zero 40⟩]⟩

theorem parse_twoSegments : parse (twoSegments.toBytes ++ [0, 0]) = .ok twoSegments := by
  have hfirst := encode_parseRevocationRecordSet parse_firstSet
  have hsecond := encode_parseRevocationRecordSet parse_secondSet
  have hsegs : ∀ seg ∈ twoSegments.segments, seg.WellFormed := by
    intro seg hseg
    rcases List.mem_cons.mp hseg with rfl | hseg
    · exact ⟨rfl, hfirst ▸ parse_firstSet⟩
    · obtain rfl := List.mem_singleton.mp hseg
      exact ⟨rfl, hsecond ▸ parse_secondSet⟩
  have hsize : (84 : UInt32).toNat ≤ segment1SizeMax := by decide
  exact parse_eq_ok.mpr ⟨⟨by decide, by decide, by decide, rfl, hsize, hsegs⟩, [0, 0], rfl, by simp⟩

theorem wire_fidelity_twoSegments :
    (∃ zeros, twoSegments.toBytes ++ [0, 0] = twoSegments.toBytes ++ zeros ∧ ∀ b ∈ zeros, b = 0) ∧
    parse twoSegments.toBytes = .ok twoSegments ∧
    ∀ k seg, twoSegments.segments[k]? = some seg →
      twoSegments.signedRangeForSegment k =
          some ((twoSegments.toBytes ++ [0, 0]).take (twoSegments.signatureOffset k)) ∧
        ((twoSegments.toBytes ++ [0, 0]).drop (twoSegments.signatureOffset k)).take 40 =
          seg.signature.toList :=
  wire_fidelity _ _ parse_twoSegments

end ContentRevocationList
