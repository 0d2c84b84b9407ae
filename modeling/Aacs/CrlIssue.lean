import Aacs.CrlExact

/-!
# Issuing a Content Revocation List

A list is issued segment by segment, each signed over all that stands before its
signature. What was signed can be read in one way only: a list with one of its
signatures says what the register says.
-/
namespace ContentRevocationList

open Crl

theorem eq_of_unsignedBytes {s s' : CrlSegment} (hs : s.Fits) (hs' : s'.Fits)
    (h : s.unsignedBytes = s'.unsignedBytes) : s.segmentSize = s'.segmentSize ∧ s.records =
      s'.records := by
  obtain ⟨hsize, hrecords⟩ := List.append_inj h rfl
  have hparse := parseRevocationRecordSet_exact.mpr ⟨hs.records, rfl⟩
  rw [hrecords, parseRevocationRecordSet_exact.mpr ⟨hs'.records, rfl⟩] at hparse
  exact ⟨u32ToBe_inj.mp hsize, (Outcome.ok.inj hparse).symm⟩

theorem eq_of_bytes {s s' : CrlSegment} (hs : s.Fits) (hs' : s'.Fits) (h : s.bytes = s'.bytes) :
    s = s' := by
  have hlen := congrArg List.length h
  rw [CrlSegment.bytes, CrlSegment.bytes, List.length_append, List.length_append,
    Bytes.length_toList, Bytes.length_toList] at hlen
  obtain ⟨hunsigned, hsig⟩ := List.append_inj h (Nat.add_right_cancel hlen)
  obtain ⟨hsize, hrecords⟩ := eq_of_unsignedBytes hs hs' hunsigned
  obtain ⟨size, records, sig⟩ := s
  obtain ⟨size', records', sig'⟩ := s'
  obtain rfl := Bytes.ext_iff.mpr hsig
  obtain rfl : size = size' := hsize
  obtain rfl : records = records' := hrecords
  rfl

/-- What stands before a signature begins with the size of its first segment. -/
theorem take_signedSegments {segs : List CrlSegment} {k : Nat} {seg : CrlSegment} :
    (signedSegments (seg :: segs) k).take 4 = u32ToBe seg.segmentSize := by
  cases k with
  | zero => exact List.take_left' (length_u32ToBe _)
  | succ k =>
    rw [signedSegments, CrlSegment.bytes, CrlSegment.unsignedBytes, List.append_assoc,
      List.append_assoc]
    exact List.take_left' (length_u32ToBe _)

/-- The bytes before a signature are those of one segment of one list only. -/
theorem signedSegments_inj {segs segs' : List CrlSegment} {k k' : Nat}
    (hsegs : ∀ seg ∈ segs, seg.Fits)
    (hsegs' : ∀ seg ∈ segs', seg.Fits) (hk : k < segs.length) (hk' : k' < segs'.length)
    (h : signedSegments segs k = signedSegments segs' k') :
    k = k' ∧ segs.take k = segs'.take k ∧
      (segs.take (k + 1)).map (·.records) = (segs'.take (k + 1)).map (·.records) := by
  induction segs generalizing k segs' k' with
  | nil => cases hk
  | cons seg segs ih =>
    cases segs' with
    | nil => cases hk'
    | cons seg' segs' =>
      obtain ⟨hseg, htail⟩ := List.forall_mem_cons.mp hsegs
      obtain ⟨hseg', htail'⟩ := List.forall_mem_cons.mp hsegs'
      have hsize : seg.segmentSize = seg'.segmentSize := by
        have htake := congrArg (List.take 4) h
        rw [take_signedSegments, take_signedSegments] at htake
        exact u32ToBe_inj.mp htake
      have hlen : seg.bytes.length = seg'.bytes.length := by
        rw [seg.length_bytes_slots, seg'.length_bytes_slots, ← hseg.size, ← hseg'.size, hsize]
      have hshort : ∀ s : CrlSegment, s.unsignedBytes.length + 40 = s.bytes.length := by
        intro s
        rw [CrlSegment.bytes, List.length_append, Bytes.length_toList]
      have h₁ := hshort seg
      have h₂ := hshort seg'
      cases k with
      | zero =>
        cases k' with
        | zero =>
          obtain ⟨-, hrecords⟩ := eq_of_unsignedBytes hseg hseg' h
          exact ⟨rfl, rfl, by simp [hrecords]⟩
        | succ k' =>
          have hall := congrArg List.length h
          rw [signedSegments, signedSegments, List.length_append] at hall
          omega
      | succ k =>
        cases k' with
        | zero =>
          have hall := congrArg List.length h
          rw [signedSegments, signedSegments, List.length_append] at hall
          omega
        | succ k' =>
          rw [signedSegments, signedSegments] at h
          obtain ⟨hbytes, hrest⟩ := List.append_inj h hlen
          obtain rfl := eq_of_bytes hseg hseg' hbytes
          obtain ⟨rfl, hbefore, hrecords⟩ := ih htail htail' (Nat.lt_of_succ_lt_succ hk)
            (Nat.lt_of_succ_lt_succ hk') hrest
          refine ⟨rfl, ?_, ?_⟩
          · rw [List.take_succ_cons, List.take_succ_cons, hbefore]
          · rw [List.take_succ_cons, List.take_succ_cons, List.map_cons, List.map_cons, hrecords]

theorem signedRangeForSegment_eq_some {c : ContentRevocationList} {k : Nat} {payload : List UInt8} :
    c.signedRangeForSegment k = some payload ↔
      k < c.segments.length ∧ c.headerBytes ++ signedSegments c.segments k = payload := by
  rw [signedRangeForSegment]
  split
  · next h => exact iff_of_false (by simp) fun hk => absurd hk.1 (Nat.not_lt.mpr h)
  · next h => rw [Option.some.injEq, and_iff_right (Nat.not_le.mp h)]

theorem verifySegmentSignature_eq_ok {c : ContentRevocationList} {k : Nat} {aacsLaPub : Point} :
    c.verifySegmentSignature k aacsLaPub = .ok () ↔ ∃ seg, c.segments[k]? = some seg ∧
      Ecdsa.verify aacsLaPub seg.signature (c.headerBytes ++ signedSegments c.segments k) = true :=
  by
  simp only [verifySegmentSignature, Outcome.bind_eq_ok, Outcome.okOr_eq_ok, Outcome.expect_eq_ok,
    Outcome.refuseIf_eq_ok, signedRangeForSegment_eq_some, Bool.not_eq_false]
  constructor
  · rintro ⟨payload, ⟨-, rfl⟩, seg, hseg, hverify⟩
    exact ⟨seg, hseg, hverify⟩
  · rintro ⟨seg, hseg, hverify⟩
    exact ⟨_, ⟨(List.getElem?_eq_some_iff.mp hseg).1, rfl⟩, seg, hseg, hverify⟩

theorem headerBytes_inj {c c' : ContentRevocationList} (hc : c.Fits) (hc' : c'.Fits)
    (h : c.headerBytes = c'.headerBytes) : c.listType = c'.listType ∧ c.reservedNibble =
      c'.reservedNibble ∧
      c.listVersion = c'.listVersion ∧ c.numberOfSegments = c'.numberOfSegments := by
  obtain ⟨htype, hnibble⟩ := headerByte_split hc.listType hc.reservedNibble
  obtain ⟨htype', hnibble'⟩ := headerByte_split hc'.listType hc'.reservedNibble
  obtain ⟨hfront, hcount⟩ := List.append_inj h rfl
  obtain ⟨hbyte, hversion⟩ := List.append_inj hfront rfl
  have hbyte := List.singleton_inj.mp hbyte
  refine ⟨?_, ?_, ?_, List.singleton_inj.mp hcount⟩
  · rw [← htype, ← htype', hbyte]
  · rw [← hnibble, ← hnibble', hbyte]
  · have hword := congrArg beNat hversion
    rw [beNat_u16ToBe, beNat_u16ToBe] at hword
    exact UInt16.toNat_inj.mp hword

/-- What a signature stands behind: the header, how many segments there are, and those up
to the signature. -/
theorem signedRange_inj {c c' : ContentRevocationList} (hc : c.Fits) (hc' : c'.Fits) {k k' : Nat}
    {payload : List UInt8} (h : c.signedRangeForSegment k = some payload)
    (h' : c'.signedRangeForSegment k' = some payload) :
    k' = k ∧ c'.listType = c.listType ∧ c'.listVersion = c.listVersion ∧
      c'.segments.length = c.segments.length ∧ c'.segments.take k = c.segments.take k ∧
      (c'.segments.take (k + 1)).map (·.records) = (c.segments.take (k + 1)).map (·.records) := by
  obtain ⟨hk, rfl⟩ := signedRangeForSegment_eq_some.mp h
  obtain ⟨hk', hpayload⟩ := signedRangeForSegment_eq_some.mp h'
  obtain ⟨hheader, hsegs⟩ := List.append_inj hpayload rfl
  obtain ⟨htype, -, hversion, hcount⟩ := headerBytes_inj hc' hc hheader
  obtain ⟨rfl, hbefore, hrecords⟩ := signedSegments_inj hc'.segments hc.segments hk' hk hsegs
  exact ⟨rfl, htype, hversion, by rw [hc'.count, hc.count, hcount], hbefore, hrecords⟩

/-- What the authority bars: the records of each segment of a list. -/
structure Register where
  listType : UInt8
  listVersion : UInt16
  sets : List (List RevocationRecord)
  listType_nibble : listType &&& 0x0F = listType
  sets_ne : sets ≠ []
  sets_length : sets.length < 256
  written : ∀ rs ∈ sets, Written rs
  size_lt : ∀ rs ∈ sets, 44 + 8 * (rs.map slotCount).sum < 2 ^ 32
  first : ∀ rs ∈ sets.head?, 44 + 8 * (rs.map slotCount).sum ≤ segment1SizeMax

namespace Register

/-- The range from one id on, both ends belong to it. -/
def Covers (start : Bytes 6) (range : UInt16) (id : Bytes 6) : Prop :=
  beNat start.toList ≤ beNat id.toList ∧ beNat id.toList ≤ beNat start.toList + range.toNat

def records (r : Register) : List RevocationRecord := r.sets.flatten

/-- A range of certificates, or a medium barred for one certificate. -/
def BarsCertificate (r : Register) (id : Bytes 6) : Prop :=
  (∃ range start, .contentCertificateId range start ∈ r.records ∧ Covers start.bytes range id) ∨
    ∃ rmrr, .recordableMedia rmrr ∈ r.records ∧ rmrr.iccid = false ∧
      rmrr.contentCertificateId = ⟨id⟩

def BarsServer (r : Register) (id : Bytes 6) : Prop :=
  ∃ range start, .managedCopyServerCertificateId range start ∈ r.records ∧
    Covers start.bytes range id

/-- A medium, for all certificates or for one. -/
def BarsMedium (r : Register) (mediaType : RecordableMediaType) (mediaId : Bytes 16)
    (id : Bytes 6) : Prop :=
  ∃ rmrr, .recordableMedia rmrr ∈ r.records ∧ rmrr.mediaType = mediaType ∧ rmrr.mediaId = mediaId ∧
    (rmrr.iccid = true ∨ rmrr.contentCertificateId = ⟨id⟩)

/-- A list answers every query as the register does. -/
structure AnsweredBy (r : Register) (c : ContentRevocationList) : Prop where
  certificate : ∀ id, c.isContentCertificateIdRevoked ⟨id⟩ = true ↔ r.BarsCertificate id
  server : ∀ id, c.isManagedCopyServerIdRevoked ⟨id⟩ = true ↔ r.BarsServer id
  medium : ∀ mediaType mediaId id, c.recordableMediaRevoked mediaType mediaId ⟨id⟩ = true ↔
    r.BarsMedium mediaType mediaId id

theorem covers_iff {start id : Bytes 6} {range : UInt16} :
    idInRange id start range = true ↔ Covers start range id := by
  rw [idInRange, Bool.and_eq_true, decide_eq_true_eq, decide_eq_true_eq, Covers]

theorem answeredBy_of_records {r : Register} {c : ContentRevocationList}
    (h : c.records = r.records) :
    r.AnsweredBy c where
  certificate id := by
    rw [isContentCertificateIdRevoked, h, List.any_eq_true, BarsCertificate]
    constructor
    · rintro ⟨x, hx, hquery⟩
      cases x with
      | contentCertificateId range start => exact .inl ⟨range, start, hx, covers_iff.mp hquery⟩
      | recordableMedia rmrr =>
        simp only [RevocationRecord.revokesContentCertificateId, Bool.not_eq_true',
          Bool.if_false_right, Bool.and_eq_true, decide_eq_true_eq] at hquery
        exact .inr ⟨rmrr, hx, hquery⟩
      | managedCopyServerCertificateId range start => cases hquery
      | unknown type slot => cases hquery
    · rintro (⟨range, start, hx, hcovers⟩ | ⟨rmrr, hx, hflag, hid⟩)
      · exact ⟨_, hx, covers_iff.mpr hcovers⟩
      · exact ⟨_, hx, by simp [RevocationRecord.revokesContentCertificateId, hflag, hid]⟩
  server id := by
    rw [isManagedCopyServerIdRevoked, h, List.any_eq_true, BarsServer]
    constructor
    · rintro ⟨x, hx, hquery⟩
      cases x with
      | managedCopyServerCertificateId range start => exact ⟨range, start, hx, covers_iff.mp hquery⟩
      | contentCertificateId range start => cases hquery
      | recordableMedia rmrr => cases hquery
      | unknown type slot => cases hquery
    · rintro ⟨range, start, hx, hcovers⟩
      exact ⟨_, hx, covers_iff.mpr hcovers⟩
  medium mediaType mediaId id := by
    rw [recordableMediaRevoked, h, List.any_eq_true, BarsMedium]
    constructor
    · rintro ⟨x, hx, hquery⟩
      cases x with
      | recordableMedia rmrr => exact ⟨rmrr, hx, by simpa using hquery⟩
      | contentCertificateId range start => cases hquery
      | managedCopyServerCertificateId range start => cases hquery
      | unknown type slot => cases hquery
    · rintro ⟨rmrr, hx, hmatch⟩
      exact ⟨_, hx, by simpa using hmatch⟩

/-- A segment with its size. -/
def segment (rs : List RevocationRecord) (sig : Ecdsa.Signature) : CrlSegment :=
  ⟨UInt32.ofNat (44 + 8 * (rs.map slotCount).sum), rs, sig⟩

variable (aes : Aes128)

/-- The segments behind `signed`, each with the signature over all before it. -/
def signSegments (d : U160) : List UInt8 → List (List RevocationRecord) → Result (List CrlSegment)
  | _, [] => pure []
  | signed, rs :: sets => do
    let sig ← Ecdsa.sign aes d (signed ++ (segment rs (Bytes.zero 40)).unsignedBytes)
    let segs ← signSegments d (signed ++ (segment rs sig).bytes) sets
    pure (segment rs sig :: segs)

/-- The list without its segments. -/
def header (r : Register) : ContentRevocationList :=
  ⟨r.listType, 0, r.listVersion, UInt8.ofNat r.sets.length, []⟩

def issue (r : Register) (d : U160) : Result ContentRevocationList := do
  let segments ← signSegments aes d r.header.headerBytes r.sets
  pure { r.header with segments }

variable {aes} {d : U160}

/-- Each signature verifies over what stands before it, and the records are the sets. -/
theorem signSegments_ok (hd : Ecdsa.InRange d) {signed : List UInt8}
    {sets : List (List RevocationRecord)}
    {segs : List CrlSegment} (h : signSegments aes d signed sets = .ok segs) :
    segs.map (·.records) = sets ∧ (∀ seg ∈ segs, ∃ rs ∈ sets, ∃ sig, seg = segment rs sig) ∧
      ∀ k seg, segs[k]? = some seg →
        Ecdsa.verify (Ecdsa.publicKey d) seg.signature
          (signed ++ signedSegments segs k) = true := by
  induction sets generalizing signed segs with
  | nil =>
    obtain rfl := Outcome.ok.inj h
    exact ⟨rfl, fun _ h => absurd h List.not_mem_nil, fun k seg hk => by cases hk⟩
  | cons rs sets ih =>
    rw [signSegments, Outcome.bind_eq_ok] at h
    obtain ⟨sig, hsig, h⟩ := h
    obtain ⟨rest, hrest, h⟩ := Outcome.bind_eq_ok.mp h
    obtain rfl := Outcome.ok.inj h
    obtain ⟨hrecords, hsegments, hverify⟩ := ih hrest
    refine ⟨?_, ?_, ?_⟩
    · rw [List.map_cons, hrecords]
      rfl
    · rw [List.forall_mem_cons]
      refine ⟨⟨rs, List.mem_cons_self, sig, rfl⟩, fun seg hseg => ?_⟩
      obtain ⟨rs', hrs', hseg⟩ := hsegments seg hseg
      exact ⟨rs', List.mem_cons_of_mem _ hrs', hseg⟩
    · intro k seg hk
      cases k with
      | zero =>
        obtain rfl := Option.some.inj hk
        exact Ecdsa.sign_verifies hd hsig
      | succ k =>
        rw [signedSegments, ← List.append_assoc]
        exact hverify k seg hk

theorem fits_segment {rs : List RevocationRecord} (hwritten : Written rs)
    (hsize : 44 + 8 * (rs.map slotCount).sum < 2 ^ 32) (sig : Ecdsa.Signature) :
    (segment rs sig).Fits where
  size := UInt32.toNat_ofNat_of_lt' hsize
  records := hwritten

/-- What is issued fits, and all its signatures verify. -/
theorem issue_ok {r : Register} {c : ContentRevocationList} (hd : Ecdsa.InRange d)
    (h : r.issue aes d = .ok c) :
    c.Fits ∧ c.listType = r.listType ∧ c.listVersion = r.listVersion ∧ c.segments.map
      (·.records) = r.sets ∧
      ∀ k < c.segments.length, c.verifySegmentSignature k (Ecdsa.publicKey d) = .ok () := by
  rw [issue, Outcome.bind_eq_ok] at h
  obtain ⟨segs, hsegs, hc⟩ := h
  obtain rfl := Outcome.ok.inj hc
  obtain ⟨hrecords, hsegments, hverify⟩ := signSegments_ok hd hsegs
  have hlen : segs.length = r.sets.length := by rw [← hrecords, List.length_map]
  have hcount : (UInt8.ofNat r.sets.length).toNat = r.sets.length :=
    UInt8.toNat_ofNat_of_lt' r.sets_length
  have hpos : 0 < r.sets.length := List.length_pos_iff.mpr r.sets_ne
  have hfits : ∀ seg ∈ segs, seg.Fits := by
    intro seg hseg
    obtain ⟨rs, hrs, sig, rfl⟩ := hsegments seg hseg
    exact fits_segment (r.written rs hrs) (r.size_lt rs hrs) sig
  have hfirst : FirstFits segs := by
    cases segs with
    | nil => trivial
    | cons seg rest =>
      have hhead : seg.records ∈ r.sets.head? := by
        rw [← hrecords]
        rfl
      rw [FirstFits, (hfits seg List.mem_cons_self).size]
      exact r.first seg.records hhead
  refine ⟨⟨r.listType_nibble, UInt8.zero_and, ?_, hlen.trans hcount.symm, hfirst, hfits⟩, rfl, rfl,
    hrecords, ?_⟩
  · intro hzero
    have hzero : UInt8.ofNat r.sets.length = 0 := hzero
    rw [hzero] at hcount
    exact absurd hcount.symm (Nat.ne_of_gt hpos)
  · intro k hk
    have hseg := List.getElem?_eq_getElem hk
    exact verifySegmentSignature_eq_ok.mpr ⟨segs[k], hseg, hverify k _ hseg⟩

end Register

open Register

/-- A list issued for a register is accepted, with any padding, all its signatures verify,
and it answers as the register. A list that is accepted and carries the bytes of one of these
signatures is of the same version, has as many segments and the same records up to it; where
it is the last one, it answers as the register too. -/
theorem issued_exact (aes : Aes128) (d : U160) (r : Register) (c : ContentRevocationList)
    (hd : Ecdsa.InRange d) (h : r.issue aes d = .ok c) :
    (∀ zeros : List UInt8, (∀ b ∈ zeros, b = 0) → parse (c.toBytes ++ zeros) = .ok c) ∧
      c.verifyAllSegments (Ecdsa.publicKey d) = .ok () ∧
      c.verifyLastSegmentSignature (Ecdsa.publicKey d) = .ok () ∧ r.AnsweredBy c ∧
      ∀ (bytes : List UInt8) (c' : ContentRevocationList) (k k' : Nat) (payload : List UInt8),
        parse bytes = .ok c' →
        c.signedRangeForSegment k = some payload → c'.signedRangeForSegment k' = some payload →
        k' = k ∧ c'.listVersion = r.listVersion ∧ c'.segments.length = r.sets.length ∧
          (c'.segments.take (k' + 1)).map (·.records) = r.sets.take (k' + 1) ∧
          (k' + 1 = c'.segments.length → r.AnsweredBy c') := by
  obtain ⟨hfits, htype, hversion, hrecords, hverify⟩ := issue_ok hd h
  have hlen : c.segments.length = r.sets.length := by rw [← hrecords, List.length_map]
  have hanswers : ∀ {c' : ContentRevocationList}, c'.segments.map (·.records) = r.sets →
      r.AnsweredBy c' := by
    intro c' hc'
    apply answeredBy_of_records
    rw [records, Register.records, ← hc', List.flatMap_def]
  refine ⟨fun zeros hzeros => parse_eq_ok_iff_fits.mpr ⟨hfits, zeros, rfl, hzeros⟩, ?_, ?_,
    hanswers hrecords, ?_⟩
  · rw [verifyAllSegments, Outcome.forM_eq_ok]
    exact fun k hk => hverify k (List.mem_range.mp hk)
  · have hpos : 0 < c.segments.length := by
      rw [hlen]
      exact List.length_pos_iff.mpr r.sets_ne
    rw [verifyLastSegmentSignature, Outcome.refuseIf_neg (List.ne_nil_of_length_pos hpos),
      Outcome.bind_ok]
    exact hverify _ (Nat.sub_lt hpos Nat.one_pos)
  · intro bytes c' k k' payload hparse hpayload hpayload'
    obtain ⟨hfits', -⟩ := parse_eq_ok_iff_fits.mp hparse
    obtain ⟨rfl, -, hversion', hlen', -, hsame⟩ := signedRange_inj hfits hfits' hpayload hpayload'
    have htake : (c'.segments.take (k' + 1)).map (·.records) = r.sets.take (k' + 1) := by
      rw [hsame, ← hrecords, List.map_take]
    refine ⟨rfl, hversion'.trans hversion, hlen'.trans hlen, htake, fun hlast => hanswers ?_⟩
    rw [hlast, List.take_length, hlen', hlen, List.take_length] at htake
    exact htake

/-- One segment that bars six certificates. -/
def oneRange : Register where
  listType := 0
  listVersion := 1
  sets := [[.contentCertificateId 5 ⟨Bytes.zero 6⟩]]
  listType_nibble := rfl
  sets_ne := List.cons_ne_nil _ _
  sets_length := by decide
  written rs hrs := by
    obtain rfl := List.mem_singleton.mp hrs
    refine ⟨fun r hr => ?_, fun t₁ t₂ t₃ a b c hwithin => ?_⟩
    · obtain rfl := List.mem_singleton.mp hr
      exact (by decide : (5 : UInt16).toNat < 4096)
    · exact absurd hwithin.length_le (by simp)
  size_lt rs hrs := by
    obtain rfl := List.mem_singleton.mp hrs
    decide
  first rs hrs := by
    obtain rfl := Option.some.inj hrs
    decide

theorem issued_exact_oneRange : ∃ c, oneRange.issue Aes128.fips197 U160.one = .ok c ∧
    (∀ zeros : List UInt8, (∀ b ∈ zeros, b = 0) → parse (c.toBytes ++ zeros) = .ok c) ∧
      c.verifyAllSegments (Ecdsa.publicKey U160.one) = .ok () ∧
      c.verifyLastSegmentSignature (Ecdsa.publicKey U160.one) = .ok () ∧ oneRange.AnsweredBy c ∧
      ∀ (bytes : List UInt8) (c' : ContentRevocationList) (k k' : Nat) (payload : List UInt8),
        parse bytes = .ok c' →
        c.signedRangeForSegment k = some payload → c'.signedRangeForSegment k' = some payload →
        k' = k ∧ c'.listVersion = oneRange.listVersion ∧ c'.segments.length = oneRange.sets.length ∧
          (c'.segments.take (k' + 1)).map (·.records) = oneRange.sets.take (k' + 1) ∧
          (k' + 1 = c'.segments.length → oneRange.AnsweredBy c') := by
  obtain ⟨sig, hsig⟩ :=
    Ecdsa.sign_one (ε := AacsError) (by decide +kernel : Ecdsa.signable Aes128.fips197 1
    (oneRange.header.headerBytes ++
      (segment [.contentCertificateId 5 ⟨Bytes.zero 6⟩] (Bytes.zero 40)).unsignedBytes) = true)
  have hissue : ∃ c, oneRange.issue Aes128.fips197 U160.one = .ok c := by
    refine ⟨_,
      Outcome.bind_eq_ok.mpr ⟨[segment [.contentCertificateId 5 ⟨Bytes.zero 6⟩] sig], ?_, rfl⟩⟩
    exact Outcome.bind_eq_ok.mpr ⟨sig, hsig, rfl⟩
  obtain ⟨c, hc⟩ := hissue
  exact ⟨c, hc, issued_exact Aes128.fips197 U160.one oneRange c Ecdsa.inRange_one hc⟩

end ContentRevocationList
