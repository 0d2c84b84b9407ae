import Aacs.Crl
import Aacs.Usize

/-!
# The parser of a content revocation list returns

Bounds for the loops over records and segments, and the same loops with a cursor
and checked sums, which compute the same.
-/
namespace ContentRevocationList

open Outcome Crl

theorem returns_partIs {have3 : Bool} {rest : List UInt8} {i : Nat}
    (h : have3 = true → i < rest.length) (type : UInt8) :
    Returns (partIs have3 rest i type) := by
  cases have3 with
  | false => exact returns_ok _
  | true => exact (returns_index (h rfl)).bind fun _ _ => returns_ok _

/-- A whole number of records is read to its end. -/
theorem returns_recordLoop (rest : List UInt8) (h : rest.length % 8 = 0) :
    Returns (recordLoop rest) := by
  induction hn : rest.length using Nat.strong_induction_on generalizing rest with
  | _ n ih =>
    rw [recordLoop]
    by_cases hempty : rest.length = 0
    · rw [dif_pos hempty]
      exact returns_ok _
    rw [dif_neg hempty]
    have hnext : Returns (recordLoop (rest.drop 8)) :=
      ih (rest.drop 8).length (by rw [List.length_drop]; omega) _
        (by rw [List.length_drop]; omega) rfl
    refine (returns_readArray (by omega)).bind fun slot _ => ?_
    dsimp only
    refine Returns.ite (hnext.bind fun _ _ => returns_ok _) ?_
    refine Returns.ite (hnext.bind fun _ _ => returns_ok _) ?_
    refine Returns.ite ?_ (hnext.bind fun _ _ => returns_ok _)
    refine (returns_partIs (fun h3 => ?_) _).bind fun part2Ok _ => ?_
    · have hlen := of_decide_eq_true h3
      omega
    refine (returns_partIs (fun h3 => ?_) _).bind fun part3Ok _ => ?_
    · have hlen := of_decide_eq_true h3
      omega
    by_cases hparts : (decide (3 * 8 ≤ rest.length) && part2Ok && part3Ok) = true
    · have hlen : 3 * 8 ≤ rest.length := by
        rw [Bool.and_eq_true, Bool.and_eq_true] at hparts
        exact of_decide_eq_true hparts.1.1
      have hskip : Returns (recordLoop (rest.drop 24)) :=
        ih (rest.drop 24).length (by rw [List.length_drop]; omega) _
          (by rw [List.length_drop]; omega) rfl
      rw [if_pos hparts]
      exact (returns_readArray (by omega)).bind fun _ _ =>
        (returns_readArray (by omega)).bind fun _ _ =>
        (returns_readArray (by omega)).bind fun _ _ => hskip.bind fun _ _ => returns_ok _
    · rw [if_neg hparts]
      exact hnext.bind fun _ _ => returns_ok _

theorem returns_parseRevocationRecordSet (bytes : List UInt8) :
    Returns (parseRevocationRecordSet bytes) := by
  apply Returns.refuseIf_bind
  intro h
  exact returns_recordLoop bytes (not_not.mp h)

theorem returns_segmentLoop (n segmentIndex cursor : Nat) (rest : List UInt8) :
    Returns (segmentLoop n segmentIndex cursor rest) := by
  induction n generalizing segmentIndex cursor rest with
  | zero => exact returns_ok _
  | succ n ih =>
    apply Returns.refuseIf_bind
    intro hfour
    refine (returns_indexU32 (by omega)).bind fun size _ => Returns.refuseIf_bind fun _ => ?_
    apply Returns.refuseIf_bind
    intro hmin
    apply Returns.refuseIf_bind
    intro hend
    exact (returns_slice (by omega) (by omega)).bind fun _ _ =>
      (returns_parseRevocationRecordSet _).bind fun _ _ =>
      (returns_readArray (by omega)).bind fun _ _ => (ih _ _ _).bind fun _ _ => returns_ok _

theorem returns_checkPadding (rest : List UInt8) (i : Nat) : Returns (checkPadding rest i) := by
  induction rest generalizing i with
  | nil => exact returns_ok _
  | cons b rest ih => exact Returns.refuseIf_bind fun _ => ih _

theorem returns_parse (bytes : List UInt8) : Returns (parse bytes) := by
  apply Returns.refuseIf_bind
  intro hlen
  exact (returns_index (by omega)).bind fun _ _ => (returns_indexU16 (by omega)).bind fun _ _ =>
    (returns_index (by omega)).bind fun _ _ => Returns.refuseIf_bind fun _ =>
      (returns_segmentLoop _ _ _ _).bind fun _ _ => (returns_checkPadding _ _).bind fun _ _ =>
        returns_ok _

namespace Checked

def partIs (have3 : Bool) (bytes : List UInt8) (i : Nat) (type : UInt8) : Result Bool :=
  if have3 then do
    let b ← indexAt bytes i
    pure (recordType b = type)
  else pure false

/-- The end of the record read at `i` is checked with the read. -/
def recordLoop (bytes : List UInt8) (i : Nat) : Result (List RevocationRecord) :=
  if _h : i < bytes.length then do
    let slot ← readArrayAt bytes i 8
    let type := recordType (slot.get 0)
    if type = recordTypeContentCertificateId then
      let records ← recordLoop bytes (i + 8)
      pure (.contentCertificateId (decodeRangeAndId slot).1 ⟨(decodeRangeAndId slot).2⟩ :: records)
    else if type = recordTypeManagedCopyServerId then
      let records ← recordLoop bytes (i + 8)
      pure (.managedCopyServerCertificateId (decodeRangeAndId slot).1
        ⟨(decodeRangeAndId slot).2⟩ :: records)
    else if type = recordTypeRmrrPart1 then
      usize (i + 24)
      let have3 := decide (i + 24 ≤ bytes.length)
      let part2Ok ← partIs have3 bytes (i + 8) recordTypeRmrrPart2
      let part3Ok ← partIs have3 bytes (i + 16) recordTypeRmrrPart3
      if have3 && part2Ok && part3Ok then
        let rec1 ← readArrayAt bytes i 8
        let rec2 ← readArrayAt bytes (i + 8) 8
        let rec3 ← readArrayAt bytes (i + 16) 8
        let records ← recordLoop bytes (i + 24)
        pure (.recordableMedia (decodeRmrr rec1 rec2 rec3) :: records)
      else
        let records ← recordLoop bytes (i + 8)
        pure (.unknown type slot :: records)
    else
      let records ← recordLoop bytes (i + 8)
      pure (.unknown type slot :: records)
  else pure []
termination_by bytes.length - i

def parseRevocationRecordSet (bytes : List UInt8) : Result (List RevocationRecord) := do
  refuseIf (bytes.length % 8 ≠ 0)
    (.invalidValue "CRL Revocation Record Set length (must be a multiple of 8)" bytes.length)
  recordLoop bytes 0

/-- The segments `segmentIndex ..`, and the cursor behind them. -/
def segmentLoop (bytes : List UInt8) : Nat → Nat → Nat → Result (List CrlSegment × Nat)
  | 0, _, cursor => pure ([], cursor)
  | n + 1, segmentIndex, cursor => do
    refuseIf (saturatingUsize (cursor + 4) > bytes.length) (.truncated "CRL Segment Size")
    let segmentSize ← indexU32At bytes cursor
    refuseIf (segmentIndex = 0 ∧ segmentSize.toNat > segment1SizeMax)
      (.invalidValue "CRL Segment #1 Segment Size (must be ≤ 128 KiB − CRL Header)"
        segmentSize.toNat)
    let minSegmentLen ← okOr (checkedUsize (4 + 40)) (.truncated "CRL Segment minimum length")
    refuseIf (segmentSize.toNat < minSegmentLen)
      (.invalidValue "CRL Segment Size (must accommodate 4-byte size field + 40-byte signature)"
        segmentSize.toNat)
    let segmentEnd ← okOr (checkedUsize (cursor + segmentSize.toNat))
      (.truncated "CRL Segment end offset")
    refuseIf (segmentEnd > bytes.length) (.oversizedRecord "CRL Segment" segmentEnd bytes.length)
    usize (cursor + 4)
    let recordSetEnd ← subUsize segmentEnd 40
    let recordSetBytes ← slice bytes (cursor + 4) recordSetEnd
    let records ← parseRevocationRecordSet recordSetBytes
    let signatureBytes ← slice bytes recordSetEnd segmentEnd
    let signature ← copyFrom 40 signatureBytes
    let more ← segmentLoop bytes n (segmentIndex + 1) segmentEnd
    pure (⟨segmentSize, records, signature⟩ :: more.1, more.2)

def parse (bytes : List UInt8) : Result ContentRevocationList := do
  refuseIf (bytes.length < 4) (.truncated "CRL Header")
  let headerByte ← index bytes 0
  let listVersion ← indexU16 bytes 1
  let numberOfSegments ← index bytes 3
  refuseIf (numberOfSegments = 0) (.invalidValue "CRL Number of Segments (must be ≥ 1)" 0)
  let segments ← segmentLoop bytes numberOfSegments.toNat 0 4
  let padding ← sliceFrom bytes segments.2
  checkPadding padding 0
  pure { listType := (headerByte >>> 4) &&& 0x0F, reservedNibble := headerByte &&& 0x0F,
         listVersion, numberOfSegments, segments := segments.1 }

variable {bytes : List UInt8} {i cursor n : Nat}

theorem partIs_eq (have3 : Bool) {off : Nat} (h : i + off < 2 ^ 64) (type : UInt8) :
    partIs have3 bytes (i + off) type = Crl.partIs have3 (bytes.drop i) off type := by
  rw [partIs, Crl.partIs, indexAt_eq h, index_drop]

theorem recordLoop_eq (h : IsSlice bytes) (hi : i ≤ bytes.length) :
    recordLoop bytes i = Crl.recordLoop (bytes.drop i) := by
  have hlen : bytes.length < 2 ^ 63 := h
  induction hm : bytes.length - i using Nat.strong_induction_on generalizing i with
  | _ m ih =>
    have hrest : (bytes.drop i).length = bytes.length - i := List.length_drop
    rw [recordLoop, Crl.recordLoop]
    by_cases hend : i < bytes.length
    · rw [dif_pos hend, dif_neg (by omega), readArrayAt_eq (by omega), readArray_drop hi,
        Nat.add_zero]
      apply bind_congr_ok
      intro slot hslot
      obtain ⟨hfits, -⟩ := readArray_eq_ok.mp hslot
      have hnext : recordLoop bytes (i + 8) = Crl.recordLoop ((bytes.drop i).drop 8) := by
        rw [List.drop_drop, ih _ (by omega) hfits rfl]
      dsimp only
      rw [hnext]
      apply ite_congr_right
      intro _
      apply ite_congr_right
      intro _
      by_cases hpart1 : recordType (slot.get 0) = recordTypeRmrrPart1
      · have hhave3 : decide (3 * 8 ≤ (bytes.drop i).length) = decide (i + 24 ≤ bytes.length) :=
          decide_eq_decide.mpr (by omega)
        rw [if_pos hpart1, if_pos hpart1, usize_bind (by omega), hhave3, partIs_eq _ (by omega),
          partIs_eq _ (by omega)]
        refine bind_congr_ok fun part2Ok _ => bind_congr_ok fun part3Ok _ => ?_
        by_cases hparts : (decide (i + 24 ≤ bytes.length) && part2Ok && part3Ok) = true
        · have hfits3 : i + 24 ≤ bytes.length := by
            rw [Bool.and_eq_true, Bool.and_eq_true] at hparts
            exact of_decide_eq_true hparts.1.1
          have hskip : recordLoop bytes (i + 24) = Crl.recordLoop ((bytes.drop i).drop 24) := by
            rw [List.drop_drop, ih _ (by omega) hfits3 rfl]
          rw [if_pos hparts, if_pos hparts, readArrayAt_eq (by omega), readArrayAt_eq (by omega),
            readArray_drop hi, readArray_drop hi, hskip]
          rfl
        · rw [if_neg hparts, if_neg hparts]
      · rw [if_neg hpart1, if_neg hpart1]
    · rw [dif_neg hend, dif_pos (by omega)]

theorem parseRevocationRecordSet_eq (h : IsSlice bytes) :
    parseRevocationRecordSet bytes = Crl.parseRevocationRecordSet bytes :=
  refuseIf_bind_congr fun _ => recordLoop_eq h (Nat.zero_le _)

/-- Both loops read the same segments, and what follows them starts at the cursor. -/
theorem segmentLoop_eq (h : IsSlice bytes) (segmentIndex : Nat) (hcursor : cursor ≤ bytes.length) :
    (segmentLoop bytes n segmentIndex cursor >>= fun r => sliceFrom bytes r.2 >>= fun rest =>
      ok (r.1, rest)) =
      ContentRevocationList.segmentLoop n segmentIndex cursor (bytes.drop cursor) := by
  have hlen : bytes.length < 2 ^ 63 := h
  induction n generalizing segmentIndex cursor with
  | zero =>
    rw [ContentRevocationList.segmentLoop, segmentLoop, pure_eq, bind_ok,
      sliceFrom_of_le hcursor, bind_ok]
    rfl
  | succ n ih =>
    have hrest : (bytes.drop cursor).length = bytes.length - cursor := List.length_drop
    have hfour : saturatingUsize (cursor + 4) > bytes.length ↔ (bytes.drop cursor).length < 4 := by
      rw [saturatingUsize_of_lt (by omega)]
      omega
    rw [ContentRevocationList.segmentLoop, segmentLoop, refuseIf_congr hfour]
    simp only [bind_assoc]
    apply refuseIf_bind_congr
    intro hsize
    rw [indexU32At_eq (by omega), indexU32_drop, Nat.add_zero]
    apply bind_congr_ok
    intro size _
    apply refuseIf_bind_congr
    intro _
    have hsizeLt : size.toNat < 2 ^ 32 := size.toNat_lt
    have hcount : cursor + (bytes.drop cursor).length = bytes.length := by omega
    rw [checkedUsize_of_lt (by decide), okOr_some, bind_ok]
    apply refuseIf_bind_congr
    intro hmin
    rw [checkedUsize_of_lt (by omega), okOr_some, bind_ok, hcount]
    apply refuseIf_bind_congr
    intro hfits
    have hset : cursor + size.toNat - 40 = cursor + (size.toNat - 40) := by omega
    have hsig : cursor + size.toNat = cursor + (size.toNat - 40) + 40 := by omega
    rw [usize_bind (by omega), subUsize_bind (by omega), slice_drop hcursor,
      readArray_drop hcursor, hset]
    apply bind_congr_ok
    intro recordSetBytes hset
    rw [parseRevocationRecordSet_eq (h.slice hset), readArray, ← hsig, List.drop_drop]
    apply bind_congr_ok
    intro records _
    rw [bind_assoc]
    apply bind_congr_ok
    intro signatureBytes _
    apply bind_congr_ok
    intro signature _
    rw [← ih (segmentIndex + 1) (by omega), bind_assoc]
    apply bind_congr_ok
    intro more _
    rw [pure_eq, bind_ok, bind_assoc]
    rfl

theorem parse_eq (h : IsSlice bytes) : parse bytes = ContentRevocationList.parse bytes := by
  refine refuseIf_bind_congr fun hlen => bind_congr_ok fun headerByte _ =>
    bind_congr_ok fun listVersion _ =>
    bind_congr_ok fun numberOfSegments _ => refuseIf_bind_congr fun _ => ?_
  rw [← segmentLoop_eq h 0 (Nat.le_of_not_lt hlen), bind_assoc]
  apply bind_congr_ok
  intro segments _
  rw [bind_assoc]
  rfl

end Checked

end ContentRevocationList
