import Aacs.MkbReturns

/-!
# The media key block parser on machine words

The same loops with a cursor into the byte string, and each sum or product of
sizes checked against a 64-bit `usize`. On every byte string that a slice can
hold they compute what the parser on byte lists computes.
-/
namespace Mkb.Checked

open Outcome

def readEntries (payload : List UInt8) : Nat → Nat → Result (List RevocationEntry)
  | 0, _ => pure []
  | n + 1, cursor => do
    let range ← indexU16At payload cursor
    let id ← readArrayAt payload (cursor + 2) 6
    usize (cursor + 8)
    let entries ← readEntries payload n (cursor + 8)
    pure (⟨range, id⟩ :: entries)

def blockLoop (payload : List UInt8) (cursor : Nat) :
    Result (List RevocationEntry × List RevocationSignatureBlock) :=
  if _h : cursor < payload.length then do
    usize (cursor + 4)
    refuseIf (cursor + 4 > payload.length) (.truncated "Revocation List block header")
    let n ← indexU32At payload cursor
    usize (n.toNat * 8)
    usize (cursor + 4 + n.toNat * 8)
    refuseIf (cursor + 4 + n.toNat * 8 > payload.length) (.truncated "Revocation List entries")
    let blockEntries ← readEntries payload n.toNat (cursor + 4)
    usize (cursor + 4 + n.toNat * 8 + 40)
    if cursor + 4 + n.toNat * 8 + 40 ≤ payload.length then
      let sig ← readArrayAt payload (cursor + 4 + n.toNat * 8) 40
      let more ← blockLoop payload (cursor + 4 + n.toNat * 8 + 40)
      pure (blockEntries ++ more.1, ⟨n, blockEntries, some sig⟩ :: more.2)
    else pure (blockEntries, [⟨n, blockEntries, none⟩])
  else pure ([], [])
termination_by payload.length - cursor

def parseRevocationListWithBlocks (payload : List UInt8) :
    Result (List RevocationEntry × List RevocationSignatureBlock) := do
  refuseIf (payload.length < 4) (.truncated "Revocation List header")
  let _ ← indexU32 payload 0
  blockLoop payload 4

variable {payload : List UInt8} {cursor n : Nat}

theorem readEntries_eq (h : IsSlice payload) (hn : cursor + n * 8 ≤ payload.length) :
    readEntries payload n cursor = Mkb.readEntries n (payload.drop cursor) := by
  induction n generalizing cursor with
  | zero => rfl
  | succ n ih =>
    have hlen : payload.length < 2 ^ 63 := h
    have hnext : (usize (cursor + 8) : Result Unit) = ok () := usize_of_lt (by omega)
    rw [readEntries, Mkb.readEntries, indexU16At_eq (by omega), readArrayAt_eq (by omega),
      ih (by omega), indexU16_drop, readArray_drop (by omega), List.drop_drop]
    simp only [hnext, bind_ok, Nat.add_zero]

theorem blockLoop_eq (h : IsSlice payload) (hcursor : cursor ≤ payload.length) :
    blockLoop payload cursor = Mkb.blockLoop (payload.drop cursor) := by
  have hlen : payload.length < 2 ^ 63 := h
  induction hm : payload.length - cursor using Nat.strong_induction_on generalizing cursor with
  | _ m ih =>
    have hrest : (payload.drop cursor).length = payload.length - cursor := List.length_drop
    rw [blockLoop, Mkb.blockLoop, hrest]
    by_cases hend : cursor < payload.length
    · rw [dif_pos hend, if_neg (by omega), usize_bind (by omega)]
      by_cases hheader : cursor + 4 > payload.length
      · rw [refuseIf_pos hheader, dif_pos (by omega), bind_err]
      · rw [refuseIf_neg hheader, dif_neg (by omega), bind_ok, indexU32At_eq (by omega),
          indexU32_drop, Nat.add_zero]
        apply bind_congr_ok
        intro count _
        have hcount : count.toNat < 2 ^ 32 := count.toNat_lt
        dsimp only
        rw [usize_bind (by omega), usize_bind (by omega), List.drop_drop, List.length_drop,
          List.drop_drop]
        by_cases hentries : cursor + 4 + count.toNat * 8 > payload.length
        · rw [refuseIf_pos hentries, refuseIf_pos (by omega), bind_err, bind_err]
        · rw [refuseIf_neg hentries, refuseIf_neg (by omega), bind_ok, bind_ok,
            readEntries_eq h (by omega)]
          apply bind_congr_ok
          intro entries _
          rw [usize_bind (by omega), List.length_drop]
          by_cases hsig : cursor + 4 + count.toNat * 8 + 40 ≤ payload.length
          · rw [if_pos hsig, if_pos (by omega), readArrayAt_eq (by omega),
              readArray_drop (by omega), List.drop_drop, ih _ (by omega) (by omega) rfl]
            rfl
          · rw [if_neg hsig, if_neg (by omega)]
    · rw [dif_neg hend, if_pos (by omega)]

theorem parseRevocationListWithBlocks_eq (h : IsSlice payload) :
    parseRevocationListWithBlocks payload = Mkb.parseRevocationListWithBlocks payload :=
  refuseIf_bind_congr fun hlen => bind_congr_ok fun _ _ => blockLoop_eq h (Nat.le_of_not_lt hlen)

/-- A missing item ends a loop, another one is kept in front of those that follow. -/
def pushItem {α : Type} (a : Option α) (rest : Result (List α)) : Result (List α) :=
  match a with
  | none => pure []
  | some a => do
    let more ← rest
    pure (a :: more)

/-- `while i + n <= payload.len()`: the piece at each place gives an item, or ends the loop. -/
def pieceLoop {α : Type} (payload : List UInt8) (n : Nat)
    (item : Nat → Result (Option α)) (i : Nat) :
    Result (List α) :=
  if _h : 0 < n then do
    usize (i + n)
    if _h : i + n ≤ payload.length then
      let a ← item i
      pushItem a (pieceLoop payload n item (i + n))
    else pure []
  else pure []
termination_by payload.length - i

def explicitSubdiffEntry (payload : List UInt8) (i : Nat) :
    Result (Option SubsetDifferenceEntry) := do
  let uMask ← indexAt payload i
  if uMask &&& 0xC0 ≠ 0 then pure none
  else
    let uv ← indexU32At payload (i + 1)
    pure (some ⟨uMask, uv⟩)

def parseExplicitSubdiff (payload : List UInt8) : Result (List SubsetDifferenceEntry) :=
  pieceLoop payload 5 (explicitSubdiffEntry payload) 0

def parseSubdiffIndex (payload : List UInt8) : Result SubsetDiffIndex := do
  refuseIf (payload.length < 4) (.truncated "Subset-Difference Index Record")
  let span ← indexU32 payload 0
  let _ ← subUsize payload.length 4
  let offsets ← pieceLoop payload 3 (fun i => some <$> indexU24At payload i) 4
  pure ⟨span, offsets⟩

def parseMediaKeyData (payload : List UInt8) : Result (List (Bytes 16)) :=
  pieceLoop payload 16 (fun i => some <$> readArrayAt payload i 16) 0

def parseVariantNumber (payload : List UInt8) : Result VariantNumberRecord := do
  refuseIf (payload.length < 16) (.truncated "Variant Number Record")
  let nonce ← readArray 16 payload 0
  let _ ← subUsize payload.length 16
  let variantNumberData ← sliceFrom payload 16
  pure ⟨nonce, variantNumberData⟩

/-- The loop computes what a decoder does that takes one piece after the other off the front. -/
theorem pieceLoop_eq {α : Type} {item : Nat → Result (Option α)}
    {decode : List UInt8 → Result (List α)} (h : IsSlice payload) (hpos : 0 < n) (hn : n < 2 ^ 63)
    (hstop : ∀ rest : List UInt8, rest.length < n → decode rest = pure [])
    (hpiece : ∀ i, i + n ≤ payload.length → ¬(payload.drop i).length < n →
      decode (payload.drop i) = do
      let a ← item i
      pushItem a (decode (payload.drop (i + n))))
    {i : Nat} (hi : i ≤ payload.length) : pieceLoop payload n item i = decode (payload.drop i) := by
  have hlen : payload.length < 2 ^ 63 := h
  induction hm : payload.length - i using Nat.strong_induction_on generalizing i with
  | _ m ih =>
    rw [pieceLoop, dif_pos hpos, usize_bind (by omega)]
    have hrest : (payload.drop i).length = payload.length - i := List.length_drop
    by_cases hfits : i + n ≤ payload.length
    · rw [dif_pos hfits, hpiece i hfits (by omega),
        ih (payload.length - (i + n)) (by omega) hfits rfl]
    · rw [dif_neg hfits, hstop _ (by omega)]

theorem parseExplicitSubdiff_eq (h : IsSlice payload) :
    parseExplicitSubdiff payload = Mkb.parseExplicitSubdiff payload := by
  refine pieceLoop_eq (n := 5) h (by decide) (by decide) ?_ ?_ (Nat.zero_le _)
  · intro rest hshort
    rw [Mkb.parseExplicitSubdiff, dif_pos hshort]
  · intro i hi hlong
    have hlen : payload.length < 2 ^ 63 := h
    rw [Mkb.parseExplicitSubdiff, dif_neg hlong, explicitSubdiffEntry, indexAt_eq (by omega),
      indexU32At_eq (by omega), index_drop, indexU32_drop, List.drop_drop, bind_assoc]
    apply bind_congr_ok
    intro uMask _
    by_cases hend : uMask &&& 0xC0 ≠ 0
    · rw [if_pos hend, if_pos hend]
      rfl
    · rw [if_neg hend, if_neg hend, bind_assoc]
      rfl

theorem readOffsets_eq (h : IsSlice payload) {i : Nat} (hi : i ≤ payload.length) :
    pieceLoop payload 3 (fun i => some <$> indexU24At payload i) i = readOffsets
      (payload.drop i) := by
  refine pieceLoop_eq h (by decide) (by decide) ?_ ?_ hi
  · intro rest hshort
    rw [readOffsets, dif_pos hshort]
  · intro i hi hlong
    have hlen : payload.length < 2 ^ 63 := h
    rw [readOffsets, dif_neg hlong, indexU24At_eq (by omega), indexU24_drop, List.drop_drop,
      map_eq_pure_bind, bind_assoc]
    rfl

theorem parseSubdiffIndex_eq (h : IsSlice payload) :
    parseSubdiffIndex payload = Mkb.parseSubdiffIndex payload :=
  refuseIf_bind_congr fun hlen => bind_congr_ok fun _ _ => by
    rw [subUsize_bind (by omega), readOffsets_eq h (by omega)]

theorem parseMediaKeyData_eq (h : IsSlice payload) :
    parseMediaKeyData payload = Mkb.parseMediaKeyData payload := by
  refine pieceLoop_eq (n := 16) h (by decide) (by decide) ?_ ?_ (Nat.zero_le _)
  · intro rest hshort
    rw [Mkb.parseMediaKeyData, dif_pos hshort]
  · intro i hi hlong
    have hlen : payload.length < 2 ^ 63 := h
    rw [Mkb.parseMediaKeyData, dif_neg hlong, readArrayAt_eq (by omega), readArray_drop (by omega),
      List.drop_drop, map_eq_pure_bind, bind_assoc]
    rfl

theorem parseVariantNumber_eq (payload : List UInt8) :
    parseVariantNumber payload = Mkb.parseVariantNumber payload :=
  refuseIf_bind_congr fun hlen => bind_congr_ok fun _ _ => subUsize_bind (Nat.le_of_not_lt hlen) _

def decodeRecord (tag : UInt8) (payload record : List UInt8) (out : Mkb) : Result Mkb :=
  if tag = tagTypeAndVersion then do
    let tv ← parseTypeAndVersion payload
    pure { out with mkbType := some tv.1, version := tv.2, typeAndVersionRaw := record }
  else if tag = tagHostRevocationList then do
    let rl ← parseRevocationListWithBlocks payload
    pure { out with hostRevocationList := rl.1, hostRevocationBlocks := rl.2 }
  else if tag = tagDriveRevocationList then do
    let rl ← parseRevocationListWithBlocks payload
    pure { out with driveRevocationList := rl.1, driveRevocationBlocks := rl.2 }
  else if tag = tagVerifyMediaKey then do
    let vd ← parseVerifyMediaKey payload
    pure { out with verifyMediaKey := some vd }
  else if tag = tagExplicitSubdiff then do
    let entries ← parseExplicitSubdiff payload
    pure { out with explicitSubdiff := entries }
  else if tag = tagSubdiffIndex then do
    let index ← parseSubdiffIndex payload
    pure { out with subdiffIndex := some index }
  else if tag = tagMediaKeyData then do
    let keys ← parseMediaKeyData payload
    pure { out with mediaKeyData := keys }
  else if tag = tagMediaKeyVariantData then do
    let keys ← parseMediaKeyData payload
    pure { out with mediaKeyVariantData := keys }
  else if tag = tagVariantNumber then do
    let record ← parseVariantNumber payload
    pure { out with variantNumberRecord := some record }
  else if tag = tagEndOfBlock then do
    let sig ← endSignature payload
    pure { out with endOfBlock := true, endOfBlockSignature := sig }
  else pure { out with unknownRecords := out.unknownRecords ++ [(tag, record)] }

def parseLoop (bytes : List UInt8) (cursor : Nat) (st : ParseState) : Result ParseState :=
  if _h : cursor < bytes.length then do
    let remaining ← sliceFrom bytes cursor
    if remaining.length < 4 then pure st
    else
      let tag ← index remaining 0
      let length ← indexU24 remaining 1
      let length := length.toNat
      if _h : length < 4 then
        if st.out.endOfBlock || remaining.all (· == 0) then pure st
        else .err (.invalidValue "MKB record length" length)
      else if length > remaining.length then .err (.oversizedRecord "MKB" length remaining.length)
      else
        let payload ← slice remaining 4 length
        let record ← slice remaining 0 length
        let out ← decodeRecord tag payload record st.out
        usize (cursor + length)
        parseLoop bytes (cursor + length)
          { out
            sawTypeRecordFirst := if st.firstRecord ∧ tag = tagTypeAndVersion then true
              else st.sawTypeRecordFirst
            firstRecord := false }
  else pure st
termination_by bytes.length - cursor

def parse (bytes : List UInt8) : Result Mkb := do
  let st ← parseLoop bytes 0 ⟨{}, false, true⟩
  refuseIf (st.sawTypeRecordFirst = false) .missingTypeAndVersionRecord
  pure st.out

theorem decodeRecord_eq (h : IsSlice payload) (tag : UInt8) (record : List UInt8) (out : Mkb) :
    decodeRecord tag payload record out = Mkb.decodeRecord tag payload record out := by
  rw [decodeRecord, Mkb.decodeRecord, parseRevocationListWithBlocks_eq h, parseExplicitSubdiff_eq h,
    parseSubdiffIndex_eq h, parseMediaKeyData_eq h, parseVariantNumber_eq]

theorem parseLoop_eq {bytes : List UInt8} (h : IsSlice bytes) {cursor : Nat}
    (hcursor : cursor ≤ bytes.length)
    (st : ParseState) : parseLoop bytes cursor st = Mkb.parseLoop (bytes.drop cursor) st := by
  have hlen : bytes.length < 2 ^ 63 := h
  induction hm : bytes.length - cursor using Nat.strong_induction_on generalizing cursor st with
  | _ m ih =>
    have hrest : (bytes.drop cursor).length = bytes.length - cursor := List.length_drop
    rw [parseLoop, Mkb.parseLoop]
    by_cases hend : cursor < bytes.length
    · rw [dif_pos hend, sliceFrom_of_le hcursor, bind_ok]
      apply ite_congr_right
      intro hfour
      apply bind_congr_ok
      intro tag _
      apply bind_congr_ok
      intro length _
      dsimp only
      by_cases hshort : length.toNat < 4
      · rw [dif_pos hshort, if_pos hshort]
      rw [dif_neg hshort, if_neg hshort]
      by_cases hlong : length.toNat > (bytes.drop cursor).length
      · rw [if_pos hlong, dif_pos hlong]
      rw [if_neg hlong, dif_neg hlong]
      apply bind_congr_ok
      intro payload hpayload
      apply bind_congr_ok
      intro record _
      rw [decodeRecord_eq ((h.drop cursor).slice hpayload)]
      apply bind_congr_ok
      intro out _
      rw [usize_bind (by omega), ih _ (by omega) (by omega) _ rfl, List.drop_drop]
    · rw [dif_neg hend, if_pos (by omega)]

theorem parse_eq {bytes : List UInt8} (h : IsSlice bytes) : parse bytes = Mkb.parse bytes := by
  rw [parse, parseLoop_eq h (Nat.zero_le _), List.drop_zero]
  rfl

def findRecord (originalBytes : List UInt8) (tag : UInt8) (cursor : Nat) :
    Result (Option (Nat × Nat)) := do
  usize (cursor + 4)
  if _h : cursor + 4 ≤ originalBytes.length then
    let curTag ← indexAt originalBytes cursor
    let length ← indexU24At originalBytes (cursor + 1)
    let length := length.toNat
    if _h : length < 4 then pure none
    else
      usize (cursor + length)
      if cursor + length > originalBytes.length then pure none
      else if curTag = tag then pure (some (cursor, length))
      else findRecord originalBytes tag (cursor + length)
  else pure none
termination_by originalBytes.length - cursor

def findRecordExtent (originalBytes : List UInt8) (tag : UInt8) : Result (Option (Nat × Nat)) :=
  findRecord originalBytes tag 0

def findEndOfBlockSignedPrefixLen (originalBytes : List UInt8) : Result Nat := do
  let extent ← findRecord originalBytes tagEndOfBlock 0
  let extent ← okOr extent .mkbSignatureMissing
  pure extent.1

def verifyEndOfBlockSignature (mkb : Mkb) (originalBytes : List UInt8) (aacsLaPub : Point) :
    Result Unit := do
  let signature ← okOr mkb.endOfBlockSignature .mkbSignatureMissing
  let signedLen ← findEndOfBlockSignedPrefixLen originalBytes
  let signedData ← slice originalBytes 0 signedLen
  refuseIf (Ecdsa.verify aacsLaPub signature signedData = false) .mkbSignatureInvalid

/-- The check of one block's signature, over the bytes of the record up to `signedPrefixEnd`. -/
def verifyBlock (aacsLaPub : Point) (typeAndVersionRaw rlRecord : List UInt8)
    (signedPrefixEnd : Nat) (verifiedAny : Bool) : Option Ecdsa.Signature → Result Bool
  | some sig => do
    usize (typeAndVersionRaw.length + signedPrefixEnd)
    let signed ← slice rlRecord 0 signedPrefixEnd
    refuseIf (Ecdsa.verify aacsLaPub sig (typeAndVersionRaw ++ signed) = false) .mkbSignatureInvalid
    pure true
  | none => pure verifiedAny

def verifyBlocks (aacsLaPub : Point) (typeAndVersionRaw rlRecord payload : List UInt8) :
    List RevocationSignatureBlock → Nat → Bool → Result Bool
  | [], _, verifiedAny => pure verifiedAny
  | block :: blocks, cursor, verifiedAny => do
    usize (cursor + 4)
    refuseIf (cursor + 4 > payload.length) (.truncated "Revocation List per-block entry count")
    let cursor := cursor + 4
    let entriesBytes ← okOr (checkedUsize (block.entriesInBlock.toNat * 8))
      (.invalidValue "Revocation List block entry count" block.entriesInBlock.toNat)
    usize (cursor + entriesBytes)
    refuseIf (cursor + entriesBytes > payload.length) (.truncated "Revocation List block entries")
    let cursor := cursor + entriesBytes
    usize (4 + cursor)
    let verifiedAny ← verifyBlock aacsLaPub typeAndVersionRaw rlRecord (4 + cursor)
      verifiedAny block.signature
    usize (cursor + 40)
    if cursor + 40 > payload.length then pure verifiedAny
    else verifyBlocks aacsLaPub typeAndVersionRaw rlRecord payload blocks (cursor + 40) verifiedAny

def verifyRevocationListSignatures (mkb : Mkb) (originalBytes : List UInt8) (aacsLaPub : Point)
    (recordTag : UInt8) (blocks : List RevocationSignatureBlock) : Result Unit := do
  refuseIf (blocks = []) .mkbSignatureMissing
  refuseIf (mkb.typeAndVersionRaw = []) .mkbSignatureMissing
  let extent ← findRecordExtent originalBytes recordTag
  let extent ← okOr extent .mkbSignatureMissing
  usize (extent.1 + extent.2)
  let rlRecord ← slice originalBytes extent.1 (extent.1 + extent.2)
  let payload ← sliceFrom rlRecord 4
  refuseIf (payload.length < 4) (.truncated "Revocation List signed payload")
  let verifiedAny ← verifyBlocks aacsLaPub mkb.typeAndVersionRaw rlRecord payload blocks 4 false
  refuseIf (verifiedAny = false) .mkbSignatureMissing

def verifyHostRevocationList (mkb : Mkb) (originalBytes : List UInt8) (aacsLaPub : Point) :
    Result Unit :=
  verifyRevocationListSignatures mkb originalBytes aacsLaPub tagHostRevocationList
    mkb.hostRevocationBlocks

def verifyDriveRevocationList (mkb : Mkb) (originalBytes : List UInt8) (aacsLaPub : Point) :
    Result Unit :=
  verifyRevocationListSignatures mkb originalBytes aacsLaPub tagDriveRevocationList
    mkb.driveRevocationBlocks

variable {bytes : List UInt8}

theorem findRecord_eq (h : IsSlice bytes) (tag : UInt8) (hcursor : cursor ≤ bytes.length) :
    findRecord bytes tag cursor = Mkb.findRecord tag cursor (bytes.drop cursor) := by
  have hlen : bytes.length < 2 ^ 63 := h
  induction hm : bytes.length - cursor using Nat.strong_induction_on generalizing cursor with
  | _ m ih =>
    have hrest : (bytes.drop cursor).length = bytes.length - cursor := List.length_drop
    rw [findRecord, Mkb.findRecord, usize_bind (by omega)]
    by_cases hfour : cursor + 4 ≤ bytes.length
    · rw [dif_pos hfour, if_neg (by omega), indexAt_eq (by omega), indexU24At_eq (by omega),
        index_drop, indexU24_drop, Nat.add_zero]
      apply bind_congr_ok
      intro curTag _
      apply bind_congr_ok
      intro length _
      have hlength : length.toNat < 2 ^ 32 := length.toNat_lt
      dsimp only
      by_cases hshort : length.toNat < 4
      · rw [dif_pos hshort, dif_pos (Or.inl hshort)]
      rw [dif_neg hshort, usize_bind (by omega)]
      by_cases hlong : cursor + length.toNat > bytes.length
      · rw [if_pos hlong, dif_pos (Or.inr (by omega))]
      · rw [if_neg hlong, dif_neg (by omega), List.drop_drop, ih _ (by omega) (by omega) rfl]
    · rw [dif_neg hfour, if_pos (by omega)]

theorem findRecordExtent_eq (h : IsSlice bytes) (tag : UInt8) :
    findRecordExtent bytes tag = Mkb.findRecordExtent bytes tag := by
  rw [findRecordExtent, findRecord_eq h tag (Nat.zero_le _), List.drop_zero]
  rfl

theorem verifyEndOfBlockSignature_eq (mkb : Mkb) (h : IsSlice bytes) (aacsLaPub : Point) :
    verifyEndOfBlockSignature mkb bytes aacsLaPub = mkb.verifyEndOfBlockSignature bytes aacsLaPub :=
  by
  rw [verifyEndOfBlockSignature, findEndOfBlockSignedPrefixLen, findRecord_eq h _ (Nat.zero_le _),
    List.drop_zero]
  rfl

theorem verifyBlocks_eq (aacsLaPub : Point) {raw rlRecord : List UInt8} (hraw : IsSlice raw)
    (h : IsSlice rlRecord)
    (hfour : 4 ≤ rlRecord.length) (blocks : List RevocationSignatureBlock) (verifiedAny : Bool)
    (hcursor : cursor ≤ rlRecord.length) :
    verifyBlocks aacsLaPub raw rlRecord (rlRecord.drop 4) blocks cursor verifiedAny =
      Mkb.verifyBlocks aacsLaPub raw rlRecord blocks cursor verifiedAny := by
  have hlenRaw : raw.length < 2 ^ 63 := hraw
  have hlen : rlRecord.length < 2 ^ 63 := h
  have hpayload : (rlRecord.drop 4).length = rlRecord.length - 4 := List.length_drop
  induction blocks generalizing cursor verifiedAny with
  | nil => rfl
  | cons block blocks ih =>
    have hcount : block.entriesInBlock.toNat < 2 ^ 32 := block.entriesInBlock.toNat_lt
    rw [verifyBlocks, Mkb.verifyBlocks, usize_bind (by omega), hpayload,
      checkedUsize_of_lt (by omega), okOr_some, bind_ok]
    apply refuseIf_bind_congr
    intro _
    dsimp only
    rw [usize_bind (by omega)]
    apply refuseIf_bind_congr
    intro hentries
    have hnext
      (verifiedAny : Bool) : ((usize (cursor + 4 + block.entriesInBlock.toNat * 8 + 40) >>= fun _ =>
          if cursor + 4 + block.entriesInBlock.toNat * 8 + 40 > rlRecord.length - 4
            then ok verifiedAny
          else verifyBlocks aacsLaPub raw rlRecord (rlRecord.drop 4) blocks
            (cursor + 4 + block.entriesInBlock.toNat * 8 + 40) verifiedAny) : Result Bool) =
        if cursor + 4 + block.entriesInBlock.toNat * 8 + 40 > rlRecord.length - 4
          then ok verifiedAny
        else Mkb.verifyBlocks aacsLaPub raw rlRecord blocks
          (cursor + 4 + block.entriesInBlock.toNat * 8 + 40) verifiedAny := by
      rw [usize_bind (by omega)]
      exact ite_congr_right fun hmore => ih verifiedAny (by omega)
    rw [usize_bind (by omega)]
    cases block.signature with
    | none => exact hnext verifiedAny
    | some sig =>
      rw [verifyBlock, usize_bind (by omega), bind_assoc]
      apply bind_congr_ok
      intro signed _
      rw [bind_assoc]
      exact bind_congr_ok fun _ _ => hnext true

theorem verifyRevocationListSignatures_eq (mkb : Mkb) (hmkb : IsSlice mkb.typeAndVersionRaw)
    (h : IsSlice bytes) (aacsLaPub : Point) (tag : UInt8) (blocks : List RevocationSignatureBlock) :
    verifyRevocationListSignatures mkb bytes aacsLaPub tag blocks =
      mkb.verifyRevocationListSignatures bytes aacsLaPub tag blocks := by
  have hlen : bytes.length < 2 ^ 63 := h
  obtain ⟨o, ho, hbound⟩ := findRecordExtent_spec bytes tag
  rw [verifyRevocationListSignatures, Mkb.verifyRevocationListSignatures, findRecordExtent_eq h, ho]
  apply refuseIf_bind_congr
  intro _
  apply refuseIf_bind_congr
  intro _
  rw [bind_ok, bind_ok]
  apply bind_congr_ok
  intro e he
  obtain ⟨hend, hheader⟩ := hbound e (okOr_eq_ok.mp he)
  rw [usize_bind (by omega)]
  apply bind_congr_ok
  intro rlRecord hrecord
  obtain ⟨-, -, hbytes⟩ := slice_eq_ok.mp hrecord
  have hlenRecord : rlRecord.length = e.2 := by
    rw [hbytes, List.length_take, List.length_drop]
    omega
  apply bind_congr_ok
  intro payload hpayload
  apply refuseIf_bind_congr
  intro hpayloadLen
  rw [sliceFrom_of_le (by omega)] at hpayload
  obtain rfl := ok.inj hpayload
  rw [List.length_drop] at hpayloadLen
  rw [verifyBlocks_eq aacsLaPub hmkb (h.slice hrecord) (by omega) blocks false (by omega)]

end Mkb.Checked
