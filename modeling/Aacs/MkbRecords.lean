import Aacs.Aes
import Aacs.MkbContent
import Aacs.MkbReturns

/-!
# Records in, fields out

What each payload says, in terms of its bytes alone, and the shape it needs. A
stream of records of that shape is read record by record to its end, padding
included; a stream with a false start, or with a header that begins no record and
is no padding, is refused.
-/
namespace Mkb

open Record Outcome

/-- The big-endian number of four bytes at an offset. -/
def word (p : List UInt8) (off : Nat) : UInt32 := UInt32.ofNat (beNat ((p.drop off).take 4))

def subdiffEntry (piece : List UInt8) : SubsetDifferenceEntry := ⟨piece.headD 0, word piece 1⟩

/-- The entries in front of the first u mask with a bit among `mask`. -/
def subdiffEntriesUpTo (mask : UInt8) (p : List UInt8) : List SubsetDifferenceEntry :=
  ((Aes.chunksExact 5 p).takeWhile fun piece => piece.headD 0 &&& mask = 0).map subdiffEntry

/-- The entries in front of the first u mask with one of its two high bits set. -/
def subdiffEntries (p : List UInt8) : List SubsetDifferenceEntry := subdiffEntriesUpTo 0xC0 p

def offsets (p : List UInt8) : List UInt32 :=
  (Aes.chunksExact 3 p).map fun piece => UInt32.ofNat (beNat piece)

def keyEntries (p : List UInt8) : List (Bytes 16) := (Aes.chunksExact 16 p).map Aes.block

/-- The blocks of a revocation list. The last one may lack its signature, and what is left of
it is too short for one. -/
inductive Blocks : List UInt8 → List RevocationSignatureBlock → Prop where
  | nil : Blocks [] []
  | unsigned {b : RevocationSignatureBlock} {tail : List UInt8} (counted : b.Counted)
    (hsig : b.signature = none)
      (short : tail.length < 40) : Blocks (b.bytes ++ tail) [b]
  | signed {b : RevocationSignatureBlock} {tail : List UInt8} {bs : List RevocationSignatureBlock}
      (counted : b.Counted) (hsig : b.signature ≠ none) (rest : Blocks tail bs) : Blocks
        (b.bytes ++ tail) (b :: bs)

/-- The shape that a payload needs for its tag. -/
structure Shaped (tag : UInt8) (p : List UInt8) : Prop where
  typeAndVersion : tag = tagTypeAndVersion → 8 ≤ p.length
  revocationList : tag = tagHostRevocationList ∨ tag = tagDriveRevocationList →
    4 ≤ p.length ∧ ∃ bs, Blocks (p.drop 4) bs
  verifyMediaKey : tag = tagVerifyMediaKey → 16 ≤ p.length
  subdiffIndex : tag = tagSubdiffIndex → 4 ≤ p.length
  variantNumber : tag = tagVariantNumber → 16 ≤ p.length

theorem u32ToBe_ofNat_beNat {l : List UInt8} (h : l.length = 4) :
    u32ToBe (UInt32.ofNat (beNat l)) = l := by
  have hlt : beNat l < 2 ^ 32 := by
    have hlt := beNat_lt l
    rwa [h] at hlt
  exact beNat_inj (by simp [h]) (by rw [beNat_u32ToBe, UInt32.toNat_ofNat_of_lt' hlt])

section
variable {p : List UInt8}

theorem indexU32_word {off : Nat} (h : off + 4 ≤ p.length) :
    (indexU32 p off : Result UInt32) = .ok (word p off) :=
  indexU32_eq_ok.mpr (u32ToBe_ofNat_beNat (length_drop_take h)).symm

theorem indexU24_piece (h : 3 ≤ p.length) :
    (indexU24 p 0 : Result UInt32) = .ok (UInt32.ofNat (beNat (p.take 3))) := by
  have hzero : beNat (0 :: p.take 3) = beNat (p.take 3) := by
    rw [beNat_cons, UInt8.toNat_zero, Nat.zero_mul, Nat.zero_add]
  rw [indexU24_eq_ok, ← hzero, u32ToBe_ofNat_beNat (by simp [h]), List.drop_zero]

theorem chunksExact_of_le {n : Nat} (hn : 0 < n) (h : n ≤ p.length) :
    Aes.chunksExact n p = p.take n :: Aes.chunksExact n (p.drop n) := by
  have hsplit := Aes.chunksExact_append hn (List.length_take_of_le h) (p.drop n)
  rwa [List.take_append_drop] at hsplit

theorem parseTypeAndVersion_eq (h : 8 ≤ p.length) :
    parseTypeAndVersion p = .ok (MkbType.fromU32 (word p 0), word p 4) := by
  rw [parseTypeAndVersion, refuseIf_neg (Nat.not_lt.mpr h), bind_ok,
    indexU32_word (by omega), bind_ok, indexU32_word (by omega), bind_ok, pure_eq]

theorem blockLoop_eq {bs : List RevocationSignatureBlock} (h : Blocks p bs) :
    blockLoop p = .ok (bs.flatMap RevocationSignatureBlock.entries, bs) := by
  induction h with
  | nil => exact blockLoop_nil
  | unsigned counted hsig short => rw [blockLoop_bytes counted _ fun _ => short, if_pos hsig]; simp
  | signed counted hsig rest ih =>
    rw [blockLoop_bytes counted _ fun hnone => absurd hnone hsig, if_neg hsig, ih, bind_ok,
      List.flatMap_cons]

theorem parseRevocationListWithBlocks_eq {bs : List RevocationSignatureBlock} (h : 4 ≤ p.length)
    (hbs : Blocks (p.drop 4) bs) :
    parseRevocationListWithBlocks p = .ok (bs.flatMap RevocationSignatureBlock.entries, bs) := by
  rw [parseRevocationListWithBlocks, refuseIf_neg (Nat.not_lt.mpr h), bind_ok,
    indexU32_word (by omega), bind_ok, blockLoop_eq hbs]

theorem readArray_block (h : 16 ≤ p.length) :
    (readArray 16 p 0 : Result (Bytes 16)) = .ok (Aes.block (p.take 16)) := by
  rw [readArray_eq_ok, Aes.block_toList (by simp [h]), List.drop_zero]
  exact ⟨by omega, rfl⟩

theorem parseVerifyMediaKey_eq (h : 16 ≤ p.length) :
    parseVerifyMediaKey p = .ok (Aes.block (p.take 16)) := by
  rw [parseVerifyMediaKey, refuseIf_neg (Nat.not_lt.mpr h), bind_ok, readArray_block h]

theorem parseExplicitSubdiff_eq (p : List UInt8) :
    parseExplicitSubdiff p = .ok (subdiffEntries p) := by
  induction p using parseExplicitSubdiff.induct with
  | case1 p h =>
    rw [parseExplicitSubdiff, dif_pos h, subdiffEntries, subdiffEntriesUpTo,
      Aes.chunksExact_of_lt h]
    rfl
  | case2 p h ih =>
    obtain ⟨b, b₀, b₁, b₂, b₃, q, rfl⟩ := exists_cons_of_five_le h
    have hchunks : Aes.chunksExact 5 (b :: b₀ :: b₁ :: b₂ :: b₃ :: q) = [b, b₀, b₁, b₂, b₃] ::
        Aes.chunksExact 5 q :=
      chunksExact_of_le (by decide) (by simp)
    have hword : word [b, b₀, b₁, b₂, b₃] 1 = u32FromBe b₀ b₁ b₂ b₃ :=
      u32ToBe_inj.mp ((u32ToBe_ofNat_beNat rfl).trans (u32ToBe_fromBe b₀ b₁ b₂ b₃).symm)
    rw [parseExplicitSubdiff_cons, subdiffEntries, subdiffEntriesUpTo, hchunks]
    by_cases hmask : b &&& 0xC0 = 0
    · have hrest : parseExplicitSubdiff q = .ok (subdiffEntries q) := ih
      rw [if_neg (by simpa using hmask), hrest, bind_ok,
        List.takeWhile_cons_of_pos (by simpa using hmask), List.map_cons, subdiffEntry, hword]
      rfl
    · rw [if_pos hmask, List.takeWhile_cons_of_neg (by simpa using hmask), List.map_nil]

theorem readOffsets_eq (p : List UInt8) : readOffsets p = .ok (offsets p) := by
  induction p using readOffsets.induct with
  | case1 p h =>
    rw [readOffsets, dif_pos h, offsets, Aes.chunksExact_of_lt h]
    rfl
  | case2 p h ih =>
    have hle := Nat.not_lt.mp h
    rw [readOffsets, dif_neg h, indexU24_piece hle, bind_ok, ih, bind_ok, offsets, offsets,
      chunksExact_of_le (by decide) hle]
    rfl

theorem parseSubdiffIndex_eq (h : 4 ≤ p.length) :
    parseSubdiffIndex p = .ok ⟨word p 0, offsets (p.drop 4)⟩ := by
  rw [parseSubdiffIndex, refuseIf_neg (Nat.not_lt.mpr h), bind_ok,
    indexU32_word (by omega), bind_ok, readOffsets_eq, bind_ok, pure_eq]

theorem parseMediaKeyData_eq (p : List UInt8) : parseMediaKeyData p = .ok (keyEntries p) := by
  induction p using parseMediaKeyData.induct with
  | case1 p h =>
    rw [parseMediaKeyData, dif_pos h, keyEntries, Aes.chunksExact_of_lt h]
    rfl
  | case2 p h ih =>
    have hle := Nat.not_lt.mp h
    rw [parseMediaKeyData, dif_neg h, readArray_block hle, bind_ok, ih, bind_ok,
      keyEntries, keyEntries, chunksExact_of_le (by decide) hle]
    rfl

theorem parseVariantNumber_eq (h : 16 ≤ p.length) :
    parseVariantNumber p = .ok ⟨Aes.block (p.take 16), p.drop 16⟩ := by
  rw [parseVariantNumber, refuseIf_neg (Nat.not_lt.mpr h), bind_ok, readArray_block h, bind_ok,
    sliceFrom_of_le h, bind_ok, pure_eq]

/-- The signature of an End record of the right length. -/
def endSignatureIn (p : List UInt8) : Option Ecdsa.Signature :=
  if h : p.length = 40 then some ⟨p, h⟩ else none

theorem endSignature_eq (p : List UInt8) : endSignature p = .ok (endSignatureIn p) := by
  rw [endSignature, endSignatureIn]
  by_cases h : p.length = 40
  · have hread : (readArray 40 p 0 : Result (Bytes 40)) = .ok ⟨p, h⟩ := by
      rw [readArray_eq_ok, List.drop_zero, List.take_of_length_le h.le]
      exact ⟨by omega, rfl⟩
    rw [if_pos h, dif_pos h, hread, bind_ok, pure_eq]
  · rw [if_neg h, dif_neg h, pure_eq]

end

theorem exists_ok_ite {α : Type} {c : Prop} [Decidable c] {x y : Result α} (hx : c → ∃ a, x = .ok a)
    (hy : ¬c → ∃ a, y = .ok a) : ∃ a, (if c then x else y) = .ok a := by
  by_cases hc : c
  · rw [if_pos hc]
    exact hx hc
  · rw [if_neg hc]
    exact hy hc

theorem decodeRecord_shaped {tag : UInt8} {p : List UInt8} (h : Shaped tag p)
    (record : List UInt8) (m : Mkb) :
    ∃ m', decodeRecord tag p record m = .ok m' := by
  rw [decodeRecord]
  refine exists_ok_ite (fun ht => ⟨_, by rw [parseTypeAndVersion_eq (h.typeAndVersion ht)]; rfl⟩)
    fun _ => ?_
  refine exists_ok_ite (fun ht => ?_) fun _ => ?_
  · obtain ⟨hlen, bs, hbs⟩ := h.revocationList (.inl ht)
    exact ⟨_, by rw [parseRevocationListWithBlocks_eq hlen hbs]; rfl⟩
  refine exists_ok_ite (fun ht => ?_) fun _ => ?_
  · obtain ⟨hlen, bs, hbs⟩ := h.revocationList (.inr ht)
    exact ⟨_, by rw [parseRevocationListWithBlocks_eq hlen hbs]; rfl⟩
  refine exists_ok_ite (fun ht => ⟨_, by rw [parseVerifyMediaKey_eq (h.verifyMediaKey ht)]; rfl⟩)
    fun _ => ?_
  refine exists_ok_ite (fun _ => ⟨_, by rw [parseExplicitSubdiff_eq]; rfl⟩) fun _ => ?_
  refine exists_ok_ite
    (fun ht => ⟨_, by rw [parseSubdiffIndex_eq (h.subdiffIndex ht)]; rfl⟩) fun _ => ?_
  refine exists_ok_ite (fun _ => ⟨_, by rw [parseMediaKeyData_eq]; rfl⟩) fun _ => ?_
  refine exists_ok_ite (fun _ => ⟨_, by rw [parseMediaKeyData_eq]; rfl⟩) fun _ => ?_
  refine exists_ok_ite (fun ht => ⟨_, by rw [parseVariantNumber_eq (h.variantNumber ht)]; rfl⟩)
    fun _ => ?_
  exact exists_ok_ite (fun _ => ⟨_, by rw [endSignature_eq]; rfl⟩) fun _ => ⟨_, rfl⟩

theorem foldlM_shaped {rs : List MkbRecord} (h : ∀ r ∈ rs, Shaped r.tag r.payload)
    (st : ParseState) :
    ∃ st', rs.foldlM stepRecord st = .ok st' := by
  induction rs generalizing st with
  | nil => exact ⟨st, rfl⟩
  | cons r rs ih =>
    obtain ⟨hr, hrs⟩ := List.forall_mem_cons.mp h
    obtain ⟨m, hm⟩ := decodeRecord_shaped hr r.bytes st.out
    rw [List.foldlM_cons, stepRecord, hm]
    exact ih hrs _

theorem stepRecord_saw {st st' : ParseState} {r : MkbRecord} (h : stepRecord st r = .ok st') :
    st'.firstRecord = false ∧ st'.sawTypeRecordFirst =
      if st.firstRecord ∧ r.tag = tagTypeAndVersion then true else st.sawTypeRecordFirst := by
  obtain ⟨m, -, h⟩ := bind_eq_ok.mp h
  obtain rfl := ok.inj h
  exact ⟨rfl, rfl⟩

/-- Behind the first record the parser keeps what it has seen in front. -/
theorem foldlM_saw {rs : List MkbRecord} {st st' : ParseState} (hst : st.firstRecord = false)
    (h : rs.foldlM stepRecord st = .ok st') : st'.sawTypeRecordFirst = st.sawTypeRecordFirst := by
  induction rs generalizing st with
  | nil =>
    obtain rfl := ok.inj h
    rfl
  | cons r rs ih =>
    rw [List.foldlM_cons] at h
    obtain ⟨st₁, hstep, hrest⟩ := bind_eq_ok.mp h
    obtain ⟨hfirst, hsaw⟩ := stepRecord_saw hstep
    rw [ih hfirst hrest, hsaw, if_neg (by simp [hst])]

theorem foldlM_saw_first {rs : List MkbRecord} {st' : ParseState}
    (h : rs.foldlM stepRecord ⟨{}, false, true⟩ = .ok st') :
    st'.sawTypeRecordFirst = true ↔ rs.head?.map Record.tag = some tagTypeAndVersion := by
  cases rs with
  | nil =>
    obtain rfl := ok.inj h
    simp
  | cons r rs =>
    rw [List.foldlM_cons] at h
    obtain ⟨st₁, hstep, hrest⟩ := bind_eq_ok.mp h
    obtain ⟨hfirst, hsaw⟩ := stepRecord_saw hstep
    rw [foldlM_saw hfirst hrest, hsaw]
    simp

/-- The value of the length field of the header in front. -/
def headerLength (rest : List UInt8) : Nat := beNat ((rest.drop 1).take 3)

theorem header_of_four_le {rest : List UInt8} (h : 4 ≤ rest.length) :
    ∃ tag v, (index rest 0 : Result UInt8) = .ok tag ∧ (indexU24 rest 1 : Result UInt32) = .ok v ∧
      v.toNat = headerLength rest := by
  obtain ⟨tag, htag⟩ : ∃ tag, (index rest 0 : Result UInt8) = .ok tag := ⟨_, index_of_lt (by omega)⟩
  have hv : (indexU24 rest 1 : Result UInt32) = .ok (UInt32.ofNat (headerLength rest)) := by
    rw [← Nat.add_zero 1, ← indexU24_drop]
    exact indexU24_piece (by rw [List.length_drop]; omega)
  have hlt := beNat_lt ((rest.drop 1).take 3)
  rw [List.length_take_of_le (by rw [List.length_drop]; omega)] at hlt
  exact ⟨tag, _, htag, hv, UInt32.toNat_ofNat_of_lt' (Nat.lt_of_lt_of_le hlt (by decide))⟩

theorem parseLoop_encode (rs : List MkbRecord) (rest : List UInt8) (st : ParseState) :
    parseLoop (encode rs ++ rest) st = rs.foldlM stepRecord st >>= parseLoop rest := by
  induction rs generalizing st with
  | nil => rw [encode_nil, List.nil_append, List.foldlM_nil, pure_bind]
  | cons r rs ih =>
    rw [encode_cons, List.append_assoc, parseLoop_record, List.foldlM_cons, bind_assoc]
    exact bind_congr fun st' => ih st'

/-- Padding ends the stream. -/
theorem parseLoop_zeros (n : Nat) (st : ParseState) :
    parseLoop (List.replicate n 0) st = .ok st := by
  rw [parseLoop]
  by_cases hlen : (List.replicate n (0 : UInt8)).length < 4
  · rw [if_pos hlen, pure_eq]
  · obtain ⟨tag, v, htag, hv, hvalue⟩ := header_of_four_le (Nat.not_lt.mp hlen)
    have hzero : headerLength (List.replicate n 0) = 0 := by
      rw [headerLength, List.drop_replicate, List.take_replicate]
      generalize min 3 (n - 1) = k
      induction k with
      | zero => rfl
      | succ k ih => rw [List.replicate_succ, beNat_cons, ih, UInt8.toNat_zero, Nat.zero_mul]
    have hall : (List.replicate n (0 : UInt8)).all (· == 0) = true := by simp
    rw [if_neg hlen, htag, bind_ok, hv, bind_ok]
    dsimp only
    rw [hvalue, hzero, if_pos (by decide), hall, Bool.or_true, if_pos rfl, pure_eq]

theorem parse_shaped {rs : List MkbRecord} (n : Nat)
    (hfirst : rs.head?.map Record.tag = some tagTypeAndVersion)
    (h : ∀ r ∈ rs, Shaped r.tag r.payload) : ∃ m, parse (encode rs ++ List.replicate n 0) = .ok m ∧
      Decodes rs m := by
  obtain ⟨st', hfold⟩ := foldlM_shaped h ⟨{}, false, true⟩
  have hsaw := (foldlM_saw_first hfold).mpr hfirst
  have hdecodes := decodes_nil.foldlM hfold
  rw [List.nil_append] at hdecodes
  refine ⟨st'.out, ?_, hdecodes⟩
  rw [parse, parseLoop_encode, hfold, bind_ok, parseLoop_zeros, bind_ok,
    refuseIf_neg (by simp [hsaw]), bind_ok, pure_eq]

theorem parse_refused {bs : List UInt8} (h : ∀ m, parse bs ≠ .ok m) : ∃ e, parse bs = .err e :=
  (returns_parse bs).exists_err h

/-- A stream without a Type and Version record in front. -/
theorem parse_of_first {bs : List UInt8}
    (h : ∀ (r : MkbRecord) (rest : List UInt8), bs = r.bytes ++ rest → r.tag ≠ tagTypeAndVersion) :
    ∃ e, parse bs = .err e := by
  apply parse_refused
  intro m hm
  obtain ⟨st, hloop, hm⟩ := bind_eq_ok.mp hm
  obtain ⟨_, hsaw, -⟩ := bind_eq_ok.mp hm
  rw [refuseIf_eq_ok, Bool.not_eq_false] at hsaw
  rw [parseLoop_eq] at hloop
  obtain ⟨st', hfold, hrest⟩ := bind_eq_ok.mp hloop
  obtain rfl := parseLoop_rest (next_split_rest bs) hrest
  have hfirst := (foldlM_saw_first hfold).mp hsaw
  have hbytes := @encode_split 3 bs
  cases hrs : (split 3 bs).1 with
  | nil => simp [hrs] at hfirst
  | cons r rs =>
    rw [hrs, encode_cons, List.append_assoc] at hbytes
    rw [hrs] at hfirst
    exact h r _ hbytes.symm (Option.some.inj hfirst)

/-- A record header in the stream that the parser gets past: it begins padding, or comes after an
End record. -/
theorem parse_rest {rs : List MkbRecord} {rest : List UInt8} {m : Mkb}
    (h : parse (encode rs ++ rest) = .ok m)
    (hlen : 4 ≤ rest.length) : headerLength rest ≤ rest.length ∧
      (headerLength rest < 4 → (∃ r ∈ rs, r.tag = tagEndOfBlock) ∨ ∀ b ∈ rest, b = 0) := by
  obtain ⟨st, hloop, -⟩ := bind_eq_ok.mp h
  rw [parseLoop_encode] at hloop
  obtain ⟨st', hfold, hrest⟩ := bind_eq_ok.mp hloop
  have hend := (decodes_nil.foldlM hfold).endOfBlock
  rw [List.nil_append] at hend
  obtain ⟨tag, v, htag, hv, hvalue⟩ := header_of_four_le hlen
  rw [parseLoop, if_neg (Nat.not_lt.mpr hlen), htag, bind_ok, hv, bind_ok] at hrest
  dsimp only at hrest
  rw [hvalue] at hrest
  by_cases hshort : headerLength rest < 4
  · rw [if_pos hshort] at hrest
    refine ⟨hshort.le.trans hlen, fun _ => ?_⟩
    by_cases hstop : (st'.out.endOfBlock || rest.all (· == 0)) = true
    · rw [Bool.or_eq_true, hend] at hstop
      simpa using hstop
    · rw [if_neg hstop] at hrest
      cases hrest
  · rw [if_neg hshort] at hrest
    refine ⟨Nat.not_lt.mp fun hover => ?_, fun hlt => absurd hlt hshort⟩
    rw [dif_pos hover] at hrest
    cases hrest

def lastPayload (tag : UInt8) (rs : List MkbRecord) : Option (List UInt8) :=
  (lastOf tag rs).map Record.payload

/-- What the block holds, from the bytes of the last record of each tag. -/
structure Holds (rs : List MkbRecord) (m : Mkb) : Prop where
  typeAndVersion : ∃ r, lastOf tagTypeAndVersion rs = some r ∧ m.mkbType =
    some (MkbType.fromU32 (word r.payload 0)) ∧
    m.version = word r.payload 4 ∧ m.typeAndVersionRaw = r.bytes
  hostRevocationList : m.hostRevocationList = m.hostRevocationBlocks.flatMap
    RevocationSignatureBlock.entries
  hostRevocationBlocks : Blocks (((lastPayload tagHostRevocationList rs).getD []).drop 4)
    m.hostRevocationBlocks
  driveRevocationList : m.driveRevocationList = m.driveRevocationBlocks.flatMap
    RevocationSignatureBlock.entries
  driveRevocationBlocks : Blocks (((lastPayload tagDriveRevocationList rs).getD []).drop 4)
    m.driveRevocationBlocks
  verifyMediaKey : m.verifyMediaKey = (lastPayload tagVerifyMediaKey rs).map fun p =>
    Aes.block (p.take 16)
  explicitSubdiff : m.explicitSubdiff =
    ((lastPayload tagExplicitSubdiff rs).map subdiffEntries).getD []
  subdiffIndex : m.subdiffIndex = (lastPayload tagSubdiffIndex rs).map fun p =>
    ⟨word p 0, offsets (p.drop 4)⟩
  mediaKeyData : m.mediaKeyData = ((lastPayload tagMediaKeyData rs).map keyEntries).getD []
  mediaKeyVariantData : m.mediaKeyVariantData =
    ((lastPayload tagMediaKeyVariantData rs).map keyEntries).getD []
  variantNumberRecord : m.variantNumberRecord =
    (lastPayload tagVariantNumber rs).map fun p => ⟨Aes.block (p.take 16), p.drop 16⟩
  endOfBlock : m.endOfBlock = rs.any (·.tag = tagEndOfBlock)
  endOfBlockSignature : m.endOfBlockSignature = (lastPayload tagEndOfBlock rs).bind endSignatureIn
  unknownRecords : m.unknownRecords = (rs.filter (·.tag ∉ typedTags)).map fun r => (r.tag, r.bytes)

section
variable {rs : List MkbRecord}

theorem lastOf_spec {tag : UInt8} {r : MkbRecord} (h : lastOf tag rs = some r) :
    r ∈ rs ∧ r.tag = tag := by
  have hmem := List.mem_of_getLast? h
  simpa using hmem

theorem lastPayload_shaped (h : ∀ r ∈ rs, Shaped r.tag r.payload) {tag : UInt8} {p : List UInt8}
    (hp : lastPayload tag rs = some p) : Shaped tag p := by
  obtain ⟨r, hr, rfl⟩ := Option.map_eq_some_iff.mp hp
  obtain ⟨hmem, rfl⟩ := lastOf_spec hr
  exact h r hmem

/-- A field whose decoder succeeds on the last record of its tag. -/
theorem lastDecoded_eq {α : Type} {decode : List UInt8 → Result α} {start x : α} {tag : UInt8}
    (f : List UInt8 → α) (hf : ∀ p, lastPayload tag rs = some p → decode p = .ok (f p))
    (h : lastDecoded decode start tag rs = .ok x) :
    x = ((lastPayload tag rs).map f).getD start := by
  rw [lastDecoded] at h
  rw [lastPayload] at hf ⊢
  cases hr : lastOf tag rs with
  | none =>
    rw [hr] at h
    exact (ok.inj h).symm
  | some r =>
    rw [hr] at h hf
    exact ok.inj (h.symm.trans (hf r.payload rfl))

theorem getD_map_some {α β : Type} (o : Option α) (f : α → β) :
    ((o.map fun a => some (f a)).getD none) = o.map f := by
  cases o <;> rfl

theorem revocationList_holds (hshaped : ∀ r ∈ rs, Shaped r.tag r.payload) {tag : UInt8}
    (htag : tag = tagHostRevocationList ∨ tag = tagDriveRevocationList)
    {entries : List RevocationEntry}
    {bs : List RevocationSignatureBlock} (h : revocationListOf tag rs = .ok (entries, bs)) :
    entries = bs.flatMap RevocationSignatureBlock.entries ∧ Blocks
      (((lastPayload tag rs).getD []).drop 4) bs := by
  rw [revocationListOf, lastDecoded] at h
  rw [lastPayload]
  cases hr : lastOf tag rs with
  | none =>
    rw [hr] at h
    obtain ⟨rfl, rfl⟩ := Prod.mk.inj (ok.inj h)
    exact ⟨rfl, .nil⟩
  | some r =>
    rw [hr] at h
    obtain ⟨hlen, bs', hbs⟩ :=
      (lastPayload_shaped hshaped (by rw [lastPayload, hr]; rfl)).revocationList htag
    dsimp only at h
    rw [parseRevocationListWithBlocks_eq hlen hbs] at h
    obtain ⟨rfl, rfl⟩ := Prod.mk.inj (ok.inj h)
    exact ⟨rfl, hbs⟩

theorem Decodes.holds {m : Mkb} (hd : Decodes rs m)
    (hfirst : rs.head?.map Record.tag = some tagTypeAndVersion)
    (hshaped : ∀ r ∈ rs, Shaped r.tag r.payload) : Holds rs m := by
  have htype : ∃ r, lastOf tagTypeAndVersion rs = some r := by
    obtain ⟨r, hr, htag⟩ := Option.map_eq_some_iff.mp hfirst
    have hmem : r ∈ rs.filter (·.tag = tagTypeAndVersion) := by
      simp [List.mem_of_mem_head? hr, htag]
    exact ⟨_, List.getLast?_eq_some_getLast (List.ne_nil_of_mem hmem)⟩
  constructor
  · obtain ⟨r, hr⟩ := htype
    have hlen := (lastPayload_shaped hshaped (by rw [lastPayload, hr]; rfl)).typeAndVersion rfl
    have htv := hd.typeAndVersion
    rw [typeAndVersionOf, lastDecoded, hr] at htv
    simp only [parseTypeAndVersion_eq hlen, bind_ok, pure_eq, ok.injEq, Prod.mk.injEq] at htv
    exact ⟨r, hr, htv.1.symm, htv.2.symm, by rw [hd.typeAndVersionRaw, hr]; rfl⟩
  · exact (revocationList_holds hshaped (.inl rfl) hd.hostRevocation).1
  · exact (revocationList_holds hshaped (.inl rfl) hd.hostRevocation).2
  · exact (revocationList_holds hshaped (.inr rfl) hd.driveRevocation).1
  · exact (revocationList_holds hshaped (.inr rfl) hd.driveRevocation).2
  · have hf p (hp : lastPayload tagVerifyMediaKey rs = some p) :
        (do let vd ← parseVerifyMediaKey p; pure (some vd) : Result _) =
          .ok (some (Aes.block (p.take 16))) := by
      rw [parseVerifyMediaKey_eq ((lastPayload_shaped hshaped hp).verifyMediaKey rfl),
        bind_ok, pure_eq]
    exact (lastDecoded_eq _ hf hd.verifyMediaKey).trans (getD_map_some _ _)
  · exact lastDecoded_eq _ (fun p _ => parseExplicitSubdiff_eq p) hd.explicitSubdiff
  · have hf p (hp : lastPayload tagSubdiffIndex rs = some p) :
        (do let index ← parseSubdiffIndex p; pure (some index) : Result _) =
          .ok (some ⟨word p 0, offsets (p.drop 4)⟩) := by
      rw [parseSubdiffIndex_eq ((lastPayload_shaped hshaped hp).subdiffIndex rfl), bind_ok, pure_eq]
    exact (lastDecoded_eq _ hf hd.subdiffIndex).trans (getD_map_some _ _)
  · exact lastDecoded_eq _ (fun p _ => parseMediaKeyData_eq p) hd.mediaKeyData
  · exact lastDecoded_eq _ (fun p _ => parseMediaKeyData_eq p) hd.mediaKeyVariantData
  · have hf p (hp : lastPayload tagVariantNumber rs = some p) :
        (do let record ← parseVariantNumber p; pure (some record) : Result _) =
          .ok (some ⟨Aes.block (p.take 16), p.drop 16⟩) := by
      rw [parseVariantNumber_eq ((lastPayload_shaped hshaped hp).variantNumber rfl),
        bind_ok, pure_eq]
    exact (lastDecoded_eq _ hf hd.variantNumberRecord).trans (getD_map_some _ _)
  · exact hd.endOfBlock
  · rw [lastDecoded_eq _ (fun p _ => endSignature_eq p) hd.endOfBlockSignature]
    cases lastPayload tagEndOfBlock rs <;> rfl
  · exact hd.unknownRecords

end

/-- The records of a stream are the fields of the block, and the parser refuses a stream that
begins otherwise, or has a header that begins neither a record nor padding. -/
theorem parse_records :
    (∀ (rs : List MkbRecord) (n : Nat), rs.head?.map Record.tag = some tagTypeAndVersion →
      (∀ r ∈ rs, Shaped r.tag r.payload) → ∃ m, parse (encode rs ++ List.replicate n 0) = .ok m ∧
        Holds rs m) ∧
    (∀ bs : List UInt8,
      (∀ (r : MkbRecord) (rest : List UInt8), bs = r.bytes ++ rest → r.tag ≠ tagTypeAndVersion) →
      ∃ e, parse bs = .err e) ∧
    (∀ (rs : List MkbRecord) (rest : List UInt8), 4 ≤ rest.length → rest.length <
      headerLength rest → ∃ e, parse (encode rs ++ rest) = .err e) ∧
    (∀ (rs : List MkbRecord) (rest : List UInt8), (∀ r ∈ rs, r.tag ≠ tagEndOfBlock) →
      4 ≤ rest.length →
      headerLength rest < 4 → (∃ b ∈ rest, b ≠ 0) → ∃ e, parse (encode rs ++ rest) = .err e) := by
  refine ⟨?_, fun bs h => parse_of_first h, ?_, ?_⟩
  · intro rs n hfirst hshaped
    obtain ⟨m, hm, hdecodes⟩ := parse_shaped n hfirst hshaped
    exact ⟨m, hm, hdecodes.holds hfirst hshaped⟩
  · intro rs rest hlen hover
    exact parse_refused fun m hm => absurd hover (Nat.not_lt.mpr (parse_rest hm hlen).1)
  · intro rs rest hend hlen hshort hpadding
    apply parse_refused
    intro m hm
    obtain ⟨b, hb, hne⟩ := hpadding
    rcases (parse_rest hm hlen).2 hshort with ⟨r, hr, htag⟩ | hzero
    · exact hend r hr htag
    · exact hne (hzero b hb)

theorem shaped_signed (b : UInt8) : ∀ r ∈ [tvRecord, vmkRecord b], Shaped r.tag r.payload := by
  rw [List.forall_mem_cons, List.forall_mem_singleton]
  constructor <;> constructor <;> simp +decide [tvRecord, vmkRecord]

theorem parse_records_signed :
    (∃ m, parse (encode [tvRecord, vmkRecord 7] ++ List.replicate 9 0) = .ok m ∧
      m.verifyMediaKey.isSome) ∧ (∃ e, parse (encode [vmkRecord 7] ++ encode [tvRecord]) = .err e) ∧
      (∃ e, parse (encode [tvRecord] ++ [0x81, 0, 0, 9]) = .err e) ∧
      ∃ e, parse (encode [tvRecord] ++ [0, 0, 0, 3, 0]) = .err e := by
  obtain ⟨hforward, hfirst, hover, hshort⟩ := parse_records
  refine ⟨?_, hfirst _ ?_, hover _ _ (by decide) (by decide),
    hshort _ _ (by decide) (by decide) (by decide) (by decide)⟩
  · obtain ⟨m, hm, hholds⟩ := hforward _ 9 rfl (shaped_signed 7)
    exact ⟨m, hm, by rw [hholds.verifyMediaKey]; rfl⟩
  · intro r rest hbytes htag
    have hhead := congrArg List.head? hbytes
    simp [Record.bytes, vmkRecord, htag] at hhead
    exact absurd hhead (by decide)

/-- A list with a u mask of 64 in front, which has its top bit clear. -/
def mask64Record : MkbRecord := ⟨tagExplicitSubdiff, [0x40, 0, 0, 0, 1], by decide⟩

theorem shaped_mask64 : ∀ r ∈ [tvRecord, mask64Record], Shaped r.tag r.payload := by
  rw [List.forall_mem_cons, List.forall_mem_singleton]
  constructor <;> constructor <;> simp +decide [tvRecord, mask64Record]

/-- The list ends in front of a u mask with its second bit set, not only its top one. -/
theorem mask64_ends_list : ∃ rs m, rs.head?.map Record.tag = some tagTypeAndVersion ∧
    (∀ r ∈ rs, Shaped r.tag r.payload) ∧ parse (encode rs) = .ok m ∧ m.explicitSubdiff ≠
      ((lastPayload tagExplicitSubdiff rs).map (subdiffEntriesUpTo 0x80)).getD [] := by
  obtain ⟨m, hm, hdecodes⟩ := @parse_shaped [tvRecord, mask64Record] 0 rfl shaped_mask64
  rw [List.replicate_zero, List.append_nil] at hm
  refine ⟨_, m, rfl, shaped_mask64, hm, ?_⟩
  rw [(hdecodes.holds rfl shaped_mask64).explicitSubdiff]
  decide

end Mkb
