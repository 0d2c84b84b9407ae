import Aacs.MkbPayload
import Aacs.MkbStream

/-!
# What a parsed media key block holds

Each typed field is the decoding of the last record of its tag, and the unknown
records are kept in order. The signature covers the bytes before the first End
record, so what follows that record is not covered and still counts.
-/
namespace Mkb

open Record

def lastOf (tag : UInt8) (rs : List MkbRecord) : Option MkbRecord :=
  (rs.filter (·.tag = tag)).getLast?

theorem lastOf_append_singleton (tag : UInt8) (rs : List MkbRecord) (r : MkbRecord) :
    lastOf tag (rs ++ [r]) = if r.tag = tag then some r else lastOf tag rs := by
  rw [lastOf, List.filter_append]
  by_cases h : r.tag = tag
  · simp [h]
  · simp [h, lastOf]

/-- The decoding of the last record of a tag, or the value a field starts with. -/
def lastDecoded {α : Type} (decode : List UInt8 → Result α) (start : α) (tag : UInt8)
    (rs : List MkbRecord) : Result α :=
  match lastOf tag rs with
  | some r => decode r.payload
  | none => .ok start

theorem lastDecoded_append_singleton {α : Type} (decode : List UInt8 → Result α) (start : α)
    (tag : UInt8) (rs : List MkbRecord) (r : MkbRecord) :
    lastDecoded decode start tag (rs ++ [r]) =
      if r.tag = tag then decode r.payload else lastDecoded decode start tag rs := by
  rw [lastDecoded, lastOf_append_singleton]
  by_cases h : r.tag = tag
  · simp [h]
  · simp [h, lastDecoded]

def typedTags : List UInt8 :=
  [tagTypeAndVersion, tagHostRevocationList, tagDriveRevocationList, tagVerifyMediaKey,
    tagExplicitSubdiff, tagSubdiffIndex, tagMediaKeyData, tagMediaKeyVariantData, tagVariantNumber,
    tagEndOfBlock]

def unknownOf (rs : List MkbRecord) : List (UInt8 × List UInt8) :=
  (rs.filter (·.tag ∉ typedTags)).map fun r => (r.tag, r.bytes)

def typeAndVersionOf : List MkbRecord → Result (Option MkbType × UInt32) :=
  lastDecoded (fun p => do let tv ← parseTypeAndVersion p; pure (some tv.1, tv.2)) (none, 0)
    tagTypeAndVersion

def revocationListOf (tag : UInt8) :
    List MkbRecord → Result (List RevocationEntry × List RevocationSignatureBlock) :=
  lastDecoded parseRevocationListWithBlocks ([], []) tag

def verifyMediaKeyOf : List MkbRecord → Result (Option (Bytes 16)) :=
  lastDecoded (fun p => do let vd ← parseVerifyMediaKey p; pure (some vd)) none tagVerifyMediaKey

def explicitSubdiffOf : List MkbRecord → Result (List SubsetDifferenceEntry) :=
  lastDecoded parseExplicitSubdiff [] tagExplicitSubdiff

def subdiffIndexOf : List MkbRecord → Result (Option SubsetDiffIndex) :=
  lastDecoded (fun p => do let index ← parseSubdiffIndex p; pure (some index)) none tagSubdiffIndex

def mediaKeyDataOf (tag : UInt8) : List MkbRecord → Result (List (Bytes 16)) :=
  lastDecoded parseMediaKeyData [] tag

def variantNumberOf : List MkbRecord → Result (Option VariantNumberRecord) :=
  lastDecoded (fun p => do let record ← parseVariantNumber p; pure (some record))
    none tagVariantNumber

def endSignatureOf : List MkbRecord → Result (Option Ecdsa.Signature) :=
  lastDecoded endSignature none tagEndOfBlock

/-- The block holds what its records say. -/
structure Decodes (rs : List MkbRecord) (m : Mkb) : Prop where
  typeAndVersion : typeAndVersionOf rs = .ok (m.mkbType, m.version)
  typeAndVersionRaw : m.typeAndVersionRaw = ((lastOf tagTypeAndVersion rs).map bytes).getD []
  hostRevocation : revocationListOf tagHostRevocationList rs =
    .ok (m.hostRevocationList, m.hostRevocationBlocks)
  driveRevocation : revocationListOf tagDriveRevocationList rs =
    .ok (m.driveRevocationList, m.driveRevocationBlocks)
  verifyMediaKey : verifyMediaKeyOf rs = .ok m.verifyMediaKey
  explicitSubdiff : explicitSubdiffOf rs = .ok m.explicitSubdiff
  subdiffIndex : subdiffIndexOf rs = .ok m.subdiffIndex
  mediaKeyData : mediaKeyDataOf tagMediaKeyData rs = .ok m.mediaKeyData
  mediaKeyVariantData : mediaKeyDataOf tagMediaKeyVariantData rs = .ok m.mediaKeyVariantData
  variantNumberRecord : variantNumberOf rs = .ok m.variantNumberRecord
  endOfBlock : m.endOfBlock = rs.any (·.tag = tagEndOfBlock)
  endOfBlockSignature : endSignatureOf rs = .ok m.endOfBlockSignature
  unknownRecords : m.unknownRecords = unknownOf rs

theorem decodes_nil : Decodes [] {} := by
  constructor <;> rfl

section
variable (rs : List MkbRecord) (r : MkbRecord)

@[simp] theorem typeAndVersionOf_append :
    typeAndVersionOf (rs ++ [r]) = if r.tag = tagTypeAndVersion then
    (do let tv ← parseTypeAndVersion r.payload; pure (some tv.1, tv.2)) else typeAndVersionOf rs :=
  lastDecoded_append_singleton _ _ _ _ _

@[simp] theorem revocationListOf_append (tag : UInt8) : revocationListOf tag (rs ++ [r]) =
    if r.tag = tag then parseRevocationListWithBlocks r.payload else revocationListOf tag rs :=
  lastDecoded_append_singleton _ _ _ _ _

@[simp] theorem verifyMediaKeyOf_append :
    verifyMediaKeyOf (rs ++ [r]) = if r.tag = tagVerifyMediaKey then
    (do let vd ← parseVerifyMediaKey r.payload; pure (some vd)) else verifyMediaKeyOf rs :=
  lastDecoded_append_singleton _ _ _ _ _

@[simp] theorem explicitSubdiffOf_append : explicitSubdiffOf (rs ++ [r]) =
    if r.tag = tagExplicitSubdiff then parseExplicitSubdiff r.payload else explicitSubdiffOf rs :=
  lastDecoded_append_singleton _ _ _ _ _

@[simp] theorem subdiffIndexOf_append : subdiffIndexOf (rs ++ [r]) = if r.tag = tagSubdiffIndex then
    (do let index ← parseSubdiffIndex r.payload; pure (some index)) else subdiffIndexOf rs :=
  lastDecoded_append_singleton _ _ _ _ _

@[simp] theorem mediaKeyDataOf_append (tag : UInt8) : mediaKeyDataOf tag (rs ++ [r]) =
    if r.tag = tag then parseMediaKeyData r.payload else mediaKeyDataOf tag rs :=
  lastDecoded_append_singleton _ _ _ _ _

@[simp] theorem variantNumberOf_append :
    variantNumberOf (rs ++ [r]) = if r.tag = tagVariantNumber then
    (do let record ← parseVariantNumber r.payload; pure (some record)) else variantNumberOf rs :=
  lastDecoded_append_singleton _ _ _ _ _

@[simp] theorem endSignatureOf_append : endSignatureOf (rs ++ [r]) =
    if r.tag = tagEndOfBlock then endSignature r.payload else endSignatureOf rs :=
  lastDecoded_append_singleton _ _ _ _ _

@[simp] theorem unknownOf_append : unknownOf (rs ++ [r]) =
    unknownOf rs ++ if r.tag ∈ typedTags then [] else [(r.tag, r.bytes)] := by
  by_cases h : r.tag ∈ typedTags <;> simp [unknownOf, h]

end

/-- What an arm does to the block. -/
theorem decodeRecord_cases {tag : UInt8} {payload record : List UInt8} {m m' : Mkb}
    (h : decodeRecord tag payload record m = .ok m') :
    (tag = tagTypeAndVersion ∧ ∃ tv, parseTypeAndVersion payload = .ok tv ∧
      m' = { m with mkbType := some tv.1, version := tv.2, typeAndVersionRaw := record }) ∨
    (tag = tagHostRevocationList ∧ ∃ rl, parseRevocationListWithBlocks payload = .ok rl ∧
      m' = { m with hostRevocationList := rl.1, hostRevocationBlocks := rl.2 }) ∨
    (tag = tagDriveRevocationList ∧ ∃ rl, parseRevocationListWithBlocks payload = .ok rl ∧
      m' = { m with driveRevocationList := rl.1, driveRevocationBlocks := rl.2 }) ∨
    (tag = tagVerifyMediaKey ∧ ∃ vd, parseVerifyMediaKey payload = .ok vd ∧
      m' = { m with verifyMediaKey := some vd }) ∨
    (tag = tagExplicitSubdiff ∧ ∃ entries, parseExplicitSubdiff payload = .ok entries ∧
      m' = { m with explicitSubdiff := entries }) ∨
    (tag = tagSubdiffIndex ∧ ∃ index, parseSubdiffIndex payload = .ok index ∧
      m' = { m with subdiffIndex := some index }) ∨
    (tag = tagMediaKeyData ∧ ∃ keys, parseMediaKeyData payload = .ok keys ∧
      m' = { m with mediaKeyData := keys }) ∨
    (tag = tagMediaKeyVariantData ∧ ∃ keys, parseMediaKeyData payload = .ok keys ∧
      m' = { m with mediaKeyVariantData := keys }) ∨
    (tag = tagVariantNumber ∧ ∃ vn, parseVariantNumber payload = .ok vn ∧
      m' = { m with variantNumberRecord := some vn }) ∨
    (tag = tagEndOfBlock ∧ ∃ sig, endSignature payload = .ok sig ∧
      m' = { m with endOfBlock := true, endOfBlockSignature := sig }) ∨
    (tag ∉ typedTags ∧ m' = { m with unknownRecords := m.unknownRecords ++ [(tag, record)] }) := by
  have hpure {α : Type} {x : Result α} {f : α → Mkb}
    (h : (do let a ← x; pure (f a)) = Outcome.ok m') :
      ∃ a, x = .ok a ∧ m' = f a := by
    obtain ⟨a, ha, hm⟩ := Outcome.bind_eq_ok.mp h
    exact ⟨a, ha, (Outcome.ok.inj hm).symm⟩
  by_cases h₁ : tag = tagTypeAndVersion
  · rw [decodeRecord, if_pos h₁] at h
    exact .inl ⟨h₁, hpure h⟩
  by_cases h₂ : tag = tagHostRevocationList
  · rw [decodeRecord, if_neg h₁, if_pos h₂] at h
    exact .inr (.inl ⟨h₂, hpure h⟩)
  by_cases h₃ : tag = tagDriveRevocationList
  · rw [decodeRecord, if_neg h₁, if_neg h₂, if_pos h₃] at h
    exact .inr (.inr (.inl ⟨h₃, hpure h⟩))
  refine .inr (.inr (.inr ?_))
  by_cases h₄ : tag = tagVerifyMediaKey
  · rw [decodeRecord, if_neg h₁, if_neg h₂, if_neg h₃, if_pos h₄] at h
    exact .inl ⟨h₄, hpure h⟩
  by_cases h₅ : tag = tagExplicitSubdiff
  · rw [decodeRecord, if_neg h₁, if_neg h₂, if_neg h₃, if_neg h₄, if_pos h₅] at h
    exact .inr (.inl ⟨h₅, hpure h⟩)
  by_cases h₆ : tag = tagSubdiffIndex
  · rw [decodeRecord, if_neg h₁, if_neg h₂, if_neg h₃, if_neg h₄, if_neg h₅, if_pos h₆] at h
    exact .inr (.inr (.inl ⟨h₆, hpure h⟩))
  refine .inr (.inr (.inr ?_))
  by_cases h₇ : tag = tagMediaKeyData
  · rw [decodeRecord, if_neg h₁, if_neg h₂, if_neg h₃, if_neg h₄, if_neg h₅, if_neg h₆,
      if_pos h₇] at h
    exact .inl ⟨h₇, hpure h⟩
  rw [decodeRecord, if_neg h₁, if_neg h₂, if_neg h₃, if_neg h₄, if_neg h₅, if_neg h₆,
    if_neg h₇] at h
  by_cases h₈ : tag = tagMediaKeyVariantData
  · rw [if_pos h₈] at h
    exact .inr (.inl ⟨h₈, hpure h⟩)
  by_cases h₉ : tag = tagVariantNumber
  · rw [if_neg h₈, if_pos h₉] at h
    exact .inr (.inr (.inl ⟨h₉, hpure h⟩))
  refine .inr (.inr (.inr ?_))
  by_cases h₁₀ : tag = tagEndOfBlock
  · rw [if_neg h₈, if_neg h₉, if_pos h₁₀] at h
    exact .inl ⟨h₁₀, hpure h⟩
  · rw [if_neg h₈, if_neg h₉, if_neg h₁₀] at h
    exact .inr ⟨by simp [typedTags, *], (Outcome.ok.inj h).symm⟩

/-- One record. -/
theorem Decodes.record {rs : List MkbRecord} {m m' : Mkb} (h : Decodes rs m) (r : MkbRecord)
    (hr : decodeRecord r.tag r.payload r.bytes m = .ok m') : Decodes (rs ++ [r]) m' := by
  obtain ⟨h₁, h₂, h₃, h₄, h₅, h₆, h₇, h₈, h₉, h₁₀, h₁₁, h₁₂, h₁₃⟩ := h
  rcases decodeRecord_cases hr with ⟨htag, x, hx, rfl⟩ | ⟨htag, x, hx, rfl⟩ | ⟨htag, x, hx, rfl⟩ |
    ⟨htag, x, hx, rfl⟩ | ⟨htag, x, hx, rfl⟩ | ⟨htag, x, hx, rfl⟩ | ⟨htag, x, hx, rfl⟩ |
    ⟨htag, x, hx, rfl⟩ | ⟨htag, x, hx, rfl⟩ | ⟨htag, x, hx, rfl⟩ | ⟨htag, rfl⟩
  case' inr.inr.inr.inr.inr.inr.inr.inr.inr.inr =>
    have hne : ∀ t ∈ typedTags, ¬r.tag = t := fun t ht h => htag (h ▸ ht)
    simp only [typedTags, List.forall_mem_cons, List.not_mem_nil] at hne
  all_goals constructor <;> simp +decide [lastOf_append_singleton, *]

/-- The fold over records. -/
theorem Decodes.foldlM {ps rs : List MkbRecord} {st st' : ParseState} (h : Decodes ps st.out)
    (hr : rs.foldlM stepRecord st = .ok st') : Decodes (ps ++ rs) st'.out := by
  induction rs generalizing ps st with
  | nil =>
    obtain rfl := Outcome.ok.inj hr
    rwa [List.append_nil]
  | cons r rs ih =>
    rw [List.foldlM_cons] at hr
    obtain ⟨st₁, hstep, hrest⟩ := Outcome.bind_eq_ok.mp hr
    obtain ⟨out, hout, hst₁⟩ := Outcome.bind_eq_ok.mp hstep
    obtain rfl := Outcome.ok.inj hst₁
    have hall := ih (h.record r hout) hrest
    rwa [List.append_assoc] at hall

/-- A parsed block holds what the complete records of its bytes say. -/
theorem parse_decodes {bytes : List UInt8} {m : Mkb} (h : parse bytes = .ok m) :
    Decodes (split 3 bytes).1 m := by
  obtain ⟨st, hloop, h⟩ := Outcome.bind_eq_ok.mp h
  obtain ⟨_, -, hm⟩ := Outcome.bind_eq_ok.mp h
  obtain rfl := Outcome.ok.inj hm
  rw [parseLoop_eq] at hloop
  obtain ⟨st', hfold, hrest⟩ := Outcome.bind_eq_ok.mp hloop
  obtain rfl := parseLoop_rest (next_split_rest bytes) hrest
  exact decodes_nil.foldlM hfold

/-- The content key derivation and revocation use. -/
structure SameContent (a b : Mkb) : Prop where
  mkbType : a.mkbType = b.mkbType
  version : a.version = b.version
  hostRevocationList : a.hostRevocationList = b.hostRevocationList
  hostRevocationBlocks : a.hostRevocationBlocks = b.hostRevocationBlocks
  driveRevocationList : a.driveRevocationList = b.driveRevocationList
  driveRevocationBlocks : a.driveRevocationBlocks = b.driveRevocationBlocks
  verifyMediaKey : a.verifyMediaKey = b.verifyMediaKey
  explicitSubdiff : a.explicitSubdiff = b.explicitSubdiff
  subdiffIndex : a.subdiffIndex = b.subdiffIndex
  mediaKeyData : a.mediaKeyData = b.mediaKeyData
  unknownRecords : a.unknownRecords = b.unknownRecords

/-- The bytes kept of the last record of a tag, none without one. -/
def keptOf (kept : List UInt8 → List UInt8) (tag : UInt8) (rs : List MkbRecord) : List UInt8 :=
  ((lastOf tag rs).map fun r => kept r.payload).getD []

theorem Keeps.lastDecoded_eq_iff {α : Type} {decode : List UInt8 → Result α} {start : α}
    {kept : List UInt8 → List UInt8} (h : Keeps decode start kept) {tag : UInt8}
    {rs ss : List MkbRecord} {x y : α}
    (hx : lastDecoded decode start tag rs = .ok x) (hy : lastDecoded decode start tag ss = .ok y) :
    x = y ↔ keptOf kept tag rs = keptOf kept tag ss := by
  rw [lastDecoded] at hx hy
  rw [keptOf, keptOf]
  cases hr : lastOf tag rs with
  | none =>
    rw [hr] at hx
    obtain rfl := Outcome.ok.inj hx
    cases hs : lastOf tag ss with
    | none =>
      rw [hs] at hy
      exact iff_of_true (Outcome.ok.inj hy) rfl
    | some s =>
      rw [hs] at hy
      exact eq_comm.trans ((h.eq_start_iff hy).trans eq_comm)
  | some r =>
    rw [hr] at hx
    cases hs : lastOf tag ss with
    | none =>
      rw [hs] at hy
      obtain rfl := Outcome.ok.inj hy
      exact h.eq_start_iff hx
    | some s =>
      rw [hs] at hy
      exact h.eq_iff hx hy

/-- After the records `ps`, the records `ra` and `rb` leave the same kept bytes in the last
record of each tag that content comes from, and they hold the same unknown records. -/
structure TrailersAgree (ps ra rb : List MkbRecord) : Prop where
  typeAndVersion : keptOf (·.take 8) tagTypeAndVersion (ps ++ ra) =
    keptOf (·.take 8) tagTypeAndVersion (ps ++ rb)
  hostRevocation : keptOf (fun p => keptBlocks (p.drop 4)) tagHostRevocationList (ps ++ ra) =
    keptOf (fun p => keptBlocks (p.drop 4)) tagHostRevocationList (ps ++ rb)
  driveRevocation : keptOf (fun p => keptBlocks (p.drop 4)) tagDriveRevocationList (ps ++ ra) =
    keptOf (fun p => keptBlocks (p.drop 4)) tagDriveRevocationList (ps ++ rb)
  verifyMediaKey : keptOf (·.take 16) tagVerifyMediaKey (ps ++ ra) =
    keptOf (·.take 16) tagVerifyMediaKey (ps ++ rb)
  explicitSubdiff : keptOf keptSubdiff tagExplicitSubdiff (ps ++ ra) =
    keptOf keptSubdiff tagExplicitSubdiff (ps ++ rb)
  subdiffIndex : keptOf (fun p => p.take (4 + (p.drop 4).length / 3 * 3)) tagSubdiffIndex
    (ps ++ ra) = keptOf (fun p => p.take (4 + (p.drop 4).length / 3 * 3)) tagSubdiffIndex (ps ++ rb)
  mediaKeyData : keptOf (fun p => p.take (p.length / 16 * 16)) tagMediaKeyData (ps ++ ra) =
    keptOf (fun p => p.take (p.length / 16 * 16)) tagMediaKeyData (ps ++ rb)
  unknownRecords : (ra.filter (·.tag ∉ typedTags)) = (rb.filter (·.tag ∉ typedTags))

theorem unknownOf_inj {rs ss : List MkbRecord} :
    unknownOf rs = unknownOf ss ↔ rs.filter (·.tag ∉ typedTags) = ss.filter
      (·.tag ∉ typedTags) := by
  apply List.map_inj_right
  intro r s h
  have hbytes := next_bytes_append r []
  rw [(Prod.mk.inj h).2, next_bytes_append] at hbytes
  exact ((Prod.mk.inj (Option.some.inj hbytes)).1).symm

theorem sameContent_iff {ps ra rb : List MkbRecord} {ma mb : Mkb} (ha : Decodes (ps ++ ra) ma)
    (hb : Decodes (ps ++ rb) mb) : SameContent ma mb ↔ TrailersAgree ps ra rb := by
  have htv := keeps_typeAndVersion.lastDecoded_eq_iff ha.typeAndVersion hb.typeAndVersion
  have hhost := keeps_revocationList.lastDecoded_eq_iff ha.hostRevocation hb.hostRevocation
  have hdrive := keeps_revocationList.lastDecoded_eq_iff ha.driveRevocation hb.driveRevocation
  have hvmk := keeps_verifyMediaKey.lastDecoded_eq_iff ha.verifyMediaKey hb.verifyMediaKey
  have hsubdiff := keeps_explicitSubdiff.lastDecoded_eq_iff ha.explicitSubdiff hb.explicitSubdiff
  have hindex := keeps_subdiffIndex.lastDecoded_eq_iff ha.subdiffIndex hb.subdiffIndex
  have hkeys := keeps_mediaKeyData.lastDecoded_eq_iff ha.mediaKeyData hb.mediaKeyData
  have hunknown : ma.unknownRecords = mb.unknownRecords ↔
      ra.filter (·.tag ∉ typedTags) = rb.filter (·.tag ∉ typedTags) := by
    rw [← unknownOf_inj, ha.unknownRecords, hb.unknownRecords]
    simp [unknownOf]
  rw [Prod.mk.injEq] at htv hhost hdrive
  constructor
  · intro h
    exact {
      typeAndVersion := htv.mp ⟨h.mkbType, h.version⟩
      hostRevocation := hhost.mp ⟨h.hostRevocationList, h.hostRevocationBlocks⟩
      driveRevocation := hdrive.mp ⟨h.driveRevocationList, h.driveRevocationBlocks⟩
      verifyMediaKey := hvmk.mp h.verifyMediaKey
      explicitSubdiff := hsubdiff.mp h.explicitSubdiff
      subdiffIndex := hindex.mp h.subdiffIndex
      mediaKeyData := hkeys.mp h.mediaKeyData
      unknownRecords := hunknown.mp h.unknownRecords }
  · intro h
    exact {
      mkbType := (htv.mpr h.typeAndVersion).1
      version := (htv.mpr h.typeAndVersion).2
      hostRevocationList := (hhost.mpr h.hostRevocation).1
      hostRevocationBlocks := (hhost.mpr h.hostRevocation).2
      driveRevocationList := (hdrive.mpr h.driveRevocation).1
      driveRevocationBlocks := (hdrive.mpr h.driveRevocation).2
      verifyMediaKey := hvmk.mpr h.verifyMediaKey
      explicitSubdiff := hsubdiff.mpr h.explicitSubdiff
      subdiffIndex := hindex.mpr h.subdiffIndex
      mediaKeyData := hkeys.mpr h.mediaKeyData
      unknownRecords := hunknown.mpr h.unknownRecords }

/-- Two accepted blocks that begin with the same records hold the same content exactly when what is
behind these agrees. -/
theorem sameContent_iff_of_parse {rs : List MkbRecord} {ta tb : List UInt8} {ma mb : Mkb}
    (ha : parse (encode rs ++ ta) = .ok ma) (hb : parse (encode rs ++ tb) = .ok mb) :
    SameContent ma mb ↔ TrailersAgree rs (split 3 ta).1 (split 3 tb).1 := by
  have hda := parse_decodes ha
  have hdb := parse_decodes hb
  rw [split_encode_append] at hda hdb
  exact sameContent_iff hda hdb

/-- Two accepted blocks with the same bytes up to the first End record, both with a valid
signature, hold the same content exactly when their trailers agree. -/
theorem sameContent_iff_trailersAgree (rs : List MkbRecord) (e : MkbRecord) (ta tb : List UInt8)
    (aacsLaPub : Point) (ma mb : Mkb) (_hrs : ∀ r ∈ rs, r.tag ≠ tagEndOfBlock)
    (_he : e.tag = tagEndOfBlock) (ha : parse (encode (rs ++ [e]) ++ ta) = .ok ma)
    (hb : parse (encode (rs ++ [e]) ++ tb) = .ok mb)
    (_hva : ma.verifyEndOfBlockSignature (encode (rs ++ [e]) ++ ta) aacsLaPub = .ok ())
    (_hvb : mb.verifyEndOfBlockSignature (encode (rs ++ [e]) ++ tb) aacsLaPub = .ok ()) :
    SameContent ma mb ↔ TrailersAgree (rs ++ [e]) (split 3 ta).1 (split 3 tb).1 :=
  sameContent_iff_of_parse ha hb

/-- Parsing a byte string made of records. -/
theorem parse_encode {rs : List MkbRecord} {st : ParseState}
    (h : rs.foldlM stepRecord ⟨{}, false, true⟩ = .ok st) (hfirst : st.sawTypeRecordFirst = true) :
    parse (encode rs) = .ok st.out := by
  have hsplit := split_encode_append rs []
  rw [List.append_nil, split_nil, List.append_nil] at hsplit
  have hrest : parseLoop [] st = .ok st := by
    rw [parseLoop]
    rfl
  rw [parse, parseLoop_eq, hsplit, h, Outcome.bind_ok, hrest, Outcome.bind_ok, hfirst]
  rfl

/-- The signature check in terms of the records. -/
theorem verifyEndOfBlockSignature_iff {rs : List MkbRecord} {e : MkbRecord}
    (hrs : ∀ r ∈ rs, r.tag ≠ tagEndOfBlock)
    (he : e.tag = tagEndOfBlock) (tail : List UInt8) (m : Mkb) (aacsLaPub : Point) :
    m.verifyEndOfBlockSignature (encode (rs ++ [e]) ++ tail) aacsLaPub = .ok () ↔
      ∃ sig, m.endOfBlockSignature = some sig ∧ Ecdsa.verify aacsLaPub sig (encode rs) = true := by
  have hprefix : findEndOfBlockSignedPrefixLen (encode (rs ++ [e]) ++ tail) =
      .ok (encode rs).length := by
    rw [findEndOfBlockSignedPrefixLen, findRecord_eq, split_encode_append, List.append_assoc,
      List.singleton_append, firstExtent_append hrs he, Nat.zero_add]
    rfl
  have hdata : (Outcome.slice (encode (rs ++ [e]) ++ tail) 0 (encode rs).length : Result
    (List UInt8)) =
      .ok (encode rs) := by
    rw [Outcome.slice_of_le (Nat.zero_le _) (by simp), encode_append, List.append_assoc]
    exact congrArg _ (List.take_left' rfl)
  rw [verifyEndOfBlockSignature, Outcome.bind_eq_ok]
  simp only [Outcome.okOr_eq_ok, hprefix, hdata, Outcome.bind_ok, Outcome.refuseIf_eq_ok,
    Bool.not_eq_false]

def tvRecord : MkbRecord := ⟨tagTypeAndVersion, [0, 3, 0x10, 3, 0, 0, 0, 1], by decide⟩

def vmkRecord (b : UInt8) : MkbRecord := ⟨tagVerifyMediaKey, List.replicate 16 b, by simp⟩

def endRecord (sig : Ecdsa.Signature) : MkbRecord := ⟨tagEndOfBlock, sig.toList, by simp⟩

/-- What is read before the End record. -/
def signedState (b : UInt8) : ParseState :=
  { out := { mkbType := some .type3, version := 1, typeAndVersionRaw := tvRecord.bytes,
             verifyMediaKey := some ⟨List.replicate 16 b, by simp⟩ }
    sawTypeRecordFirst := true
    firstRecord := false }

theorem foldlM_signed (b : UInt8) :
    [tvRecord, vmkRecord b].foldlM stepRecord ⟨{}, false, true⟩ = .ok (signedState b) := rfl

theorem stepRecord_end (st : ParseState) (sig : Ecdsa.Signature) : stepRecord st (endRecord sig) =
    .ok { st with
      out := { st.out with endOfBlock := true, endOfBlockSignature := some sig }, firstRecord :=
  false } := by
  have hread : (Outcome.readArray 40 sig.toList 0 : Result (Bytes 40)) = .ok sig := by
    rw [Outcome.readArray_eq_ok]
    exact ⟨by simp, (List.take_of_length_le (by simp)).symm⟩
  have hsig : endSignature sig.toList = .ok (some sig) := by
    rw [endSignature, if_pos sig.length_toList, hread]
    rfl
  change (endSignature sig.toList >>= _) >>= _ = _
  rw [hsig]
  obtain ⟨out, first, firstRecord⟩ := st
  cases firstRecord <;> rfl

/-- The block before, and the same bytes with one more record. -/
def shortBlock (sig : Ecdsa.Signature) : List UInt8 :=
  encode ([tvRecord, vmkRecord 0] ++ [endRecord sig])

def longBlock (sig : Ecdsa.Signature) : List UInt8 := shortBlock sig ++ (vmkRecord 1).bytes

theorem parse_shortBlock (sig : Ecdsa.Signature) : parse (shortBlock sig) = .ok
    { (signedState 0).out with endOfBlock := true, endOfBlockSignature := some sig } := by
  refine @parse_encode _ ⟨_, true, false⟩ ?_ rfl
  rw [List.foldlM_append, foldlM_signed, Outcome.bind_ok, List.foldlM_cons, stepRecord_end]
  rfl

theorem parse_longBlock (sig : Ecdsa.Signature) : parse (longBlock sig) = .ok
    { (signedState 1).out with endOfBlock := true, endOfBlockSignature := some sig } := by
  have hencode : longBlock sig =
      encode ([tvRecord, vmkRecord 0] ++ [endRecord sig] ++ [vmkRecord 1]) := by
    rw [encode_append]
    rfl
  rw [hencode]
  refine @parse_encode _ ⟨_, true, false⟩ ?_ rfl
  rw [List.foldlM_append, List.foldlM_append, foldlM_signed, Outcome.bind_ok, List.foldlM_cons,
    stepRecord_end]
  rfl

theorem exists_signed : ∃ sig, Ecdsa.verify (Ecdsa.publicKey U160.one) sig
    (encode [tvRecord, vmkRecord 0]) = true :=
  @Ecdsa.exists_verified_one Aes128.fips197 _ (by decide +kernel)

theorem verifyMediaKey_ne :
    (signedState 0).out.verifyMediaKey ≠ (signedState 1).out.verifyMediaKey := by decide

/-- Both blocks are accepted and carry a valid signature, and they hold different Verify
Media Key values. -/
theorem trailing_record_counts : ∃ (rs : List MkbRecord) (e : MkbRecord) (ta tb : List UInt8)
    (aacsLaPub : Point) (ma mb : Mkb), (∀ r ∈ rs, r.tag ≠ tagEndOfBlock) ∧ e.tag = tagEndOfBlock ∧
    parse (encode (rs ++ [e]) ++ ta) = .ok ma ∧ parse (encode (rs ++ [e]) ++ tb) = .ok mb ∧
    ma.verifyEndOfBlockSignature (encode (rs ++ [e]) ++ ta) aacsLaPub = .ok () ∧
    mb.verifyEndOfBlockSignature (encode (rs ++ [e]) ++ tb) aacsLaPub = .ok () ∧
    ¬SameContent ma mb := by
  obtain ⟨sig, hsig⟩ := exists_signed
  have hrs : ∀ r ∈ [tvRecord, vmkRecord 0], r.tag ≠ tagEndOfBlock := by decide
  exact ⟨[tvRecord, vmkRecord 0], endRecord sig, [], (vmkRecord 1).bytes, Ecdsa.publicKey U160.one,
    _, _, hrs, rfl, (congrArg parse (List.append_nil _)).trans (parse_shortBlock sig),
    parse_longBlock sig, (verifyEndOfBlockSignature_iff hrs rfl _ _ _).mpr ⟨sig, rfl, hsig⟩,
    (verifyEndOfBlockSignature_iff hrs rfl _ _ _).mpr ⟨sig, rfl, hsig⟩,
    fun h => verifyMediaKey_ne h.verifyMediaKey⟩

theorem sameContent_iff_trailersAgree_vmk : ∃ (sig : Ecdsa.Signature) (ma mb : Mkb),
    parse (shortBlock sig) = .ok ma ∧ parse (longBlock sig) = .ok mb ∧
    (SameContent ma mb ↔ TrailersAgree ([tvRecord, vmkRecord 0] ++ [endRecord sig]) []
      (split 3 (vmkRecord 1).bytes).1) := by
  obtain ⟨sig, hsig⟩ := exists_signed
  have hrs : ∀ r ∈ [tvRecord, vmkRecord 0], r.tag ≠ tagEndOfBlock := by decide
  have hnil : (split 3 []).1 = [] := congrArg Prod.fst split_nil
  have hshort := (congrArg parse (List.append_nil (shortBlock sig))).trans (parse_shortBlock sig)
  have hiff :=
    sameContent_iff_trailersAgree [tvRecord, vmkRecord 0] (endRecord sig) [] (vmkRecord 1).bytes
    (Ecdsa.publicKey U160.one) _ _ hrs rfl hshort (parse_longBlock sig)
    ((verifyEndOfBlockSignature_iff hrs rfl _ _ _).mpr ⟨sig, rfl, hsig⟩)
    ((verifyEndOfBlockSignature_iff hrs rfl _ _ _).mpr ⟨sig, rfl, hsig⟩)
  rw [hnil] at hiff
  exact ⟨sig, _, _, parse_shortBlock sig, parse_longBlock sig, hiff⟩

end Mkb
