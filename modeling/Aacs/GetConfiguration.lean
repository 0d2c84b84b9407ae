import Aacs.Error
import Aacs.Usize

/-!
# The AACS feature descriptor

A response to GET CONFIGURATION is a header and descriptors of varying length. The
search for the AACS descriptor walks them by their own lengths.
-/
namespace Mmc

def getConfigurationOpcode : UInt8 := 0x46
def getConfigRtOne : UInt8 := 0x02
def featureAacs : UInt16 := 0x010D
def featureHeaderLen : Nat := 8
def aacsFeatureDescriptorLen : Nat := 8
def aacsFeatureAdditionalLength : UInt8 := 0x04

structure GetConfiguration where
  rt : UInt8
  startingFeature : UInt16
  allocationLength : UInt16
  control : UInt8
  deriving DecidableEq

namespace GetConfiguration

def aacsFeature : GetConfiguration :=
  ⟨getConfigRtOne, featureAacs, UInt16.ofNat (featureHeaderLen + aacsFeatureDescriptorLen), 0⟩

def cdb (gc : GetConfiguration) : Bytes 10 :=
  ⟨[getConfigurationOpcode, gc.rt &&& 0x03] ++ u16ToBe gc.startingFeature ++ [0, 0, 0] ++
    u16ToBe gc.allocationLength ++ [gc.control], rfl⟩

def parseCdb (cdb : Bytes 10) : Result GetConfiguration := do
  Outcome.refuseIf (cdb.get 0 ≠ getConfigurationOpcode)
    (.invalidValue "GET_CONFIGURATION opcode" (cdb.get 0).toNat)
  pure {
    rt := cdb.get 1 &&& 0x03
    startingFeature := u16FromBe (cdb.get 2) (cdb.get 3)
    allocationLength := u16FromBe (cdb.get 7) (cdb.get 8)
    control := cdb.get 9 }

end GetConfiguration

structure AacsFeatureDescriptor where
  current : Bool
  persistent : Bool
  version : UInt8
  readDriveCertificate : Bool
  returnMkbOfCprm : Bool
  writeBusEncryption : Bool
  busEncryptionCapable : Bool
  bindingNonceGeneration : Bool
  blockCountForBindingNonce : UInt8
  numberOfAgids : UInt8
  aacsVersion : UInt8
  deriving DecidableEq

def AacsFeatureDescriptor.toBytes (d : AacsFeatureDescriptor) : Bytes 8 :=
  ⟨u16ToBe featureAacs ++
    [((d.version &&& 0x0F) <<< 2) ||| (d.persistent.toUInt8 <<< 1) ||| d.current.toUInt8,
      aacsFeatureAdditionalLength,
      (d.readDriveCertificate.toUInt8 <<< 7) ||| (d.returnMkbOfCprm.toUInt8 <<< 6) |||
        (d.writeBusEncryption.toUInt8 <<< 5) ||| (d.busEncryptionCapable.toUInt8 <<< 4) |||
        d.bindingNonceGeneration.toUInt8,
      d.blockCountForBindingNonce, d.numberOfAgids &&& 0x07, d.aacsVersion], rfl⟩

/-- The header, whose data length counts what follows it, and the one descriptor. -/
def buildGetConfigurationAacsResponse (descriptor : AacsFeatureDescriptor)
    (currentProfile : UInt16) : List UInt8 :=
  let body := descriptor.toBytes.toList
  let dataLength := UInt32.ofNat (featureHeaderLen - 4 + body.length)
  u32ToBe dataLength ++ [0, 0] ++ u16ToBe currentProfile ++ body

def parseAacsFeatureDescriptor (buf : List UInt8) : Result AacsFeatureDescriptor := do
  Outcome.refuseIf (buf.length < aacsFeatureDescriptorLen) (.truncated "AACS Feature Descriptor")
  let featureCode ← Outcome.indexU16 buf 0
  Outcome.refuseIf (featureCode ≠ featureAacs)
    (.invalidValue "AACS Feature Descriptor Feature Code" featureCode.toNat)
  let additionalLength ← Outcome.index buf 3
  Outcome.refuseIf (additionalLength ≠ aacsFeatureAdditionalLength)
    (.invalidValue "AACS Feature Descriptor Additional Length" additionalLength.toNat)
  let b₂ ← Outcome.index buf 2
  let b₄ ← Outcome.index buf 4
  let b₅ ← Outcome.index buf 5
  let b₆ ← Outcome.index buf 6
  let b₇ ← Outcome.index buf 7
  pure {
    current := b₂ &&& 0x01 ≠ 0
    persistent := b₂ &&& 0x02 ≠ 0
    version := (b₂ >>> 2) &&& 0x0F
    readDriveCertificate := b₄ &&& 0x80 ≠ 0
    returnMkbOfCprm := b₄ &&& 0x40 ≠ 0
    writeBusEncryption := b₄ &&& 0x20 ≠ 0
    busEncryptionCapable := b₄ &&& 0x10 ≠ 0
    bindingNonceGeneration := b₄ &&& 0x01 ≠ 0
    blockCountForBindingNonce := b₅
    numberOfAgids := b₆ &&& 0x07
    aacsVersion := b₇ }

/-- The walk: `offset` is where the next descriptor begins. -/
def findLoop (response : List UInt8) (offset : Nat) : Result (Option AacsFeatureDescriptor) :=
  if _h : offset + 4 ≤ response.length then do
    let featureCode ← Outcome.indexU16 response offset
    let additionalLength ← Outcome.index response (offset + 3)
    let descriptorLen := 4 + additionalLength.toNat
    Outcome.refuseIf (offset + descriptorLen > response.length)
      (.truncated "GET CONFIGURATION Feature Descriptor")
    if featureCode = featureAacs then
      let buf ← Outcome.slice response offset (offset + descriptorLen)
      let descriptor ← parseAacsFeatureDescriptor buf
      pure (some descriptor)
    else findLoop response (offset + descriptorLen)
  else pure none
termination_by response.length - offset

def findAacsFeatureDescriptor (response : List UInt8) : Result (Option AacsFeatureDescriptor) := do
  Outcome.refuseIf (response.length < featureHeaderLen)
    (.truncated "GET CONFIGURATION Feature Header")
  findLoop response featureHeaderLen

/-- A complete descriptor: four header bytes, the last of which counts the rest. -/
structure FeatureDescriptor where
  featureCode : UInt16
  flags : UInt8
  body : List UInt8
  fits : body.length < 256

namespace FeatureDescriptor

def additionalLength (d : FeatureDescriptor) : UInt8 := UInt8.ofNat d.body.length

def bytes (d : FeatureDescriptor) : List UInt8 :=
  u16ToBe d.featureCode ++ [d.flags, d.additionalLength] ++ d.body

def encode (ds : List FeatureDescriptor) : List UInt8 := ds.flatMap bytes

@[simp] theorem encode_nil : encode [] = [] := rfl

@[simp] theorem encode_cons (d : FeatureDescriptor) (ds : List FeatureDescriptor) :
    encode (d :: ds) = d.bytes ++ encode ds := rfl

theorem additionalLength_toNat (d : FeatureDescriptor) : d.additionalLength.toNat = d.body.length :=
  UInt8.toNat_ofNat_of_lt' d.fits

theorem length_bytes (d : FeatureDescriptor) : d.bytes.length = 4 + d.additionalLength.toNat := by
  rw [additionalLength_toNat, bytes, List.length_append]
  rfl

/-- A byte string begins with at most one descriptor. -/
theorem bytes_append_inj {d d' : FeatureDescriptor} {rest rest' : List UInt8}
    (h : d.bytes ++ rest = d'.bytes ++ rest') : d.bytes = d'.bytes ∧ rest = rest' := by
  have hlength : d.additionalLength = d'.additionalLength := by
    have hbyte := congrArg (fun bs => bs[3]?) h
    exact Option.some.inj hbyte
  apply List.append_inj h
  rw [length_bytes, length_bytes, hlength]

/-- The byte string begins with no complete descriptor. -/
def Incomplete (bs : List UInt8) : Prop := ∀ d rest, bs ≠ bytes d ++ rest

theorem incomplete_of_length {bs : List UInt8} (h : bs.length < 4) : Incomplete bs := by
  rintro d rest rfl
  rw [List.length_append, length_bytes] at h
  omega

/-- The split into complete descriptors and a rest that begins with none is unique. -/
theorem encode_append_inj {ds ds' : List FeatureDescriptor} {tail tail' : List UInt8}
    (htail : Incomplete tail) (htail' : Incomplete tail')
    (h : encode ds ++ tail = encode ds' ++ tail') :
    tail = tail' := by
  induction ds generalizing ds' with
  | nil =>
    cases ds' with
    | nil => exact h
    | cons d' ds' =>
      rw [encode_nil, List.nil_append, encode_cons, List.append_assoc] at h
      exact absurd h (htail d' _)
  | cons d ds ih =>
    cases ds' with
    | nil =>
      rw [encode_nil, List.nil_append, encode_cons, List.append_assoc] at h
      exact absurd h.symm (htail' d _)
    | cons d' ds' =>
      rw [encode_cons, encode_cons, List.append_assoc, List.append_assoc] at h
      exact ih (bytes_append_inj h).2

/-- A header whose body runs past the end. -/
def CutBody (bs : List UInt8) : Prop :=
  ∃ b, 4 ≤ bs.length ∧ bs[3]? = some b ∧ bs.length < 4 + b.toNat

theorem CutBody.incomplete {bs : List UInt8} (h : CutBody bs) : Incomplete bs := by
  rintro d rest rfl
  obtain ⟨b, -, hb, hbody⟩ := h
  have hbyte : (d.bytes ++ rest)[3]? = some d.additionalLength := rfl
  obtain rfl := Option.some.inj (hbyte.symm.trans hb)
  rw [List.length_append, d.length_bytes] at hbody
  omega

/-- A byte string is too short for a header, ends in a body, or begins with a descriptor. -/
theorem incomplete_or_bytes (bs : List UInt8) :
    bs.length < 4 ∨ CutBody bs ∨ ∃ d rest, bs = bytes d ++ rest := by
  by_cases hheader : bs.length < 4
  · exact .inl hheader
  right
  rcases bs with _ | ⟨b₀, _ | ⟨b₁, _ | ⟨b₂, _ | ⟨b₃, tail⟩⟩⟩⟩
  · exact absurd (Nat.zero_lt_succ _) hheader
  · exact absurd (by decide : 1 < 4) hheader
  · exact absurd (by decide : 2 < 4) hheader
  · exact absurd (by decide : 3 < 4) hheader
  by_cases hbody : tail.length < b₃.toNat
  · refine .inl ⟨b₃, by simp, rfl, ?_⟩
    simp only [List.length_cons]
    omega
  · right
    have hlength : (tail.take b₃.toNat).length = b₃.toNat :=
      List.length_take_of_le (not_lt.mp hbody)
    refine ⟨⟨u16FromBe b₀ b₁, b₂, tail.take b₃.toNat, hlength.trans_lt b₃.toNat_lt⟩,
      tail.drop b₃.toNat, ?_⟩
    have hbyte : UInt8.ofNat (tail.take b₃.toNat).length = b₃ := by
      rw [hlength, UInt8.ofNat_toNat]
    simp only [bytes, additionalLength, hbyte, u16ToBe_fromBe, List.cons_append, List.nil_append,
      List.take_append_drop]

end FeatureDescriptor

open FeatureDescriptor

section Walk

variable {response : List UInt8} {offset : Nat}

/-- Too few bytes for a header end the walk. -/
theorem findLoop_short (h : (response.drop offset).length < 4) :
    findLoop response offset = .ok none := by
  rw [List.length_drop] at h
  rw [findLoop, dif_neg (by omega)]
  rfl

/-- A body that runs past the end is refused. -/
theorem findLoop_cut (h : CutBody (response.drop offset)) :
    findLoop response offset = .err (.truncated "GET CONFIGURATION Feature Descriptor") := by
  obtain ⟨b, hheader, hb, hbody⟩ := h
  rw [List.length_drop] at hheader hbody
  obtain ⟨code, hcode⟩ : ∃ code, (Outcome.indexU16 response offset : Result UInt16) = .ok code := by
    rw [Outcome.indexU16, Outcome.index_of_lt (by omega), Outcome.bind_ok,
      Outcome.index_of_lt (by omega), Outcome.bind_ok]
    exact ⟨_, rfl⟩
  have hindex : (Outcome.index response (offset + 3) : Result UInt8) = .ok b := by
    rw [← Outcome.index_drop, Outcome.index, hb, Outcome.expect_some]
  rw [findLoop, dif_pos (by omega), hcode, Outcome.bind_ok, hindex, Outcome.bind_ok]
  dsimp only
  rw [Outcome.refuseIf_pos (by omega), Outcome.bind_err]

/-- A complete descriptor is parsed or stepped over. -/
theorem findLoop_bytes {d : FeatureDescriptor} {rest : List UInt8}
    (h : response.drop offset = d.bytes ++ rest) :
    findLoop response offset =
      if d.featureCode = featureAacs then some <$> parseAacsFeatureDescriptor d.bytes
      else findLoop response (offset + d.bytes.length) := by
  have hcode : (Outcome.indexU16 response offset : Result UInt16) = .ok d.featureCode := by
    rw [Outcome.indexU16_eq_ok, h]
    rfl
  have hindex : (Outcome.index response (offset + 3) : Result UInt8) = .ok d.additionalLength := by
    rw [← Outcome.index_drop, h]
    rfl
  have hbytes := d.length_bytes
  have hlength := congrArg List.length h
  rw [List.length_drop, List.length_append] at hlength
  have hslice : (Outcome.slice response offset (offset + d.bytes.length) : Result (List UInt8)) =
      .ok d.bytes := by
    rw [Outcome.slice_of_le (Nat.le_add_right _ _) (by omega), Nat.add_sub_cancel_left, h,
      List.take_left]
  rw [findLoop, dif_pos (by omega), hcode, Outcome.bind_ok, hindex, Outcome.bind_ok]
  dsimp only
  rw [Outcome.refuseIf_neg (by omega), Outcome.bind_ok, ← hbytes, hslice]
  by_cases haacs : d.featureCode = featureAacs
  · rw [if_pos haacs, if_pos haacs, Outcome.bind_ok]
    cases parseAacsFeatureDescriptor d.bytes <;> rfl
  · rw [if_neg haacs, if_neg haacs]

/-- Complete descriptors, none of them that of AACS. -/
def Foreign (ds : List FeatureDescriptor) : Prop := ∀ d ∈ ds, d.featureCode ≠ featureAacs

/-- The walk steps over foreign descriptors. -/
theorem findLoop_foreign {ds : List FeatureDescriptor} (hds : Foreign ds) {rest : List UInt8}
    (h : response.drop offset = encode ds ++ rest) :
    ∃ next, response.drop next = rest ∧ findLoop response offset = findLoop response next := by
  induction ds generalizing offset with
  | nil => exact ⟨offset, h, rfl⟩
  | cons d ds ih =>
    obtain ⟨hd, hds⟩ := List.forall_mem_cons.mp hds
    rw [encode_cons, List.append_assoc] at h
    have hdrop : response.drop (offset + d.bytes.length) = encode ds ++ rest := by
      rw [← List.drop_drop, h, List.drop_left]
    obtain ⟨next, hnext, heq⟩ := ih hds hdrop
    refine ⟨next, hnext, ?_⟩
    rw [findLoop_bytes h, if_neg hd, heq]

end Walk

section Search

variable {response : List UInt8} {ds : List FeatureDescriptor}

/-- The response is a header, foreign descriptors and `rest`. -/
def After (response : List UInt8) (ds : List FeatureDescriptor) (rest : List UInt8) : Prop :=
  Foreign ds ∧ response.drop featureHeaderLen = encode ds ++ rest

/-- Behind foreign descriptors stand too few bytes for a header, a cut body, or the
descriptor of AACS. -/
theorem foreign_cases (bs : List UInt8) : ∃ ds rest, Foreign ds ∧ bs = encode ds ++ rest ∧
    (rest.length < 4 ∨ CutBody rest ∨
      ∃ (d : FeatureDescriptor) (tail : List UInt8), d.featureCode = featureAacs ∧ rest =
        d.bytes ++ tail) := by
  have hnil : Foreign [] := by
    intro d hd
    cases hd
  induction hn : bs.length using Nat.strong_induction_on generalizing bs with
  | _ n ih =>
    rcases incomplete_or_bytes bs with hshort | hcut | ⟨d, tail, rfl⟩
    · exact ⟨[], bs, hnil, rfl, .inl hshort⟩
    · exact ⟨[], bs, hnil, rfl, .inr (.inl hcut)⟩
    · by_cases haacs : d.featureCode = featureAacs
      · exact ⟨[], _, hnil, rfl, .inr (.inr ⟨d, tail, haacs, rfl⟩)⟩
      · have hlength := d.length_bytes
        rw [List.length_append] at hn
        obtain ⟨ds, rest, hds, hrest, hend⟩ := ih tail.length (by omega) tail rfl
        refine ⟨d :: ds, rest, List.forall_mem_cons.mpr ⟨haacs, hds⟩, ?_, hend⟩
        rw [encode_cons, hrest, List.append_assoc]

theorem findAacsFeatureDescriptor_after (hlen : featureHeaderLen ≤ response.length)
    {rest : List UInt8} (h : After response ds rest) : ∃ offset, response.drop offset = rest ∧
      findAacsFeatureDescriptor response = findLoop response offset := by
  obtain ⟨offset, hdrop, heq⟩ := findLoop_foreign h.1 h.2
  refine ⟨offset, hdrop, ?_⟩
  rw [findAacsFeatureDescriptor, Outcome.refuseIf_neg (not_lt.mpr hlen), Outcome.bind_ok, heq]

theorem find_short (hlen : featureHeaderLen ≤ response.length) {rest : List UInt8}
    (h : After response ds rest) (hrest : rest.length < 4) :
    findAacsFeatureDescriptor response = .ok none := by
  obtain ⟨offset, rfl, heq⟩ := findAacsFeatureDescriptor_after hlen h
  rw [heq, findLoop_short hrest]

theorem find_cut (hlen : featureHeaderLen ≤ response.length) {rest : List UInt8}
    (h : After response ds rest) (hcut : CutBody rest) :
    findAacsFeatureDescriptor response = .err (.truncated "GET CONFIGURATION Feature Descriptor") :=
  by
  obtain ⟨offset, rfl, heq⟩ := findAacsFeatureDescriptor_after hlen h
  rw [heq, findLoop_cut hcut]

theorem find_aacs (hlen : featureHeaderLen ≤ response.length) {d : FeatureDescriptor}
    {tail : List UInt8}
    (h : After response ds (d.bytes ++ tail)) (haacs : d.featureCode = featureAacs) :
    findAacsFeatureDescriptor response = some <$> parseAacsFeatureDescriptor d.bytes := by
  obtain ⟨offset, hdrop, heq⟩ := findAacsFeatureDescriptor_after hlen h
  rw [heq, findLoop_bytes hdrop, if_pos haacs]

/-- The response divides into foreign descriptors. -/
def Divides (response : List UInt8) : Prop := ∃ ds, After response ds []

/-- Behind the foreign descriptors a header or a body runs past the end. -/
def RunsPast (response : List UInt8) : Prop :=
  ∃ ds rest, After response ds rest ∧ rest ≠ [] ∧ Incomplete rest

/-- The header that runs past the end is one, two or three bytes. -/
def StrayBytes (response : List UInt8) : Prop :=
  ∃ ds rest, After response ds rest ∧ rest ≠ [] ∧ rest.length < 4

theorem incomplete_nil : Incomplete [] := incomplete_of_length (Nat.zero_lt_succ _)

theorem not_divides_of_strayBytes (h : StrayBytes response) : ¬Divides response := by
  rintro ⟨ds, -, hds⟩
  obtain ⟨ds', rest, hafter, hrest, hlength⟩ := h
  rw [hafter.2] at hds
  exact hrest (encode_append_inj (incomplete_of_length hlength) incomplete_nil hds)

/-- `Ok(None)` for exactly the responses that divide into foreign descriptors, and else the
first AACS descriptor or a truncation. -/
structure WalkExact (response : List UInt8) : Prop where
  none : findAacsFeatureDescriptor response = .ok none ↔ Divides response
  other : ¬Divides response →
    (∃ (ds : List FeatureDescriptor) (d : FeatureDescriptor) (tail : List UInt8),
      After response ds (d.bytes ++ tail) ∧ d.featureCode = featureAacs ∧
      findAacsFeatureDescriptor response = some <$> parseAacsFeatureDescriptor d.bytes) ∨
    (RunsPast response ∧ ∃ what, findAacsFeatureDescriptor response = .err (.truncated what))

theorem walkExact_of_divides (hlen : featureHeaderLen ≤ response.length) (h : Divides response) :
    WalkExact response := by
  obtain ⟨ds, hafter⟩ := id h
  constructor
  · exact iff_of_true (find_short hlen hafter (Nat.zero_lt_succ _)) h
  · intro hno
    exact absurd h hno

theorem walkExact_of_ne (hno : ¬Divides response)
    (hfind : findAacsFeatureDescriptor response ≠ .ok none)
    (h : (∃ (ds : List FeatureDescriptor) (d : FeatureDescriptor) (tail : List UInt8),
        After response ds (d.bytes ++ tail) ∧ d.featureCode = featureAacs ∧
        findAacsFeatureDescriptor response = some <$> parseAacsFeatureDescriptor d.bytes) ∨
      (RunsPast response ∧ ∃ what, findAacsFeatureDescriptor response = .err (.truncated what))) :
    WalkExact response where
  none := iff_of_false hfind hno
  other _ := h

/-- The walk is exact unless the response ends in one to three stray bytes. -/
theorem findAacsFeatureDescriptor_exact_iff (response : List UInt8)
    (hlen : featureHeaderLen ≤ response.length) : WalkExact response ↔ ¬StrayBytes response := by
  constructor
  · intro hexact hstray
    obtain ⟨ds, rest, hafter, -, hlength⟩ := id hstray
    exact not_divides_of_strayBytes hstray (hexact.none.mp (find_short hlen hafter hlength))
  · intro hstray
    by_cases hdivides : Divides response
    · exact walkExact_of_divides hlen hdivides
    obtain ⟨ds, rest, hds, hrest, hend⟩ := foreign_cases (response.drop featureHeaderLen)
    have hafter : After response ds rest := ⟨hds, hrest⟩
    have hne : rest ≠ [] := by
      rintro rfl
      exact hdivides ⟨ds, hafter⟩
    rcases hend with hshort | hcut | ⟨d, tail, haacs, rfl⟩
    · exact absurd ⟨ds, rest, hafter, hne, hshort⟩ hstray
    · have hfind := find_cut hlen hafter hcut
      apply walkExact_of_ne hdivides
      · rw [hfind]
        exact fun h => by cases h
      · exact .inr ⟨⟨ds, rest, hafter, hne, hcut.incomplete⟩, _, hfind⟩
    · have hfind := find_aacs hlen hafter haacs
      apply walkExact_of_ne hdivides
      · rw [hfind]
        cases parseAacsFeatureDescriptor d.bytes <;> exact fun h => by cases h
      · exact .inl ⟨ds, d, tail, hafter, haacs, hfind⟩

end Search

/-- A header and one byte. -/
def strayResponse : List UInt8 := List.replicate 8 0 ++ [1]

theorem after_strayResponse : After strayResponse [] [1] := by
  constructor
  · intro _ hd
    cases hd
  · rfl

/-- One byte behind the header passes for a response without descriptors. -/
theorem strayResponse_not_exact : findAacsFeatureDescriptor strayResponse = .ok none ∧
    RunsPast strayResponse ∧ ¬WalkExact strayResponse := by
  have hfind := find_short (by decide) after_strayResponse (by decide)
  have hstray : StrayBytes strayResponse := ⟨[], [1], after_strayResponse, by decide, by decide⟩
  refine ⟨hfind, ⟨[], [1], after_strayResponse, by decide, incomplete_of_length (by decide)⟩, ?_⟩
  intro hexact
  exact not_divides_of_strayBytes hstray (hexact.none.mp hfind)

theorem findAacsFeatureDescriptor_exact_iff_stray :
    WalkExact strayResponse ↔ ¬StrayBytes strayResponse :=
  findAacsFeatureDescriptor_exact_iff strayResponse (by decide)

end Mmc
