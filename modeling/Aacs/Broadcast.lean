import Aacs.AlignedUnit
import Aacs.SubdiffMasks
import Aacs.SubtreeKeys
import Aacs.VolumeKeys

/-!
# Broadcast to the devices that are not revoked

What a licensor issues: for each subset of the devices the same key, encrypted under the
processing key of its `v` node. A device in one of the subsets gets the media key from a key
it holds; a device in none is refused, and holds no key on the way to any of the nodes.
-/

open Subdiff KeyTree

/-- A subset of the devices: an entry of the MKB, and the key of its `u` node. -/
structure Subset where
  root : Bytes 16
  entry : SubsetDifferenceEntry
  listed : entry.uMaskZeroBits &&& 0xC0 = 0

namespace Subset

def level (s : Subset) : Nat := s.entry.uMaskZeroBits.toNat

def node (s : Subset) : Nat := s.entry.uv.toNat

/-- Below the `u` node, and not below the `v` node. -/
def Covers (s : Subset) (d : UInt32) : Prop :=
  SameFrom s.level d.toNat s.node ∧ ¬SameFrom (targetLevel s.entry.uv) d.toNat s.node

/-- The bits from place 32 on are clear in both words. -/
theorem sameFrom_toNat_iff {k : Nat} {a b : UInt32} :
    SameFrom k a.toNat b.toNat ↔ ∀ j < 32, k ≤ j → a.toNat.testBit j = b.toNat.testBit j := by
  constructor
  · intro h j _ hj
    exact h j hj
  · intro h j hj
    by_cases hlt : j < 32
    · exact h j hlt hj
    · have hpow : 2 ^ 32 ≤ 2 ^ j := Nat.pow_le_pow_right (by decide) (Nat.not_lt.mp hlt)
      rw [Nat.testBit_lt_two_pow (a.toNat_lt.trans_le hpow),
        Nat.testBit_lt_two_pow (b.toNat_lt.trans_le hpow)]

theorem sameFrom_of_le {k : Nat} (a b : UInt32) (h : 32 ≤ k) : SameFrom k a.toNat b.toNat := by
  rw [sameFrom_toNat_iff]
  intro j hlt hj
  omega

/-- The test of the code is that a device is in the subset. -/
theorem applies_iff_covers (s : Subset) (d : UInt32) :
    appliesToDevice (AacsVolume.subsetDifference s.entry) d = true ↔ s.Covers d := by
  by_cases hzero : s.entry.uv = 0
  · have hlevel : 32 ≤ targetLevel s.entry.uv := by
      rw [hzero]
      decide +kernel
    rw [not_appliesToDevice_of_vMask (vMask_degenerate (.inl hzero))]
    exact iff_of_false (by decide) fun h => h.2 (sameFrom_of_le _ _ hlevel)
  · rw [appliesToDevice_iff hzero, Covers, level, node, sameFrom_toNat_iff, sameFrom_toNat_iff]
    push Not
    rfl

theorem applies_eq_false {s : Subset} {d : UInt32} (h : ¬s.Covers d) :
    appliesToDevice (AacsVolume.subsetDifference s.entry) d = false := by
  rw [← applies_iff_covers, Bool.not_eq_true] at h
  exact h

end Subset

/-- `issued` is the media key, or with key conversion data its precursor. -/
structure Licence where
  issued : Bytes 16
  kcd : Option (Bytes 16)
  plain : Bytes 16
  plain_sentinel : plain.toList.take 8 = Mkb.verifyMediaKeySentinel
  subsets : List Subset
  fits : 1 + 3 + 16 * subsets.length < 256 ^ 3

namespace Licence

variable (aes : Aes128) (L : Licence)

def mediaKey : Bytes 16 :=
  match L.kcd with
  | none => L.issued
  | some kcd => applyKeyConversionData aes L.issued kcd

/-- The block of the Verify Media Key Record. -/
def verifyData : Bytes 16 := aes.encrypt (L.mediaKey aes) L.plain

def subdiffPayload : List UInt8 :=
  L.subsets.flatMap fun s => Mkb.SubsetDifferenceEntry.bytes s.entry

def keyData (s : Subset) : Bytes 16 :=
  aes.encrypt (targetProcessingKey aes s.root s.level s.entry.uv)
    (L.issued.xor (uvBlock s.entry.uv))

def mediaKeyPayload : List UInt8 := (L.subsets.map (L.keyData aes)).flatMap Bytes.toList

/-- A precursor must not pass for the media key itself. -/
def Settled : Prop :=
  L.kcd ≠ none → (aes.decrypt L.issued (L.verifyData aes)).toList.take 8 ≠
    Mkb.verifyMediaKeySentinel

/-- The records of a block in which what is issued stands, among any others. -/
structure Written (rs : List Mkb.MkbRecord) : Prop where
  first : rs.head?.map Record.tag = some Mkb.tagTypeAndVersion
  shaped : ∀ r ∈ rs, Mkb.Shaped r.tag r.payload
  verifyMediaKey : Mkb.lastPayload Mkb.tagVerifyMediaKey rs = some (L.verifyData aes).toList
  explicitSubdiff : Mkb.lastPayload Mkb.tagExplicitSubdiff rs = some L.subdiffPayload
  mediaKeyData : Mkb.lastPayload Mkb.tagMediaKeyData rs = some (L.mediaKeyPayload aes)

theorem length_subdiffPayload : L.subdiffPayload.length = 5 * L.subsets.length := by
  have hentry : ∀ s ∈ L.subsets, (Mkb.SubsetDifferenceEntry.bytes s.entry).length = 5 := by
    intro s _
    simp [Mkb.SubsetDifferenceEntry.bytes]
  rw [subdiffPayload, length_flatMap_const hentry, Nat.mul_comm]

theorem length_mediaKeyPayload : (L.mediaKeyPayload aes).length = 16 * L.subsets.length := by
  rw [mediaKeyPayload, Bytes.toList_flatMap_length, List.length_map, Nat.mul_comm]

theorem subdiffPayload_fits : 1 + 3 + L.subdiffPayload.length < 256 ^ 3 := by
  have hfits := L.fits
  rw [length_subdiffPayload]
  omega

theorem mediaKeyPayload_fits : 1 + 3 + (L.mediaKeyPayload aes).length < 256 ^ 3 := by
  rw [length_mediaKeyPayload]
  exact L.fits

theorem verifyData_fits : 1 + 3 + (L.verifyData aes).toList.length < 256 ^ 3 := by
  rw [Bytes.length_toList]
  decide

/-- A block of nothing else. -/
def records : List Mkb.MkbRecord :=
  [Mkb.tvRecord, ⟨Mkb.tagVerifyMediaKey, (L.verifyData aes).toList, L.verifyData_fits aes⟩,
    ⟨Mkb.tagExplicitSubdiff, L.subdiffPayload, L.subdiffPayload_fits⟩,
    ⟨Mkb.tagMediaKeyData, L.mediaKeyPayload aes, L.mediaKeyPayload_fits aes⟩]

theorem written_records : L.Written aes (L.records aes) := by
  refine ⟨rfl, ?_, rfl, rfl, rfl⟩
  simp only [records, List.forall_mem_cons, List.not_mem_nil, false_imp_iff, implies_true, and_true]
  refine ⟨?_, ?_, ?_, ?_⟩ <;> constructor <;> simp +decide [Mkb.tvRecord]

theorem parseExplicitSubdiff_bytes (ss : List Subset) :
    Mkb.parseExplicitSubdiff (ss.flatMap fun s => Mkb.SubsetDifferenceEntry.bytes s.entry) =
      .ok (ss.map Subset.entry) := by
  induction ss with
  | nil =>
    rw [Mkb.parseExplicitSubdiff]
    rfl
  | cons s ss ih =>
    have hlisted : ¬s.entry.uMaskZeroBits &&& 0xC0 ≠ 0 := not_not_intro s.listed
    have hbytes : Mkb.SubsetDifferenceEntry.bytes s.entry = [s.entry.uMaskZeroBits] ++
      u32ToBe s.entry.uv := rfl
    rw [List.flatMap_cons, hbytes, u32ToBe, List.append_assoc, List.cons_append, List.nil_append]
    simp only [List.cons_append, List.nil_append]
    rw [Mkb.parseExplicitSubdiff_cons, if_neg hlisted, ih, Outcome.bind_ok, List.map_cons,
      u32FromBe_toBe]

theorem keyEntries_flatMap (bs : List (Bytes 16)) :
    Mkb.keyEntries (bs.flatMap Bytes.toList) = bs := by
  rw [Mkb.keyEntries, Aes.chunksExact_blocks (by decide), List.map_map]
  exact (List.map_congr_left fun b _ => Aes.block_bytes b).trans (List.map_id bs)

/-- What is issued, as it stands in a block that has been read. -/
structure Carried (mkb : Mkb) : Prop where
  verifyMediaKey : mkb.verifyMediaKey = some (L.verifyData aes)
  explicitSubdiff : mkb.explicitSubdiff = L.subsets.map Subset.entry
  mediaKeyData : mkb.mediaKeyData = L.subsets.map (L.keyData aes)

variable {aes} {L}

theorem Written.parse {rs : List Mkb.MkbRecord} (h : L.Written aes rs) (n : Nat) :
    ∃ mkb, Mkb.parse (Record.encode rs ++ List.replicate n 0) = .ok mkb ∧ L.Carried aes mkb := by
  obtain ⟨mkb, hparse, hdecodes⟩ := Mkb.parse_shaped n h.first h.shaped
  have hholds := hdecodes.holds h.first h.shaped
  have hentries : Mkb.subdiffEntries L.subdiffPayload = L.subsets.map Subset.entry :=
    Outcome.ok.inj
      ((Mkb.parseExplicitSubdiff_eq _).symm.trans (parseExplicitSubdiff_bytes L.subsets))
  refine ⟨mkb, hparse, ?_, ?_, ?_⟩
  · have htake : (L.verifyData aes).toList.take 16 = (L.verifyData aes).toList :=
      List.take_of_length_le (by simp)
    rw [hholds.verifyMediaKey, h.verifyMediaKey, Option.map_some, htake, Aes.block_bytes]
  · rw [hholds.explicitSubdiff, h.explicitSubdiff, Option.map_some, Option.getD_some, hentries]
  · rw [hholds.mediaKeyData, h.mediaKeyData, Option.map_some, Option.getD_some, mediaKeyPayload,
      keyEntries_flatMap]

theorem exists_first {α : Type} {p : α → Prop} {l : List α} (h : ∃ a ∈ l, p a) :
    ∃ (i : Nat) (a : α), l[i]? = some a ∧ p a ∧ ∀ j < i, ∀ b, l[j]? = some b → ¬p b := by
  classical
  have hplace : ∃ (i : Nat) (a : α), l[i]? = some a ∧ p a := by
    obtain ⟨a, ha, hp⟩ := h
    obtain ⟨i, hi⟩ := List.getElem?_of_mem ha
    exact ⟨i, a, hi, hp⟩
  obtain ⟨a, ha, hp⟩ := Nat.find_spec hplace
  refine ⟨Nat.find hplace, a, ha, hp, ?_⟩
  intro j hj b hb hpb
  exact Nat.find_min hplace hj ⟨b, hb, hpb⟩

/-- The first subset that covers a device: what it holds at one level gives what is issued. -/
theorem Carried.deriveMediaKey (haes : ∀ key data, aes.decrypt key (aes.encrypt key data) = data)
    {vol : AacsVolume}
    (h : L.Carried aes vol.mkb) {d : UInt32} (hcovered : ∃ s ∈ L.subsets, s.Covers d) :
    ∃ s ∈ L.subsets, s.Covers d ∧ ∃ k < 32, k < s.level ∧ ∀ dk : DeviceKey,
      AacsVolume.dNode dk = d →
      dk.vMaskZeroBits.toNat = k → dk.key = (keyTree aes).heldKey s.root s.level d.toNat k →
        vol.deriveMediaKeyFromDeviceKey aes dk = .ok L.issued := by
  obtain ⟨i, s, hs, hcovers, hfirst⟩ := exists_first hcovered
  obtain ⟨k, htarget, hlevel, habove, -⟩ := (keyTree aes).exists_heldKey_walk hcovers.1 hcovers.2
  have hlt : k < 32 := Nat.not_le.mp fun hle =>
    (beside_sameFrom_iff.mp habove).1 (Subset.sameFrom_of_le d s.entry.uv hle k le_rfl)
  have huv : s.entry.uv ≠ 0 := (targetLevel_le_of_applies ((s.applies_iff_covers d).mpr hcovers)).1
  refine ⟨s, List.mem_of_getElem? hs, hcovers, k, hlt, hlevel, ?_⟩
  rintro dk rfl hz hkey
  have hentry : vol.mkb.explicitSubdiff[i]? = some s.entry := by
    rw [h.explicitSubdiff, List.getElem?_map, hs, Option.map_some]
  have hearlier : ∀ j < i, ∀ e', vol.mkb.explicitSubdiff[j]? = some e' →
      appliesToDevice (AacsVolume.subsetDifference e') (AacsVolume.dNode dk) = false := by
    intro j hj e' he'
    rw [h.explicitSubdiff, List.getElem?_map] at he'
    obtain ⟨s', hs', rfl⟩ := Option.map_eq_some_iff.mp he'
    exact Subset.applies_eq_false (hfirst j hj s' hs')
  have hnode : dk.key = nodeKey aes s.root s.level s.entry.uv dk.vMaskZeroBits.toNat := by
    rw [hkey, hz, nodeKey]
    exact (keyTree aes).heldKey_eq_walk s.root habove
  have hdata : vol.mkb.mediaKeyData[i]? = some (L.keyData aes s) := by
    rw [h.mediaKeyData, List.getElem?_map, hs, Option.map_some]
  exact AacsVolume.deriveMediaKey_nodeKey haes hentry ((s.applies_iff_covers _).mpr hcovers)
    hearlier huv hnode (hz ▸ htarget) (hz ▸ Nat.le_of_lt hlt) (hz ▸ Nat.le_of_lt hlevel) hdata

theorem Carried.isVerifiedMediaKey
    (haes : ∀ key data, aes.decrypt key (aes.encrypt key data) = data) {mkb : Mkb}
    (h : L.Carried aes mkb) : mkb.isVerifiedMediaKey aes (L.mediaKey aes) = true := by
  rw [Mkb.isVerifiedMediaKey, h.verifyMediaKey]
  simp [verifyData, haes, L.plain_sentinel]

/-- With the key conversion data of the disc, what is issued gives the volume unique key. -/
theorem Carried.deriveVuk (haes : ∀ key data, aes.decrypt key (aes.encrypt key data) = data)
    {vol : AacsVolume} (h : L.Carried aes vol.mkb) (hsettled : L.Settled aes) {dk : DeviceKey}
    (hc : vol.deriveMediaKeyFromDeviceKey aes dk = .ok L.issued) (volumeId : Bytes 16) :
    vol.deriveVukFromDeviceKeyWithKcd aes dk volumeId L.kcd =
      .ok (AacsVolume.deriveVuk aes (L.mediaKey aes) volumeId) := by
  have hverified := h.isVerifiedMediaKey haes
  cases hkcd : L.kcd with
  | none =>
    have hkey : L.mediaKey aes = L.issued := by rw [mediaKey, hkcd]
    rw [hkey] at hverified ⊢
    exact AacsVolume.deriveVukWithKcd_of_ok hc hverified volumeId none
  | some kcd =>
    have hkey : L.mediaKey aes = applyKeyConversionData aes L.issued kcd := by rw [mediaKey, hkcd]
    have hprecursor : ¬vol.mkb.isVerifiedMediaKey aes L.issued = true := by
      rw [Mkb.isVerifiedMediaKey, h.verifyMediaKey, decide_eq_true_iff]
      exact hsettled (hkcd ▸ Option.some_ne_none kcd)
    refine (AacsVolume.deriveVukWithKcd_some_eq_ok hc).mpr
      ⟨_, AacsVolume.resolveMediaKeyWithKcd_eq_ok.mpr ⟨?_, hverified⟩, rfl⟩
    rw [if_neg hprecursor, hkey]

theorem Carried.deriveMediaKey_revoked {vol : AacsVolume} (h : L.Carried aes vol.mkb)
    {dk : DeviceKey} (hnone : ∀ s ∈ L.subsets, ¬s.Covers (AacsVolume.dNode dk)) :
    vol.deriveMediaKeyFromDeviceKey aes dk = .err .deviceRevoked := by
  apply AacsVolume.deriveMediaKey_of_none
  rw [AacsVolume.chooseEntry_eq_none, h.explicitSubdiff]
  intro e he
  obtain ⟨s, hs, rfl⟩ := List.mem_map.mp he
  exact Subset.applies_eq_false (hnone s hs)

/-- A device below both nodes of a subset holds no key above the lower one. -/
theorem not_above_of_not_covers {s : Subset} {d : UInt32} (hbelow : SameFrom s.level d.toNat s.node)
    (h : ¬s.Covers d) {k : Nat} (hk : targetLevel s.entry.uv ≤ k) :
    ¬SameFrom k (beside d.toNat k) s.node := by
  intro habove
  have hsame : SameFrom (targetLevel s.entry.uv) d.toNat s.node :=
    not_not.mp fun hnot => h ⟨hbelow, hnot⟩
  exact (beside_sameFrom_iff.mp habove).1 (hsame k hk)

/-- A block in which a licence is written gives the volume unique key to the devices of its
subsets, each from a key it holds, and to no other device: it is refused whatever its key, and
has no key on the way to the nodes it is below. -/
theorem broadcast_exact (haes : ∀ key data, aes.decrypt key (aes.encrypt key data) = data)
    {rs : List Mkb.MkbRecord} (hrs : L.Written aes rs) (hsettled : L.Settled aes) (n : Nat) :
    ∃ mkb, Mkb.parse (Record.encode rs ++ List.replicate n 0) = .ok mkb ∧
      ∀ vol : AacsVolume, vol.mkb = mkb → ∀ d : UInt32,
        ((∃ s ∈ L.subsets, s.Covers d) → ∃ s ∈ L.subsets, s.Covers d ∧ ∃ k < 32, k < s.level ∧
          ∀ dk : DeviceKey, AacsVolume.dNode dk = d → dk.vMaskZeroBits.toNat = k →
            dk.key = (keyTree aes).heldKey s.root s.level d.toNat k → ∀ volumeId,
              vol.deriveVukFromDeviceKeyWithKcd aes dk volumeId L.kcd =
                .ok (AacsVolume.deriveVuk aes (L.mediaKey aes) volumeId)) ∧
        ((∀ s ∈ L.subsets, ¬s.Covers d) →
          (∀ dk : DeviceKey, AacsVolume.dNode dk = d → ∀ volumeId kcd,
            vol.deriveVukFromDeviceKey aes dk volumeId = .err .deviceRevoked ∧
            vol.deriveVukFromDeviceKeyWithKcd aes dk volumeId kcd = .err .deviceRevoked) ∧
          ∀ s ∈ L.subsets, SameFrom s.level d.toNat s.node → ∀ k, targetLevel s.entry.uv ≤ k →
            ¬SameFrom k (beside d.toNat k) s.node) := by
  obtain ⟨mkb, hparse, hcarried⟩ := hrs.parse n
  refine ⟨mkb, hparse, ?_⟩
  rintro vol rfl d
  constructor
  · intro hcovered
    obtain ⟨s, hs, hcovers, k, hk, hlevel, hkm⟩ := hcarried.deriveMediaKey haes hcovered
    refine ⟨s, hs, hcovers, k, hk, hlevel, ?_⟩
    intro dk hnode hz hkey volumeId
    exact hcarried.deriveVuk haes hsettled (hkm dk hnode hz hkey) volumeId
  · intro hnone
    constructor
    · rintro dk rfl volumeId kcd
      have hrevoked := hcarried.deriveMediaKey_revoked hnone
      constructor
      · rw [AacsVolume.deriveVukFromDeviceKey, hrevoked, Outcome.bind_err]
      · rw [AacsVolume.deriveVukFromDeviceKeyWithKcd, hrevoked, Outcome.bind_err]
    · intro s hs hbelow k hk
      exact not_above_of_not_covers hbelow (hnone s hs) hk

/-- Two subsets below nodes at level 24, and a precursor that they share. -/
def twoSubsets : Licence where
  issued := AacsVolume.twoEntriesKm
  kcd := some (Bytes.ofNat 16 0x101112131415161718191a1b1c1d1e1f)
  plain := AacsVolume.twoEntriesPlain
  plain_sentinel := rfl
  subsets := [⟨Bytes.zero 16, ⟨24, 0x22010000⟩, rfl⟩, ⟨Bytes.zero 16, ⟨24, 0x11010000⟩, rfl⟩]
  fits := by decide

/-- The precursor does not pass for the media key. -/
theorem settled_twoSubsets : twoSubsets.Settled Aes128.fips197 := by
  intro _
  decide +kernel

/-- The device `0x11020001` is in the second subset, and `0x11010001` in none. -/
theorem broadcast_exact_twoSubsets :
    ∃ mkb, Mkb.parse
      (Record.encode (twoSubsets.records Aes128.fips197) ++ List.replicate 3 0) = .ok mkb ∧
      ∀ vol : AacsVolume, vol.mkb = mkb →
        (∃ dk, AacsVolume.dNode dk = 0x11020001 ∧ ∀ volumeId,
          vol.deriveVukFromDeviceKeyWithKcd Aes128.fips197 dk volumeId twoSubsets.kcd =
            .ok (AacsVolume.deriveVuk Aes128.fips197 (twoSubsets.mediaKey Aes128.fips197)
              volumeId)) ∧
        ∀ dk, AacsVolume.dNode dk = 0x11010001 → ∀ volumeId,
          vol.deriveVukFromDeviceKey Aes128.fips197 dk volumeId = .err .deviceRevoked := by
  obtain ⟨mkb, hparse, hvol⟩ := broadcast_exact Aes128.decryptBlock_encryptBlock
    (twoSubsets.written_records Aes128.fips197) settled_twoSubsets 3
  refine ⟨mkb, hparse, ?_⟩
  intro vol hmkb
  constructor
  · have hcovers : ∃ s ∈ twoSubsets.subsets, s.Covers 0x11020001 := by
      refine ⟨_, List.mem_cons_of_mem _ List.mem_cons_self, ?_⟩
      rw [← Subset.applies_iff_covers]
      decide +kernel
    obtain ⟨s, -, -, k, hk, -, hkm⟩ := (hvol vol hmkb 0x11020001).1 hcovers
    have hz : (UInt8.ofNat k).toNat = k := UInt8.toNat_ofNat_of_lt' (hk.trans (by decide))
    exact ⟨⟨_, 0, s.entry.uMaskZeroBits, UInt8.ofNat k, some 0x11020001⟩, rfl, hkm _ rfl hz rfl⟩
  · have hnone : ∀ s ∈ twoSubsets.subsets, ¬s.Covers 0x11010001 := by
      simp only [← Subset.applies_iff_covers]
      decide +kernel
    intro dk hnode volumeId
    exact (((hvol vol hmkb 0x11010001).2 hnone).1 dk hnode volumeId none).1

end Licence
