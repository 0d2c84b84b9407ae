import Aacs.AesInverse
import Aacs.Volume

/-!
# From a device key to the volume unique key

The walk of the code is the walk of a key tree whose children are those of
`AES-G3`. A device key on the path from a root key to the target node therefore
reaches the processing key of that node, which gives the media key back.
-/
namespace Subdiff

variable (aes : Aes128)

/-- The tree of device keys. -/
def keyTree : KeyTree (Bytes 16) where
  left key := (aesG3 aes key).leftChild
  right key := (aesG3 aes key).rightChild

/-- The device key at level `z` on the path along `uv`, from a root key at level `r`. A level
is the number of zero bits of the mask. -/
def nodeKey (root : Bytes 16) (r : Nat) (uv : UInt32) (z : Nat) : Bytes 16 :=
  (keyTree aes).walk uv.toNat r z root

/-- The level of the `v` node. -/
def targetLevel (uv : UInt32) : Nat := trailingZeros uv + 1

/-- The processing key of the `v` node below a root key. -/
def targetProcessingKey (root : Bytes 16) (r : Nat) (uv : UInt32) : Bytes 16 :=
  (aesG3 aes (nodeKey aes root r uv (targetLevel uv))).processingKey

theorem trailingZeros_lt {x : UInt32} (h : x ≠ 0) : trailingZeros x < 32 := by
  have hne : x.toBitVec ≠ 0#32 := fun hx => h (UInt32.toBitVec_inj.mp hx)
  exact BitVec.ctz_lt_iff_ne_zero.mpr hne

theorem shiftRight_and_one (v : UInt32) {n : Nat} (h : n < 32) :
    ((v >>> UInt32.ofNat n) &&& 1 = 0) ↔ v.toNat.testBit n = false := by
  rw [← UInt32.toNat_inj, Nat.testBit_eq_decide_div_mod_eq]
  simp [UInt32.toNat_and, Nat.mod_eq_of_lt h, Nat.shiftRight_eq_div_pow]

theorem walkDown_eq (uv : UInt32) (target : Nat) {m : Nat} (hm : m ≤ 32) (dK : Bytes 16) :
    walkDown aes uv target m dK = .ok ((keyTree aes).walk uv.toNat m target dK) := by
  induction m generalizing dK with
  | zero => rw [walkDown, KeyTree.walk_of_le _ _ (Nat.zero_le target), Outcome.pure_eq]
  | succ m ih =>
    by_cases hlt : target < m + 1
    · have hchild : (if (uv >>> UInt32.ofNat m) &&& 1 = 0 then (aesG3 aes dK).leftChild
          else (aesG3 aes dK).rightChild) = (keyTree aes).child dK (uv.toNat.testBit m) := by
        rw [KeyTree.child]
        by_cases hbit : uv.toNat.testBit m = true <;> simp [shiftRight_and_one uv hm, hbit, keyTree]
      rw [walkDown, if_pos hlt, Outcome.shrU32_of_lt uv hm, Outcome.bind_ok]
      dsimp only
      rw [hchild, ih (Nat.le_of_lt hm), KeyTree.walk_succ _ _ (Nat.lt_succ_iff.mp hlt)]
    · rw [walkDown, if_neg hlt, KeyTree.walk_of_le _ _ (Nat.not_lt.mp hlt), Outcome.pure_eq]

/-- The shortcut for a key that is the final one is the walk of no steps. -/
theorem deriveProcessingKey_eq (key : Bytes 16) (storedUv : UInt32) {stored : UInt8}
    (hstored : stored.toNat ≤ 32) (uv : UInt32) (target : UInt8) :
    deriveProcessingKey aes key storedUv stored uv target =
      .ok (some
        (aesG3 aes ((keyTree aes).walk uv.toNat stored.toNat target.toNat key)).processingKey) := by
  by_cases heq : stored = target
  · rw [deriveProcessingKey, if_pos heq, heq, KeyTree.walk_self, Outcome.pure_eq]
  · rw [deriveProcessingKey, if_neg heq, walkDown_eq aes uv target.toNat hstored, Outcome.bind_ok,
      Outcome.pure_eq]

/-- A key on the path reaches the processing key of the target. -/
theorem deriveProcessingKey_nodeKey (root : Bytes 16) {r : Nat} (uv storedUv : UInt32)
    {stored target : UInt8}
    (htarget : target.toNat = targetLevel uv) (hlo : target.toNat ≤ stored.toNat)
    (hr : stored.toNat ≤ r) (hstored : stored.toNat ≤ 32) :
    deriveProcessingKey aes (nodeKey aes root r uv stored.toNat) storedUv stored uv target =
      .ok (some (targetProcessingKey aes root r uv)) := by
  rw [deriveProcessingKey_eq aes _ _ hstored, nodeKey, KeyTree.walk_walk _ _ hlo hr,
    targetProcessingKey, nodeKey, htarget]

theorem zipWith_xor_zero (bs : List UInt8) :
    List.zipWith (· ^^^ ·) bs (List.replicate bs.length 0) = bs := by
  induction bs with
  | nil => rfl
  | cons b bs ih => rw [List.length_cons, List.replicate_succ, List.zipWith_cons_cons, ih,
    UInt8.xor_zero]

theorem mediaKeyFromProcessingKey_eq (pk : Bytes 16) (uv : UInt32) (enc : Bytes 16) :
    mediaKeyFromProcessingKey aes pk uv enc = (aes.decrypt pk enc).xor (uvBlock uv) := by
  have hlen : ((aes.decrypt pk enc).toList.take 12).length = 12 := by simp
  have hzero := zipWith_xor_zero ((aes.decrypt pk enc).toList.take 12)
  rw [hlen] at hzero
  refine Bytes.ext ?_
  rw [Bytes.xor_toList, uvBlock]
  conv_rhs => rw [← List.take_append_drop 12 (aes.decrypt pk enc).toList]
  have htail : ((aes.decrypt pk enc).toList.drop 12).take 4 = (aes.decrypt pk enc).toList.drop 12 :=
    List.take_of_length_le (by simp)
  rw [List.zipWith_append (by simp), hzero]
  simp [mediaKeyFromProcessingKey, htail]

theorem mediaKeyFromProcessingKey_encrypt {aes}
    (haes : ∀ key data, aes.decrypt key (aes.encrypt key data) = data)
    (pk km : Bytes 16) (uv : UInt32) :
    mediaKeyFromProcessingKey aes pk uv (aes.encrypt pk (km.xor (uvBlock uv))) = km := by
  rw [mediaKeyFromProcessingKey_eq, haes, Bytes.xor_xor]

end Subdiff

namespace AacsVolume

open Subdiff

/-- The search gives the first entry that applies. -/
theorem chooseEntry_eq_some {d : UInt32} {es : List SubsetDifferenceEntry} {i : Nat}
    {e : SubsetDifferenceEntry}
    (k : Nat) (hentry : es[i]? = some e) (happlies : appliesToDevice (subsetDifference e) d = true)
    (hfirst : ∀ j < i, ∀ e', es[j]? = some e' → appliesToDevice (subsetDifference e') d = false) :
    chooseEntry d k es = some (k + i, subsetDifference e) := by
  induction es generalizing k i with
  | nil => cases hentry
  | cons e' es ih =>
    cases i with
    | zero =>
      obtain rfl : e' = e := by simpa using hentry
      rw [chooseEntry, if_pos happlies, Nat.add_zero]
    | succ i =>
      have hhead : ¬appliesToDevice (subsetDifference e') d = true := by
        rw [hfirst 0 (Nat.succ_pos i) e' rfl]
        decide
      have hrest : ∀ j < i, ∀ e'', es[j]? = some e'' → appliesToDevice (subsetDifference e'')
          d = false :=
        fun j hj e'' he => hfirst (j + 1) (Nat.succ_lt_succ hj) e'' he
      rw [chooseEntry, if_neg hhead, ih (k + 1) hentry hrest, Nat.add_right_comm, Nat.add_assoc]

theorem targetVMaskZeroBits_toNat {uv : UInt32} (h : uv ≠ 0) :
    (targetVMaskZeroBits uv).toNat = targetLevel uv := by
  have hle : trailingZeros uv + 1 ≤ 32 := trailingZeros_lt h
  rw [targetVMaskZeroBits, if_neg h, Nat.min_eq_left hle, targetLevel]
  exact UInt8.toNat_ofNat_of_lt' (Nat.lt_of_le_of_lt hle (by decide))

variable {aes : Aes128}

theorem checkMediaKey_sentinel
    (haes : ∀ key data, aes.decrypt key (aes.encrypt key data) = data) {mkb : Mkb}
    {km plain : Bytes 16} (hvd : mkb.verifyMediaKey = some (aes.encrypt km plain))
    (hplain : plain.toList.take 8 = Mkb.verifyMediaKeySentinel) :
    mkb.checkMediaKey aes km = .ok () := by
  rw [Mkb.checkMediaKey_eq_ok, Mkb.isVerifiedMediaKey, hvd]
  simp [haes, hplain]

/-- The media key is found from every device key between the root of the subset and its target. -/
theorem deriveMediaKey_nodeKey (haes : ∀ key data, aes.decrypt key (aes.encrypt key data) = data)
    {vol : AacsVolume}
    {dk : DeviceKey} {i : Nat} {e : SubsetDifferenceEntry} {root km : Bytes 16} {r : Nat}
    (hentry : vol.mkb.explicitSubdiff[i]? = some e)
    (happlies : appliesToDevice (subsetDifference e) (dNode dk) = true)
    (hfirst : ∀ j < i, ∀ e', vol.mkb.explicitSubdiff[j]? = some e' →
      appliesToDevice (subsetDifference e') (dNode dk) = false)
    (huv : e.uv ≠ 0) (hkey : dk.key = nodeKey aes root r e.uv dk.vMaskZeroBits.toNat)
    (hlo : targetLevel e.uv ≤ dk.vMaskZeroBits.toNat) (hz : dk.vMaskZeroBits.toNat ≤ 32)
    (hr : dk.vMaskZeroBits.toNat ≤ r)
    (hdata : vol.mkb.mediaKeyData[i]? =
      some (aes.encrypt (targetProcessingKey aes root r e.uv) (km.xor (uvBlock e.uv)))) :
    vol.deriveMediaKeyFromDeviceKey aes dk = .ok km := by
  have htarget := targetVMaskZeroBits_toNat huv
  have hchosen := chooseEntry_eq_some 0 hentry happlies hfirst
  have hpk := deriveProcessingKey_nodeKey aes root e.uv dk.uv htarget (htarget ▸ hlo) hr hz
  rw [← hkey] at hpk
  rw [deriveMediaKeyFromDeviceKey, hchosen, Nat.zero_add, Outcome.okOr_some, Outcome.bind_ok]
  dsimp only [subsetDifference]
  rw [hpk, Outcome.bind_ok, Outcome.okOr_some, Outcome.bind_ok, hdata, Outcome.okOr_some,
    Outcome.bind_ok, mediaKeyFromProcessingKey_encrypt haes, Outcome.pure_eq]

/-- The volume unique key is found from every device key between the root of the subset and its
target. -/
theorem deriveVuk_nodeKey (haes : ∀ key data, aes.decrypt key (aes.encrypt key data) = data)
    {vol : AacsVolume}
    {dk : DeviceKey} {i : Nat} {e : SubsetDifferenceEntry} {root km plain : Bytes 16} {r : Nat}
    (hentry : vol.mkb.explicitSubdiff[i]? = some e)
    (happlies : appliesToDevice (subsetDifference e) (dNode dk) = true)
    (hfirst : ∀ j < i, ∀ e', vol.mkb.explicitSubdiff[j]? = some e' →
      appliesToDevice (subsetDifference e') (dNode dk) = false)
    (huv : e.uv ≠ 0) (hkey : dk.key = nodeKey aes root r e.uv dk.vMaskZeroBits.toNat)
    (hlo : targetLevel e.uv ≤ dk.vMaskZeroBits.toNat) (hz : dk.vMaskZeroBits.toNat ≤ 32)
    (hr : dk.vMaskZeroBits.toNat ≤ r)
    (hdata : vol.mkb.mediaKeyData[i]? =
      some (aes.encrypt (targetProcessingKey aes root r e.uv) (km.xor (uvBlock e.uv))))
    (hvd : vol.mkb.verifyMediaKey = some (aes.encrypt km plain))
    (hplain : plain.toList.take 8 = Mkb.verifyMediaKeySentinel) (volumeId : Bytes 16) :
    vol.deriveVukFromDeviceKey aes dk volumeId = .ok ⟨Aes.aesG aes km volumeId⟩ := by
  have hkm := deriveMediaKey_nodeKey haes hentry happlies hfirst huv hkey hlo hz hr hdata
  have hcheck := checkMediaKey_sentinel haes hvd hplain
  rw [deriveVukFromDeviceKey, hkm, Outcome.bind_ok, hcheck, Outcome.bind_ok,
    Outcome.pure_eq, deriveVuk]

/-- Two entries, of which the second applies to the device: its target is at level 17. -/
def twoEntries : List SubsetDifferenceEntry := [⟨24, 0x22010000⟩, ⟨24, 0x11010000⟩]

def twoEntriesKm : Bytes 16 := Bytes.ofNat 16 0x000102030405060708090a0b0c0d0e0f

def twoEntriesPlain : Bytes 16 := Bytes.ofNat 16 0x0123456789abcdef0000000000000000

def twoEntriesVolume : AacsVolume where
  mkb :=
    { explicitSubdiff := twoEntries
      mediaKeyData :=
        [Bytes.zero 16,
          Aes128.encryptBlock (targetProcessingKey Aes128.fips197 (Bytes.zero 16) 24 0x11010000)
          (twoEntriesKm.xor (uvBlock 0x11010000))]
      verifyMediaKey := some (Aes128.encryptBlock twoEntriesKm twoEntriesPlain) }
  unitKeyFile := ⟨0, ⟨1, 0, false, []⟩, []⟩
  cpsUnits := []

/-- A key four levels below the root of the second subset. -/
def twoEntriesKey : DeviceKey :=
  ⟨nodeKey Aes128.fips197 (Bytes.zero 16) 24 0x11010000 20, 0x11010000, 24, 20, some 0x11020000⟩

theorem twoEntries_first : ∀ j < 1, ∀ e', twoEntriesVolume.mkb.explicitSubdiff[j]? = some e' →
    appliesToDevice (subsetDifference e') (dNode twoEntriesKey) = false := by
  intro j hj e' he
  obtain rfl := Nat.lt_one_iff.mp hj
  obtain rfl := Option.some.inj he
  decide

theorem twoEntries_applies : appliesToDevice (subsetDifference ⟨24, 0x11010000⟩)
    (dNode twoEntriesKey) = true := by
  decide +kernel

theorem twoEntries_level : targetLevel 0x11010000 ≤ twoEntriesKey.vMaskZeroBits.toNat := by
  decide +kernel

theorem deriveVuk_nodeKey_twoEntries :
    twoEntriesVolume.deriveVukFromDeviceKey Aes128.fips197 twoEntriesKey (Bytes.zero 16) =
      .ok ⟨Aes.aesG Aes128.fips197 twoEntriesKm (Bytes.zero 16)⟩ := by
  have hkey : twoEntriesKey.key =
      nodeKey Aes128.fips197 (Bytes.zero 16) 24 0x11010000 twoEntriesKey.vMaskZeroBits.toNat := rfl
  have hplain : twoEntriesPlain.toList.take 8 = Mkb.verifyMediaKeySentinel := by decide
  exact deriveVuk_nodeKey Aes128.decryptBlock_encryptBlock rfl twoEntries_applies twoEntries_first
    (by decide) hkey twoEntries_level (by decide) (by decide) rfl rfl hplain (Bytes.zero 16)

end AacsVolume
