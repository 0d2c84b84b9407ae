import Aacs.MkbRecords
import Aacs.SubdiffWalk
import Aacs.WordMask

/-!
# Volume keys from device keys

When the derivation from a device key returns, and how its three forms agree: with
and without key conversion data, and through the resolution of the MKB.
-/

open Outcome

namespace Subdiff.Checked

def uMask (sd : SubsetDifference) : Result UInt32 :=
  if sd.uMaskZeroBits = 0 then pure 0xFFFFFFFF
  else if 32 ≤ sd.uMaskZeroBits then pure 0
  else shlU32 0xFFFFFFFF sd.uMaskZeroBits.toNat

def vMask (sd : SubsetDifference) : Result UInt32 :=
  if sd.uv = 0 then pure 0
  else do
    u32 (trailingZeros sd.uv + 1)
    let zeroBits := trailingZeros sd.uv + 1
    if 32 ≤ zeroBits then pure 0 else shlU32 0xFFFFFFFF zeroBits

def appliesToDevice (sd : SubsetDifference) (dNode : UInt32) : Result Bool := do
  let mU ← uMask sd
  let mV ← vMask sd
  pure (dNode &&& mU = sd.uv &&& mU && dNode &&& mV ≠ sd.uv &&& mV)

theorem one_le_of_lt {target mZeros : UInt8} (h : target < mZeros) : 1 ≤ mZeros :=
  UInt8.le_iff_toNat_le.mpr (Nat.zero_lt_of_lt (UInt8.lt_iff_toNat_lt.mp h))

theorem toNat_sub_one {target mZeros : UInt8} (h : target < mZeros) :
    (mZeros - 1).toNat = mZeros.toNat - 1 :=
  UInt8.toNat_sub_of_le _ _ (one_le_of_lt h)

variable (aes : Aes128)

/-- `m_zeros -= 1` is the subtraction that `bit_pos` has checked. -/
def walkDown (targetUv : UInt32) (target mZeros : UInt8) (dK : Bytes 16) : Result (Bytes 16) :=
  if _h : target < mZeros then do
    let bitPos ← subU8 mZeros 1
    let shifted ← shrU32 targetUv bitPos.toNat
    let triple := aesG3 aes dK
    walkDown targetUv target (mZeros - 1)
      (if shifted &&& 1 = 0 then triple.leftChild else triple.rightChild)
  else pure dK
termination_by mZeros.toNat
decreasing_by
  rw [toNat_sub_one _h]
  exact Nat.sub_lt (Nat.zero_lt_of_lt (UInt8.lt_iff_toNat_lt.mp _h)) Nat.one_pos

def deriveProcessingKey (storedDeviceKey : Bytes 16) (_storedUv : UInt32)
    (storedVMaskZeroBits : UInt8)
    (targetUv : UInt32) (targetVMaskZeroBits : UInt8) : Result (Option (Bytes 16)) :=
  if storedVMaskZeroBits = targetVMaskZeroBits then pure
    (some (aesG3 aes storedDeviceKey).processingKey)
  else do
    let dK ← walkDown aes targetUv targetVMaskZeroBits storedVMaskZeroBits storedDeviceKey
    pure (some (aesG3 aes dK).processingKey)

theorem uMask_eq (sd : SubsetDifference) : uMask sd = .ok sd.uMask := by
  rw [uMask, SubsetDifference.uMask]
  by_cases hzero : sd.uMaskZeroBits = 0
  · rw [if_pos hzero, if_pos hzero, pure_eq]
  · by_cases hbig : 32 ≤ sd.uMaskZeroBits
    · rw [if_neg hzero, if_neg hzero, if_pos hbig, if_pos hbig, pure_eq]
    · have hlt : sd.uMaskZeroBits.toNat < 32 := UInt8.lt_iff_toNat_lt.mp (UInt8.not_le.mp hbig)
      rw [if_neg hzero, if_neg hzero, if_neg hbig, if_neg hbig, shlU32_of_lt _ hlt,
        WordMask.toUInt32_eq_ofNat]

theorem vMask_eq (sd : SubsetDifference) : vMask sd = .ok sd.vMask := by
  rw [vMask, SubsetDifference.vMask]
  by_cases hzero : sd.uv = 0
  · rw [if_pos hzero, if_pos hzero, pure_eq]
  · have hlt := trailingZeros_lt hzero
    rw [if_neg hzero, if_neg hzero, u32_bind (by omega)]
    dsimp only
    by_cases hbig : 32 ≤ trailingZeros sd.uv + 1
    · rw [if_pos hbig, if_pos hbig, pure_eq]
    · rw [if_neg hbig, if_neg hbig, shlU32_of_lt _ (Nat.not_le.mp hbig)]

theorem appliesToDevice_eq (sd : SubsetDifference) (d : UInt32) :
    appliesToDevice sd d = .ok (Subdiff.appliesToDevice sd d) := by
  rw [appliesToDevice, uMask_eq, bind_ok, vMask_eq, bind_ok, pure_eq, Subdiff.appliesToDevice]

theorem walkDown_eq (uv : UInt32) (target : UInt8) (m : Nat) {mZeros : UInt8}
    (hm : mZeros.toNat = m) (dK : Bytes 16) :
    walkDown aes uv target mZeros dK = Subdiff.walkDown aes uv target.toNat m dK := by
  induction m generalizing mZeros dK with
  | zero =>
    have hstop : ¬target < mZeros := by
      rw [UInt8.lt_iff_toNat_lt, hm]
      exact Nat.not_lt_zero _
    rw [walkDown, dif_neg hstop, Subdiff.walkDown]
  | succ m ih =>
    by_cases hlt : target < mZeros
    · have hlt' : target.toNat < m + 1 := hm ▸ UInt8.lt_iff_toNat_lt.mp hlt
      have hbit : (mZeros - 1).toNat = m := by rw [toNat_sub_one hlt, hm, Nat.add_sub_cancel]
      rw [walkDown, dif_pos hlt, subU8_bind (one_le_of_lt hlt), hbit, Subdiff.walkDown, if_pos hlt']
      apply bind_congr_ok
      intro shifted _
      exact ih hbit _
    · have hlt' : ¬target.toNat < m + 1 := hm ▸ fun h => hlt (UInt8.lt_iff_toNat_lt.mpr h)
      rw [walkDown, dif_neg hlt, Subdiff.walkDown, if_neg hlt']

theorem deriveProcessingKey_eq (key : Bytes 16) (storedUv : UInt32) (stored : UInt8) (uv : UInt32)
    (target : UInt8) :
    deriveProcessingKey aes key storedUv stored uv target =
      Subdiff.deriveProcessingKey aes key storedUv stored uv target := by
  rw [deriveProcessingKey, walkDown_eq aes uv target _ rfl, Subdiff.deriveProcessingKey]

end Subdiff.Checked

namespace AacsVolume.Checked

def dNode (deviceKey : DeviceKey) : Result UInt32 :=
  match deviceKey.deviceNode with
  | some node => pure node
  | none => do
    let shifted ← shlU32 deviceKey.uv 1
    pure (shifted ||| 1)

def chooseEntry (dNode : UInt32) : Nat → List SubsetDifferenceEntry → Result
    (Option (Nat × Subdiff.SubsetDifference))
  | _, [] => pure none
  | i, e :: es => do
    let sd := subsetDifference e
    let applies ← Subdiff.Checked.appliesToDevice sd dNode
    if applies then pure (some (i, sd)) else chooseEntry dNode (i + 1) es

def targetVMaskZeroBits (uv : UInt32) : Result UInt8 :=
  if uv = 0 then pure 32
  else do
    u32 (Subdiff.trailingZeros uv + 1)
    pure (UInt8.ofNat (min (Subdiff.trailingZeros uv + 1) 32))

variable (aes : Aes128)

def deriveMediaKeyFromDeviceKey (vol : AacsVolume) (deviceKey : DeviceKey) : Result (Bytes 16) := do
  let node ← dNode deviceKey
  let chosen ← chooseEntry node 0 vol.mkb.explicitSubdiff
  let chosen ← okOr chosen .deviceRevoked
  let sd := chosen.2
  let target ← targetVMaskZeroBits sd.uv
  let pk ← Subdiff.Checked.deriveProcessingKey aes deviceKey.key deviceKey.uv
    deviceKey.vMaskZeroBits sd.uv target
  let pk ← okOr pk .deviceRevoked
  let encKm ← okOr vol.mkb.mediaKeyData[chosen.1]? .missingVerifyMediaKeyRecord
  pure (Subdiff.mediaKeyFromProcessingKey aes pk sd.uv encKm)

def deriveVukFromDeviceKey (vol : AacsVolume) (deviceKey : DeviceKey) (volumeId : Bytes 16) :
    Result Vuk := do
  let km ← deriveMediaKeyFromDeviceKey aes vol deviceKey
  let _ ← vol.mkb.checkMediaKey aes km
  pure (deriveVuk aes km volumeId)

def deriveVukFromDeviceKeyWithKcd (vol : AacsVolume) (deviceKey : DeviceKey) (volumeId : Bytes 16)
    (kcd : Option (Bytes 16)) : Result Vuk := do
  let candidate ← deriveMediaKeyFromDeviceKey aes vol deviceKey
  if vol.mkb.isVerifiedMediaKey aes candidate then pure (deriveVuk aes candidate volumeId)
  else
    match kcd with
    | some kcdBytes => do
      let km := Subdiff.applyKeyConversionData aes candidate kcdBytes
      let _ ← vol.mkb.checkMediaKey aes km
      pure (deriveVuk aes km volumeId)
    | none => .err .mediaKeyVerificationFailed

theorem dNode_eq (dk : DeviceKey) : dNode dk = .ok (AacsVolume.dNode dk) := by
  rw [dNode, AacsVolume.dNode]
  cases dk.deviceNode with
  | none => rfl
  | some node => rfl

theorem chooseEntry_eq (d : UInt32) (i : Nat) (es : List SubsetDifferenceEntry) :
    chooseEntry d i es = .ok (AacsVolume.chooseEntry d i es) := by
  induction es generalizing i with
  | nil => rfl
  | cons e es ih =>
    rw [chooseEntry, AacsVolume.chooseEntry, Subdiff.Checked.appliesToDevice_eq, bind_ok]
    by_cases happlies : Subdiff.appliesToDevice (subsetDifference e) d = true
    · rw [if_pos happlies, if_pos happlies, pure_eq]
    · rw [if_neg happlies, if_neg happlies, ih]

theorem targetVMaskZeroBits_eq (uv : UInt32) : targetVMaskZeroBits uv = .ok
    (AacsVolume.targetVMaskZeroBits uv) := by
  rw [targetVMaskZeroBits, AacsVolume.targetVMaskZeroBits]
  by_cases hzero : uv = 0
  · rw [if_pos hzero, if_pos hzero, pure_eq]
  · have hlt := Subdiff.trailingZeros_lt hzero
    rw [if_neg hzero, if_neg hzero, u32_bind (by omega), pure_eq]

theorem deriveMediaKeyFromDeviceKey_eq (vol : AacsVolume) (dk : DeviceKey) :
    deriveMediaKeyFromDeviceKey aes vol dk = vol.deriveMediaKeyFromDeviceKey aes dk := by
  rw [deriveMediaKeyFromDeviceKey, dNode_eq, bind_ok, chooseEntry_eq, bind_ok,
    AacsVolume.deriveMediaKeyFromDeviceKey]
  apply bind_congr_ok
  intro chosen _
  dsimp only
  rw [targetVMaskZeroBits_eq, bind_ok, Subdiff.Checked.deriveProcessingKey_eq]

theorem deriveVukFromDeviceKey_eq (vol : AacsVolume) (dk : DeviceKey) (volumeId : Bytes 16) :
    deriveVukFromDeviceKey aes vol dk volumeId = vol.deriveVukFromDeviceKey aes dk volumeId := by
  rw [deriveVukFromDeviceKey, deriveMediaKeyFromDeviceKey_eq, AacsVolume.deriveVukFromDeviceKey]

theorem deriveVukFromDeviceKeyWithKcd_eq (vol : AacsVolume) (dk : DeviceKey) (volumeId : Bytes 16)
    (kcd : Option (Bytes 16)) : deriveVukFromDeviceKeyWithKcd aes vol dk volumeId kcd =
      vol.deriveVukFromDeviceKeyWithKcd aes dk volumeId kcd := by
  rw [deriveVukFromDeviceKeyWithKcd, deriveMediaKeyFromDeviceKey_eq]
  rfl

end AacsVolume.Checked

namespace AacsVolume

open Subdiff

variable (aes : Aes128)

theorem targetVMaskZeroBits_le (uv : UInt32) : (targetVMaskZeroBits uv).toNat ≤ 32 := by
  rw [targetVMaskZeroBits]
  by_cases hzero : uv = 0
  · rw [if_pos hzero]
    decide
  · have hlt := trailingZeros_lt hzero
    rw [if_neg hzero, Nat.min_eq_left hlt, UInt8.toNat_ofNat_of_lt'
      (Nat.lt_of_le_of_lt hlt (by decide))]
    exact hlt

/-- A stored count above 32 is above every target: the first step shifts by 32 or more. -/
theorem deriveProcessingKey_panic (key : Bytes 16) (storedUv : UInt32) {stored target : UInt8}
    (hstored : 32 < stored.toNat) (htarget : target.toNat ≤ 32) (uv : UInt32) :
    deriveProcessingKey aes key storedUv stored uv target = .panic := by
  have hne : stored ≠ target := by
    rintro rfl
    exact absurd htarget (Nat.not_le.mpr hstored)
  obtain ⟨m, hm⟩ := Nat.exists_eq_succ_of_ne_zero (Nat.ne_zero_of_lt hstored)
  have hlt : target.toNat < m + 1 := by omega
  have hshift : ¬m < 32 := by omega
  rw [deriveProcessingKey, if_neg hne, hm, walkDown, if_pos hlt, shrU32, if_neg hshift,
    bind_panic, bind_panic]

theorem deriveMediaKey_of_none {vol : AacsVolume} {dk : DeviceKey}
    (h : chooseEntry (dNode dk) 0 vol.mkb.explicitSubdiff = none) :
    vol.deriveMediaKeyFromDeviceKey aes dk = .err .deviceRevoked := by
  rw [deriveMediaKeyFromDeviceKey, h, okOr_none, bind_err]

theorem deriveMediaKey_panic {vol : AacsVolume} {dk : DeviceKey} {chosen : Nat × SubsetDifference}
    (h : chooseEntry (dNode dk) 0 vol.mkb.explicitSubdiff = some chosen)
    (hstored : 32 < dk.vMaskZeroBits.toNat) :
    vol.deriveMediaKeyFromDeviceKey aes dk = .panic := by
  rw [deriveMediaKeyFromDeviceKey, h, okOr_some, bind_ok]
  dsimp only
  rw [deriveProcessingKey_panic aes _ _ hstored (targetVMaskZeroBits_le _), bind_panic]

/-- The processing key that the walk to the chosen entry ends with. -/
def chosenProcessingKey (dk : DeviceKey) (sd : SubsetDifference) : Bytes 16 :=
  (aesG3 aes ((keyTree aes).walk sd.uv.toNat dk.vMaskZeroBits.toNat
    (targetVMaskZeroBits sd.uv).toNat dk.key)).processingKey

/-- With an entry chosen and a count in range, only the encrypted media key can be missing. -/
theorem deriveMediaKey_of_some {vol : AacsVolume} {dk : DeviceKey} {chosen : Nat × SubsetDifference}
    (h : chooseEntry (dNode dk) 0 vol.mkb.explicitSubdiff = some chosen)
    (hstored : dk.vMaskZeroBits.toNat ≤ 32) :
    vol.deriveMediaKeyFromDeviceKey aes dk =
      okOr (vol.mkb.mediaKeyData[chosen.1]?.map fun encKm =>
        mediaKeyFromProcessingKey aes (chosenProcessingKey aes dk chosen.2) chosen.2.uv encKm)
        .missingVerifyMediaKeyRecord := by
  rw [deriveMediaKeyFromDeviceKey, h, okOr_some, bind_ok]
  dsimp only
  rw [deriveProcessingKey_eq aes _ _ hstored, bind_ok, okOr_some, bind_ok]
  cases vol.mkb.mediaKeyData[chosen.1]? with
  | none => rfl
  | some encKm => rfl

theorem chooseEntry_eq_none {d : UInt32} {i : Nat} {es : List SubsetDifferenceEntry} :
    chooseEntry d i es = none ↔ ∀ e ∈ es, appliesToDevice (subsetDifference e) d = false := by
  induction es generalizing i with
  | nil => simp [chooseEntry]
  | cons e es ih =>
    rw [chooseEntry, List.forall_mem_cons]
    by_cases happlies : appliesToDevice (subsetDifference e) d = true
    · simp [happlies]
    · rw [if_neg happlies, ih]
      simp [happlies]

/-- The derivation panics exactly when an entry covers the device and the stored count is above 32.
-/
theorem returns_deriveMediaKey_iff (vol : AacsVolume) (dk : DeviceKey) :
    Returns (vol.deriveMediaKeyFromDeviceKey aes dk) ↔
      (∀ e ∈ vol.mkb.explicitSubdiff, appliesToDevice (subsetDifference e) (dNode dk) = false) ∨
        dk.vMaskZeroBits.toNat ≤ 32 := by
  rw [← @chooseEntry_eq_none _ 0]
  cases hchosen : chooseEntry (dNode dk) 0 vol.mkb.explicitSubdiff with
  | none => simp [deriveMediaKey_of_none aes hchosen]
  | some chosen =>
    by_cases hstored : dk.vMaskZeroBits.toNat ≤ 32
    · simp [deriveMediaKey_of_some aes hchosen hstored, hstored]
    · have hpanic := deriveMediaKey_panic aes hchosen (Nat.not_le.mp hstored)
      simp [hpanic, hstored, Returns]

theorem returns_checkMediaKey (mkb : Mkb) (km : Bytes 16) : Returns (mkb.checkMediaKey aes km) :=
  (returns_okOr _ _).bind fun _ _ => Returns.ite (returns_ok _) (returns_err _)

/-- A derivation of a volume unique key returns when that of the media key does. -/
theorem returns_deriveVuk_iff (vol : AacsVolume) (dk : DeviceKey) (volumeId : Bytes 16) :
    Returns (vol.deriveVukFromDeviceKey aes dk volumeId) ↔ Returns
      (vol.deriveMediaKeyFromDeviceKey aes dk) := by
  rw [deriveVukFromDeviceKey, returns_bind_iff]
  apply and_iff_left
  intro km _
  exact (returns_checkMediaKey aes _ _).bind fun _ _ => returns_ok _

theorem returns_deriveVukWithKcd_iff (vol : AacsVolume) (dk : DeviceKey) (volumeId : Bytes 16)
    (kcd : Option (Bytes 16)) : Returns (vol.deriveVukFromDeviceKeyWithKcd aes dk volumeId kcd) ↔
      Returns (vol.deriveMediaKeyFromDeviceKey aes dk) := by
  rw [deriveVukFromDeviceKeyWithKcd, returns_bind_iff]
  apply and_iff_left
  intro candidate _
  apply Returns.ite (returns_ok _)
  cases kcd with
  | none => exact returns_err _
  | some kcdBytes => exact (returns_checkMediaKey aes _ _).bind fun _ _ => returns_ok _

/-- The three derivations return exactly when no entry covers the device or the stored count of
zero bits is at most 32; above that, the walk shifts by 32 or more. -/
theorem derivations_return_iff (vol : AacsVolume) (dk : DeviceKey) (volumeId : Bytes 16)
    (kcd : Option (Bytes 16)) :
    (Returns (Checked.deriveMediaKeyFromDeviceKey aes vol dk) ∧
      Returns (Checked.deriveVukFromDeviceKey aes vol dk volumeId) ∧
      Returns (Checked.deriveVukFromDeviceKeyWithKcd aes vol dk volumeId kcd)) ↔
      (∀ e ∈ vol.mkb.explicitSubdiff, appliesToDevice (subsetDifference e) (dNode dk) = false) ∨
        dk.vMaskZeroBits.toNat ≤ 32 := by
  rw [Checked.deriveVukFromDeviceKey_eq, Checked.deriveVukFromDeviceKeyWithKcd_eq,
    Checked.deriveMediaKeyFromDeviceKey_eq, returns_deriveVuk_iff, returns_deriveVukWithKcd_iff,
    and_self_iff, and_self_iff, returns_deriveMediaKey_iff]

/-- One entry, below a node at level 24, with its lowest set bit at place 16. -/
def sdRecord : Mkb.MkbRecord := ⟨Mkb.tagExplicitSubdiff, [24, 0x11, 0x01, 0, 0], by decide⟩

def mkdRecord : Mkb.MkbRecord := ⟨Mkb.tagMediaKeyData, List.replicate 16 0, by decide⟩

def unverifiedRecords : List Mkb.MkbRecord := [Mkb.tvRecord, sdRecord, mkdRecord]

def unverifiedMkb : Mkb :=
  { mkbType := some .type3, version := 1, typeAndVersionRaw := Mkb.tvRecord.bytes,
    explicitSubdiff := [⟨24, 0x11010000⟩], mediaKeyData := [Bytes.zero 16] }

theorem parse_unverified : Mkb.parse (Record.encode unverifiedRecords) = .ok unverifiedMkb := by
  refine @Mkb.parse_encode _ ⟨unverifiedMkb, true, false⟩ ?_ rfl
  have htv : Mkb.stepRecord ⟨{}, false, true⟩ Mkb.tvRecord =
      .ok ⟨{ mkbType := some .type3, version := 1, typeAndVersionRaw := Mkb.tvRecord.bytes }, true,
      false⟩ := rfl
  have hsd : ∀ st, Mkb.stepRecord st sdRecord =
      .ok { st with out := { st.out with explicitSubdiff := [⟨24, 0x11010000⟩] }, firstRecord :=
        false } := by
    intro st
    change (Mkb.parseExplicitSubdiff sdRecord.payload >>= _) >>= _ = _
    rw [Mkb.parseExplicitSubdiff_eq]
    obtain ⟨out, first, firstRecord⟩ := st
    cases firstRecord <;> rfl
  have hmkd : ∀ st, Mkb.stepRecord st mkdRecord =
      .ok { st with out := { st.out with mediaKeyData := [Bytes.zero 16] }, firstRecord :=
        false } := by
    intro st
    change (Mkb.parseMediaKeyData mkdRecord.payload >>= _) >>= _ = _
    rw [Mkb.parseMediaKeyData_eq]
    obtain ⟨out, first, firstRecord⟩ := st
    cases firstRecord <;> rfl
  rw [unverifiedRecords, List.foldlM_cons, htv, bind_ok, List.foldlM_cons, hsd, bind_ok,
    List.foldlM_cons, hmkd]
  rfl

def unverifiedVolume : AacsVolume := ⟨unverifiedMkb, ⟨0, ⟨1, 0, false, []⟩, []⟩, []⟩

/-- A key of the device `0x11020001` at a level. -/
def keyAtLevel (z : UInt8) : DeviceKey := ⟨Bytes.zero 16, 0x11010000, 24, z, some 0x11020001⟩

theorem chooseEntry_unverified (z : UInt8) :
    chooseEntry (dNode (keyAtLevel z)) 0 unverifiedVolume.mkb.explicitSubdiff = some
      (0, ⟨24, 0x11010000⟩) := by
  have hnode : dNode (keyAtLevel z) = 0x11020001 := rfl
  rw [hnode]
  decide +kernel

/-- A device key with a stored count of 33 and an MKB that the parser accepts. -/
theorem derivations_panic_33 : Mkb.parse (Record.encode unverifiedRecords) =
    .ok unverifiedVolume.mkb ∧
    Checked.deriveMediaKeyFromDeviceKey Aes128.fips197 unverifiedVolume (keyAtLevel 33) = .panic ∧
    Checked.deriveVukFromDeviceKey Aes128.fips197 unverifiedVolume (keyAtLevel 33)
      (Bytes.zero 16) = .panic ∧
    Checked.deriveVukFromDeviceKeyWithKcd Aes128.fips197 unverifiedVolume (keyAtLevel 33)
      (Bytes.zero 16) none = .panic := by
  have hpanic := deriveMediaKey_panic Aes128.fips197 (chooseEntry_unverified 33) (by decide)
  rw [← Checked.deriveMediaKeyFromDeviceKey_eq] at hpanic
  refine ⟨parse_unverified, hpanic, ?_, ?_⟩
  · rw [Checked.deriveVukFromDeviceKey, hpanic, bind_panic]
  · rw [Checked.deriveVukFromDeviceKeyWithKcd, hpanic, bind_panic]

section
variable {aes}

theorem verifyMediaKey_ne_none {mkb : Mkb} {km : Bytes 16}
    (h : mkb.isVerifiedMediaKey aes km = true) :
    mkb.verifyMediaKey ≠ none := by
  intro hnone
  rw [Mkb.isVerifiedMediaKey, hnone] at h
  cases h

theorem ok_eq_ok_iff_and {p : Bytes 16 → Prop} {a b : Bytes 16} (h : p a) :
    (ok a : Result (Bytes 16)) = ok b ↔ b = a ∧ p b := by
  constructor
  · intro hb
    obtain rfl := ok.inj hb
    exact ⟨rfl, h⟩
  · rintro ⟨rfl, -⟩
    rfl

theorem err_eq_ok_iff_and {p : Bytes 16 → Prop} {a b : Bytes 16} (e : AacsError) (h : ¬p a) :
    (err e : Result (Bytes 16)) = ok b ↔ b = a ∧ p b := by
  constructor
  · intro hb
    cases hb
  · rintro ⟨rfl, hb⟩
    exact absurd hb h

/-- The media key is the candidate when it verifies, and else its conversion when that verifies. -/
theorem resolveMediaKeyWithKcd_eq_ok {mkb : Mkb} {candidate kcd km : Bytes 16} :
    mkb.resolveMediaKeyWithKcd aes candidate kcd = .ok km ↔
      km = (if mkb.isVerifiedMediaKey aes candidate then candidate else applyKeyConversionData aes
        candidate kcd) ∧ mkb.isVerifiedMediaKey aes km = true := by
  rw [Mkb.resolveMediaKeyWithKcd]
  by_cases hnone : mkb.verifyMediaKey = none
  · rw [refuseIf_pos hnone, bind_err]
    exact err_eq_ok_iff_and (p := fun km => mkb.isVerifiedMediaKey aes km = true) _ fun h =>
      verifyMediaKey_ne_none h hnone
  · rw [refuseIf_neg hnone, bind_ok]
    by_cases hcandidate : mkb.isVerifiedMediaKey aes candidate = true
    · rw [if_pos hcandidate, if_pos hcandidate, pure_eq]
      exact ok_eq_ok_iff_and (p := fun km => mkb.isVerifiedMediaKey aes km = true) hcandidate
    · rw [if_neg hcandidate, if_neg hcandidate]
      dsimp only
      by_cases hkm : mkb.isVerifiedMediaKey aes (applyKeyConversionData aes candidate kcd) = true
      · rw [if_pos hkm, pure_eq]
        exact ok_eq_ok_iff_and (p := fun km => mkb.isVerifiedMediaKey aes km = true) hkm
      · rw [if_neg hkm]
        exact err_eq_ok_iff_and (p := fun km => mkb.isVerifiedMediaKey aes km = true) _ hkm

/-- With a key that must verify, the derivation of the volume unique key ends well when it does. -/
theorem checkMediaKey_bind_eq_ok {mkb : Mkb} {km volumeId : Bytes 16} {v : Vuk} :
    (mkb.checkMediaKey aes km >>= fun _ => (pure (deriveVuk aes km volumeId) : Result Vuk)) =
      .ok v ↔ mkb.isVerifiedMediaKey aes km = true ∧ v = deriveVuk aes km volumeId := by
  rw [bind_eq_ok, ← Mkb.checkMediaKey_eq_ok]
  constructor
  · rintro ⟨_, hcheck, hv⟩
    exact ⟨hcheck, (ok.inj hv).symm⟩
  · rintro ⟨hcheck, rfl⟩
    exact ⟨(), hcheck, rfl⟩

theorem deriveVuk_of_ok {vol : AacsVolume} {dk : DeviceKey} {c : Bytes 16}
    (hc : vol.deriveMediaKeyFromDeviceKey aes dk = .ok c)
    (hverified : vol.mkb.isVerifiedMediaKey aes c = true)
    (volumeId : Bytes 16) : vol.deriveVukFromDeviceKey aes dk volumeId = .ok
    (deriveVuk aes c volumeId) := by
  rw [deriveVukFromDeviceKey, hc, bind_ok, Mkb.checkMediaKey_eq_ok.mpr hverified, bind_ok, pure_eq]

theorem deriveVukWithKcd_of_ok {vol : AacsVolume} {dk : DeviceKey} {c : Bytes 16}
    (hc : vol.deriveMediaKeyFromDeviceKey aes dk = .ok c)
    (hverified : vol.mkb.isVerifiedMediaKey aes c = true)
    (volumeId : Bytes 16) (kcd : Option (Bytes 16)) :
    vol.deriveVukFromDeviceKeyWithKcd aes dk volumeId kcd = .ok (deriveVuk aes c volumeId) := by
  rw [deriveVukFromDeviceKeyWithKcd, hc, bind_ok, if_pos hverified, pure_eq]

theorem deriveVukWithKcd_some_eq_ok {vol : AacsVolume} {dk : DeviceKey}
    {c volumeId kcd : Bytes 16} {v : Vuk} (hc : vol.deriveMediaKeyFromDeviceKey aes dk = .ok c) :
    vol.deriveVukFromDeviceKeyWithKcd aes dk volumeId (some kcd) = .ok v ↔
      ∃ km, vol.mkb.resolveMediaKeyWithKcd aes c kcd = .ok km ∧ v = deriveVuk aes km volumeId := by
  simp only [resolveMediaKeyWithKcd_eq_ok]
  by_cases hverified : vol.mkb.isVerifiedMediaKey aes c = true
  · rw [deriveVukWithKcd_of_ok hc hverified, ok.injEq, if_pos hverified]
    constructor
    · rintro rfl
      exact ⟨c, ⟨rfl, hverified⟩, rfl⟩
    · rintro ⟨km, ⟨rfl, -⟩, rfl⟩
      rfl
  · rw [deriveVukFromDeviceKeyWithKcd, hc, bind_ok, if_neg hverified, if_neg hverified]
    refine checkMediaKey_bind_eq_ok.trans ⟨?_, ?_⟩
    · rintro ⟨hkm, rfl⟩
      exact ⟨_, ⟨rfl, hkm⟩, rfl⟩
    · rintro ⟨km, ⟨rfl, hkm⟩, rfl⟩
      exact ⟨hkm, rfl⟩

end

/-- With key conversion data, the volume unique key is that of the media key which the MKB resolves
the candidate to; a candidate that verifies gives one result, whatever the key conversion data. -/
theorem kcd_paths_agree (vol : AacsVolume) (dk : DeviceKey) (volumeId kcd : Bytes 16) :
    (∀ v, vol.deriveVukFromDeviceKeyWithKcd aes dk volumeId (some kcd) = .ok v ↔
      ∃ c km, vol.deriveMediaKeyFromDeviceKey aes dk = .ok c ∧ vol.mkb.resolveMediaKeyWithKcd aes c
        kcd = .ok km ∧ v = deriveVuk aes km volumeId) ∧
    ∀ c, vol.deriveMediaKeyFromDeviceKey aes dk = .ok c → vol.mkb.checkMediaKey aes c = .ok () →
      ∀ kcd' : Option (Bytes 16), vol.deriveVukFromDeviceKeyWithKcd aes dk volumeId kcd' =
        vol.deriveVukFromDeviceKey aes dk volumeId := by
  constructor
  · intro v
    constructor
    · intro h
      obtain ⟨c, hc, -⟩ := bind_eq_ok.mp h
      obtain ⟨km, hkm, hv⟩ := (deriveVukWithKcd_some_eq_ok hc).mp h
      exact ⟨c, km, hc, hkm, hv⟩
    · rintro ⟨c, km, hc, hkm, hv⟩
      exact (deriveVukWithKcd_some_eq_ok hc).mpr ⟨km, hkm, hv⟩
  · intro c hc hcheck kcd'
    have hverified := Mkb.checkMediaKey_eq_ok.mp hcheck
    rw [deriveVukWithKcd_of_ok hc hverified, deriveVuk_of_ok hc hverified]

theorem deriveMediaKey_twoEntries :
    twoEntriesVolume.deriveMediaKeyFromDeviceKey Aes128.fips197 twoEntriesKey = .ok twoEntriesKm :=
  deriveMediaKey_nodeKey Aes128.decryptBlock_encryptBlock rfl twoEntries_applies twoEntries_first
    (by decide) rfl twoEntries_level (by decide) (by decide) rfl

theorem checkMediaKey_twoEntries :
    twoEntriesVolume.mkb.checkMediaKey Aes128.fips197 twoEntriesKm = .ok () :=
  checkMediaKey_sentinel Aes128.decryptBlock_encryptBlock rfl (by decide)

/-- The volume with two entries: its candidate verifies, and the key conversion data are not used.
-/
theorem kcd_paths_agree_twoEntries :
    twoEntriesVolume.deriveVukFromDeviceKeyWithKcd Aes128.fips197 twoEntriesKey (Bytes.zero 16)
      (some (Bytes.zero 16)) =
      twoEntriesVolume.deriveVukFromDeviceKey Aes128.fips197 twoEntriesKey (Bytes.zero 16) :=
  (kcd_paths_agree Aes128.fips197 twoEntriesVolume twoEntriesKey (Bytes.zero 16)
    (Bytes.zero 16)).2 _ deriveMediaKey_twoEntries checkMediaKey_twoEntries (some (Bytes.zero 16))

theorem deriveMediaKey_ok_iff (vol : AacsVolume) (dk : DeviceKey) :
    (∃ c, vol.deriveMediaKeyFromDeviceKey aes dk = .ok c) ↔
      ∃ chosen, chooseEntry (dNode dk) 0 vol.mkb.explicitSubdiff = some chosen ∧
        chosen.1 < vol.mkb.mediaKeyData.length ∧ dk.vMaskZeroBits.toNat ≤ 32 := by
  cases hchosen : chooseEntry (dNode dk) 0 vol.mkb.explicitSubdiff with
  | none => simp [deriveMediaKey_of_none aes hchosen]
  | some chosen =>
    by_cases hstored : dk.vMaskZeroBits.toNat ≤ 32
    · rw [deriveMediaKey_of_some aes hchosen hstored]
      by_cases hdata : chosen.1 < vol.mkb.mediaKeyData.length <;> simp [hdata, hstored]
    · simp [deriveMediaKey_panic aes hchosen (Nat.not_le.mp hstored), hstored]

/-- A candidate that does not verify: one path says that the record is missing, the other that it
does not match. -/
theorem withKcd_none_eq_iff_record {vol : AacsVolume} {dk : DeviceKey} {c : Bytes 16}
    (hc : vol.deriveMediaKeyFromDeviceKey aes dk = .ok c) (volumeId : Bytes 16) :
    vol.deriveVukFromDeviceKeyWithKcd aes dk volumeId none = vol.deriveVukFromDeviceKey aes
      dk volumeId ↔ vol.mkb.verifyMediaKey ≠ none := by
  by_cases hverified : vol.mkb.isVerifiedMediaKey aes c = true
  · rw [deriveVukWithKcd_of_ok hc hverified, deriveVuk_of_ok hc hverified]
    exact iff_of_true rfl (verifyMediaKey_ne_none hverified)
  · rw [deriveVukFromDeviceKeyWithKcd, hc, bind_ok, if_neg hverified, deriveVukFromDeviceKey,
      hc, bind_ok, Mkb.checkMediaKey]
    cases hrecord : vol.mkb.verifyMediaKey with
    | none => simp
    | some vd =>
      rw [Mkb.isVerifiedMediaKey, hrecord, decide_eq_true_iff] at hverified
      rw [okOr_some, bind_ok]
      dsimp only
      rw [if_neg hverified, bind_err]
      simp

/-- Leaving the key conversion data out is the plain derivation exactly when the MKB has a Verify
Media Key Record, or no media key is derived at all: no entry covers the device, no key data is
there at its place, or the stored count is above 32. -/
theorem withKcd_none_eq_iff (vol : AacsVolume) (dk : DeviceKey) (volumeId : Bytes 16) :
    vol.deriveVukFromDeviceKeyWithKcd aes dk volumeId none = vol.deriveVukFromDeviceKey aes
      dk volumeId ↔
      vol.mkb.verifyMediaKey ≠ none ∨ ∀ chosen, chooseEntry (dNode dk) 0 vol.mkb.explicitSubdiff =
        some chosen → vol.mkb.mediaKeyData.length ≤ chosen.1 ∨ 32 < dk.vMaskZeroBits.toNat := by
  have hderived : (∃ c, vol.deriveMediaKeyFromDeviceKey aes dk = .ok c) ↔
      ¬∀ chosen, chooseEntry (dNode dk) 0 vol.mkb.explicitSubdiff = some chosen →
        vol.mkb.mediaKeyData.length ≤ chosen.1 ∨ 32 < dk.vMaskZeroBits.toNat := by
    rw [deriveMediaKey_ok_iff]
    push Not
    rfl
  by_cases hok : ∃ c, vol.deriveMediaKeyFromDeviceKey aes dk = .ok c
  · obtain ⟨c, hc⟩ := hok
    rw [withKcd_none_eq_iff_record aes hc, or_iff_left (hderived.mp ⟨c, hc⟩)]
  · have hsame : vol.deriveVukFromDeviceKeyWithKcd aes dk volumeId none =
        vol.deriveVukFromDeviceKey aes dk volumeId := by
      apply bind_congr_ok
      intro c hc
      exact absurd ⟨c, hc⟩ hok
    exact iff_of_true hsame (.inr (not_not.mp (mt hderived.mpr hok)))

/-- The MKB without a Verify Media Key Record, and a device key of the device at level 17. -/
theorem withKcd_none_ne_17 : Mkb.parse (Record.encode unverifiedRecords) =
    .ok unverifiedVolume.mkb ∧
    unverifiedVolume.deriveVukFromDeviceKey Aes128.fips197 (keyAtLevel 17) (Bytes.zero 16) =
      .err .missingVerifyMediaKeyRecord ∧
    unverifiedVolume.deriveVukFromDeviceKeyWithKcd Aes128.fips197 (keyAtLevel 17)
      (Bytes.zero 16) none = .err .mediaKeyVerificationFailed := by
  obtain ⟨c, hc⟩ := (deriveMediaKey_ok_iff Aes128.fips197 unverifiedVolume (keyAtLevel 17)).mpr
    ⟨_, chooseEntry_unverified 17, by decide, by decide⟩
  refine ⟨parse_unverified, ?_, ?_⟩
  · rw [deriveVukFromDeviceKey, hc, bind_ok]
    rfl
  · rw [deriveVukFromDeviceKeyWithKcd, hc, bind_ok]
    rfl

end AacsVolume
