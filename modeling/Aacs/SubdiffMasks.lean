import Aacs.SubdiffWalk
import Aacs.WordMask

/-!
# Which devices a subset difference covers

The masks of an entry keep the bits of the path to its `u` node and to its `v`
node. An entry covers the devices below the first node and not below the second.
-/
namespace Subdiff

open WordMask

theorem lowestOne_trailingZeros {uv : UInt32} (h : uv ≠ 0) : LowestOne uv (trailingZeros uv) := by
  have hne : uv.toBitVec ≠ 0#32 := fun hx => h (UInt32.toBitVec_inj.mp hx)
  constructor
  · exact BitVec.getLsbD_true_ctz_of_ne_zero hne
  · intro j hj
    exact BitVec.getLsbD_false_of_lt_ctz hj

namespace SubsetDifference

theorem uMask_eq (sd : SubsetDifference) : sd.uMask = highMask sd.uMaskZeroBits.toNat := by
  rw [uMask]
  by_cases hzero : sd.uMaskZeroBits = 0
  · rw [if_pos hzero, hzero]
    exact highMask_zero.symm
  · by_cases hbig : 32 ≤ sd.uMaskZeroBits
    · have hbig' : 32 ≤ sd.uMaskZeroBits.toNat := UInt8.le_iff_toNat_le.mp hbig
      rw [if_neg hzero, if_pos hbig, highMask, if_pos hbig']
    · have hbig' : ¬32 ≤ sd.uMaskZeroBits.toNat := fun h => hbig (UInt8.le_iff_toNat_le.mpr h)
      rw [if_neg hzero, if_neg hbig, highMask, if_neg hbig', toUInt32_eq_ofNat]

theorem vMask_eq (sd : SubsetDifference) (h : sd.uv ≠ 0) :
    sd.vMask = highMask (targetLevel sd.uv) := by
  rw [vMask, if_neg h]
  rfl

end SubsetDifference

/-- Below the `u` node, and not below the `v` node. -/
theorem appliesToDevice_iff {sd : SubsetDifference} (h : sd.uv ≠ 0) (d : UInt32) :
    appliesToDevice sd d = true ↔
      (∀ j < 32, sd.uMaskZeroBits.toNat ≤ j → d.toNat.testBit j = sd.uv.toNat.testBit j) ∧
      ∃ j < 32, targetLevel sd.uv ≤ j ∧ d.toNat.testBit j ≠ sd.uv.toNat.testBit j := by
  have hv : d &&& sd.vMask ≠ sd.uv &&& sd.vMask ↔
      ∃ j < 32, targetLevel sd.uv ≤ j ∧ d.toNat.testBit j ≠ sd.uv.toNat.testBit j := by
    rw [sd.vMask_eq h, Ne, and_highMask_eq_iff]
    push Not
    rfl
  rw [appliesToDevice, Bool.and_eq_true, decide_eq_true_iff, decide_eq_true_iff, hv, sd.uMask_eq,
    and_highMask_eq_iff]

theorem not_appliesToDevice_of_vMask {sd : SubsetDifference} (h : sd.vMask = 0) (d : UInt32) :
    appliesToDevice sd d = false := by
  simp [appliesToDevice, h]

theorem vMask_degenerate {sd : SubsetDifference} (h : sd.uv = 0 ∨ sd.uv = 0x80000000) :
    sd.vMask = 0 := by
  rcases h with h | h
  · rw [SubsetDifference.vMask, if_pos h]
  · have hlevel : trailingZeros 0x80000000 = 31 := by decide +kernel
    rw [SubsetDifference.vMask, h]
    simp [hlevel]

/-- An entry that covers a device has its lowest set bit below the highest place. -/
theorem targetLevel_le_of_applies {sd : SubsetDifference} {d : UInt32}
    (h : appliesToDevice sd d = true) :
    sd.uv ≠ 0 ∧ targetLevel sd.uv ≤ 31 := by
  have hne : sd.uv ≠ 0 := by
    intro hzero
    rw [not_appliesToDevice_of_vMask (vMask_degenerate (.inl hzero))] at h
    cases h
  obtain ⟨-, j, hj, hlevel, -⟩ := (appliesToDevice_iff hne d).mp h
  exact ⟨hne, hlevel.trans (Nat.lt_succ_iff.mp hj)⟩

/-- `while ((uv & ~v_mask) == 0) v_mask <<= 1`, from one mask to the one it ends at. -/
inductive MaskLoop (uv : UInt32) : UInt32 → UInt32 → Prop where
  | done {m : UInt32} : uv &&& ~~~m ≠ 0 → MaskLoop uv m m
  | turn {m r : UInt32} : uv &&& ~~~m = 0 → MaskLoop uv (m <<< 1) r → MaskLoop uv m r

theorem MaskLoop.unique {uv m r r' : UInt32} (h : MaskLoop uv m r) (h' : MaskLoop uv m r') :
    r = r' := by
  induction h with
  | done hexit =>
    cases h' with
    | done => rfl
    | turn hgo => exact absurd hgo hexit
  | turn hgo _ ih =>
    cases h' with
    | done hexit => exact absurd hgo hexit
    | turn _ hrest => exact ih hrest

/-- Each turn clears one more bit, up to the lowest set bit of `uv`; `n` turns are left. -/
theorem maskLoop_highMask {uv : UInt32} {z : Nat} (h : LowestOne uv z) (n : Nat) {k : Nat}
    (hk : k + n = z + 1) :
    MaskLoop uv (highMask k) (highMask (z + 1)) := by
  induction n generalizing k with
  | zero =>
    obtain rfl : k = z + 1 := hk
    apply MaskLoop.done
    rw [Ne, and_not_highMask_eq_zero_iff]
    intro hclear
    have hbit := hclear z h.lt (Nat.lt_succ_self z)
    rw [h.one] at hbit
    cases hbit
  | succ n ih =>
    apply MaskLoop.turn
    · rw [and_not_highMask_eq_zero_iff]
      intro j _ hjk
      exact h.zeros j (by omega)
    · rw [highMask_shiftLeft_one]
      exact ih (by omega)

theorem maskLoop_vMask {sd : SubsetDifference} (h : sd.uv ≠ 0) :
    MaskLoop sd.uv 0xFFFFFFFF sd.vMask := by
  have hloop := maskLoop_highMask (lowestOne_trailingZeros h) (targetLevel sd.uv) (Nat.zero_add _)
  rwa [highMask_zero, ← targetLevel, ← sd.vMask_eq h] at hloop

theorem applies_of_chooseEntry {d : UInt32} {k i : Nat} {es : List SubsetDifferenceEntry}
    {sd : SubsetDifference}
    (h : AacsVolume.chooseEntry d k es = some (i, sd)) : appliesToDevice sd d = true := by
  induction es generalizing k with
  | nil => cases h
  | cons e es ih =>
    rw [AacsVolume.chooseEntry] at h
    by_cases happlies : appliesToDevice (AacsVolume.subsetDifference e) d = true
    · rw [if_pos happlies] at h
      obtain rfl := (Prod.mk.inj (Option.some.inj h)).2
      exact happlies
    · rw [if_neg happlies] at h
      exact ih h

/-- An entry covers the difference of two subtrees, its `v` mask is where the loop of the
specification ends, and the target level of the search is the number of clear bits of that mask. -/
theorem subtree_difference :
    (∀ sd : SubsetDifference, sd.uv ≠ 0 → ∃ z, LowestOne sd.uv z ∧ ∀ d : UInt32,
      (appliesToDevice sd d = true ↔
        (∀ j < 32, sd.uMaskZeroBits.toNat ≤ j → d.toNat.testBit j = sd.uv.toNat.testBit j) ∧
        ∃ j < 32, z < j ∧ d.toNat.testBit j ≠ sd.uv.toNat.testBit j)) ∧
    (∀ sd : SubsetDifference, sd.uv ≠ 0 → ∀ m, MaskLoop sd.uv 0xFFFFFFFF m ↔ m = sd.vMask) ∧
    (∀ sd : SubsetDifference, sd.uv = 0 ∨ sd.uv = 0x80000000 → ∀ d, appliesToDevice sd d = false) ∧
    ∀ (es : List SubsetDifferenceEntry) (d : UInt32) (i : Nat) (sd : SubsetDifference),
      AacsVolume.chooseEntry d 0 es = some (i, sd) →
        (AacsVolume.targetVMaskZeroBits sd.uv).toNat ≤ 31 ∧
        ∀ j < 32, sd.vMask.toNat.testBit j = decide
          ((AacsVolume.targetVMaskZeroBits sd.uv).toNat ≤ j) := by
  refine ⟨?_, ?_, ?_, ?_⟩
  · intro sd h
    exact ⟨trailingZeros sd.uv, lowestOne_trailingZeros h, appliesToDevice_iff h⟩
  · intro sd h m
    constructor
    · intro hm
      exact hm.unique (maskLoop_vMask h)
    · rintro rfl
      exact maskLoop_vMask h
  · intro sd h d
    exact not_appliesToDevice_of_vMask (vMask_degenerate h) d
  · intro es d i sd hchosen
    obtain ⟨hne, hlevel⟩ := targetLevel_le_of_applies (applies_of_chooseEntry hchosen)
    rw [AacsVolume.targetVMaskZeroBits_toNat hne]
    refine ⟨hlevel, ?_⟩
    intro j hj
    rw [sd.vMask_eq hne, testBit_highMask _ hj]

/-- The entry `0x11010000` below a `u` node at level 24: its lowest set bit is at place 16, and it
is the one chosen for the device `0x11020001`. -/
theorem subtree_difference_11010000 :
    (∀ m, MaskLoop 0x11010000 0xFFFFFFFF m ↔ m = (⟨24, 0x11010000⟩ : SubsetDifference).vMask) ∧
    appliesToDevice ⟨24, 0x80000000⟩ 0x11020001 = false ∧
    (AacsVolume.targetVMaskZeroBits 0x11010000).toNat ≤ 31 := by
  have hchosen : AacsVolume.chooseEntry 0x11020001 0 [⟨24, 0x11010000⟩] =
      some (0, ⟨24, 0x11010000⟩) := by
    decide +kernel
  obtain ⟨-, hloop, hdegenerate, hsearch⟩ := subtree_difference
  exact ⟨hloop ⟨24, 0x11010000⟩ (by decide), hdegenerate ⟨24, 0x80000000⟩ (.inr rfl) 0x11020001,
    (hsearch _ _ _ _ hchosen).1⟩

end Subdiff
