import Aacs.SubdiffWalk

/-!
# Paths of the subset-difference walk

A processing key is reached from every device key on the way to its node: the
walk is the fold of the child keys along the bits of the target.
-/
namespace Subdiff

variable (aes : Aes128)

/-- The bits of `uv` at the places `hi - 1` down to `lo`. -/
def pathBits (uv : UInt32) (hi lo : Nat) : List Bool :=
  (List.range (hi - lo)).map fun i => uv.toNat.testBit (hi - 1 - i)

def childKey (key : Bytes 16) (bit : Bool) : Bytes 16 :=
  if bit then (aesG3 aes key).rightChild else (aesG3 aes key).leftChild

theorem walk_eq_foldl (uv : UInt32) (hi lo : Nat) (key : Bytes 16) :
    (keyTree aes).walk uv.toNat hi lo key = (pathBits uv hi lo).foldl (childKey aes) key := by
  rw [KeyTree.walk, KeyTree.bits_eq_map]
  rfl

/-- A walk may stop at any level on the way: the processing key is the one the whole walk gives,
the fold along the path. No shift reaches 32, where it would panic. -/
theorem deriveProcessingKey_path (key : Bytes 16) (uv midUv storedUv : UInt32) {a b c : UInt8}
    (ha : a.toNat ≤ 32) (hab : b.toNat ≤ a.toNat) (hbc : c.toNat ≤ b.toNat) :
    (∃ mid, walkDown aes uv b.toNat a.toNat key = .ok mid ∧
      mid = (pathBits uv a.toNat b.toNat).foldl (childKey aes) key ∧
      deriveProcessingKey aes mid midUv b uv c = deriveProcessingKey aes key storedUv a uv c) ∧
    deriveProcessingKey aes key storedUv a uv c =
      .ok (some
        (aesG3 aes ((pathBits uv a.toNat c.toNat).foldl (childKey aes) key)).processingKey) := by
  have hwhole := deriveProcessingKey_eq aes key storedUv ha uv c
  constructor
  · refine ⟨(keyTree aes).walk uv.toNat a.toNat b.toNat key, walkDown_eq aes uv b.toNat ha key,
      walk_eq_foldl aes uv a.toNat b.toNat key, ?_⟩
    rw [deriveProcessingKey_eq aes _ midUv (hab.trans ha), KeyTree.walk_walk _ _ hbc hab, hwhole]
  · rw [hwhole, walk_eq_foldl]

/-- From level 32 to level 20 and on to level 7. -/
theorem deriveProcessingKey_path_20 :
    deriveProcessingKey Aes128.fips197 (Bytes.zero 16) 0 32 0x12345680 7 =
      .ok (some (aesG3 Aes128.fips197 ((pathBits 0x12345680 32 7).foldl (childKey Aes128.fips197)
        (Bytes.zero 16))).processingKey) := by
  have ha : (32 : UInt8).toNat ≤ 32 := by decide
  have hab : (20 : UInt8).toNat ≤ (32 : UInt8).toNat := by decide
  have hbc : (7 : UInt8).toNat ≤ (20 : UInt8).toNat := by decide
  exact (deriveProcessingKey_path Aes128.fips197 (Bytes.zero 16) 0x12345680 0 0 ha hab hbc).2

end Subdiff
