import Aacs.AesInverse
import Aacs.AlignedUnit

/-!
# Damage to an Aligned Unit

Nothing protects a unit from change, and chaining confines what a change does: a damaged block
is lost, the block behind it takes on the difference bit by bit, and no other block is touched.
-/
namespace Content

/-- Block `i` of a unit; block 0 is the seed. -/
def blockAt (u : Bytes alignedUnitSize) (i : Nat) : Bytes 16 :=
  Aes.block ((u.toList.drop (i * 16)).take 16)

/-- What block `i` of a ciphertext is chained to. -/
def previous (u : Bytes alignedUnitSize) (i : Nat) : Bytes 16 :=
  if i = 1 then Aes.iv0 else blockAt u (i - 1)

variable {aes : Aes128} {seed : Bytes 16} {bs : List (Bytes 16)}

theorem take_drop_flatMap {i : Nat} {b : Bytes 16} (h : bs[i]? = some b) :
    ((bs.flatMap Bytes.toList).drop (i * 16)).take 16 = b.toList := by
  induction bs generalizing i with
  | nil => cases h
  | cons a bs ih =>
    rw [List.flatMap_cons]
    cases i with
    | zero =>
      obtain rfl := Option.some.inj h
      rw [Nat.zero_mul, List.drop_zero, List.take_left' a.length_toList]
    | succ i =>
      have hsucc : (i + 1) * 16 = a.toList.length + i * 16 := by
        rw [a.length_toList, Nat.succ_mul, Nat.add_comm]
      rw [hsucc, List.drop_length_add_append, ih h]

theorem blockAt_unitOf (hlen : bs.length = 383) {i : Nat} {b : Bytes 16}
    (h : (seed :: bs)[i]? = some b) :
    blockAt (unitOf seed bs hlen) i = b := by
  have hunit : (unitOf seed bs hlen).toList = (seed :: bs).flatMap Bytes.toList := rfl
  rw [blockAt, hunit, take_drop_flatMap h, Aes.block_bytes]

/-- Every unit is decrypted block by block. -/
theorem exists_decrypted (aes : Aes128) (key : Bytes 16) (u : Bytes alignedUnitSize) :
    ∃ p, decryptAlignedUnit aes key u.toList = .ok p ∧ blockAt p 0 = blockAt u 0 ∧
      ∀ i, 0 < i → i < 384 → blockAt p i =
        (aes.decrypt (deriveBlockKey aes key (blockAt u 0)) (blockAt u i)).xor (previous u i) := by
  obtain ⟨seed, bs, hlen, rfl⟩ := exists_unitOf u
  have hseed : blockAt (unitOf seed bs hlen) 0 = seed := blockAt_unitOf hlen rfl
  refine ⟨_, decryptAlignedUnit_unitOf key seed hlen, ?_, ?_⟩
  · rw [hseed]
    exact blockAt_unitOf _ rfl
  · intro i hi hlast
    obtain ⟨j, rfl⟩ := Nat.exists_eq_add_of_lt hi
    rw [Nat.zero_add] at hlast ⊢
    obtain ⟨c, hc⟩ : ∃ c, bs[j]? = some c := ⟨_, List.getElem?_eq_getElem (by omega)⟩
    have hprev : (Aes.iv0 :: bs)[j]? = some (previous (unitOf seed bs hlen) (j + 1)) := by
      cases j with
      | zero => rfl
      | succ j =>
        obtain ⟨b, hb⟩ : ∃ b, bs[j]? = some b := ⟨_, List.getElem?_eq_getElem (by omega)⟩
        have hblock : blockAt (unitOf seed bs hlen) (j + 1) = b := blockAt_unitOf hlen hb
        have hne : ¬j + 1 + 1 = 1 := by omega
        rw [previous, if_neg hne, Nat.add_sub_cancel, hblock]
        exact hb
    have hcipher : blockAt (unitOf seed bs hlen) (j + 1) = c := blockAt_unitOf hlen hc
    rw [hseed, hcipher]
    exact blockAt_unitOf _ (Chaining.getElem?_decrypt Bytes.xor _ hc hprev)

theorem previous_eq {u u' : Bytes alignedUnitSize} {i j : Nat}
    (hsame : ∀ i < 384, i ≠ j → blockAt u i = blockAt u' i)
    (hlast : i < 384) (hnext : i ≠ j + 1) (hi : 0 < i) : previous u i = previous u' i := by
  by_cases hone : i = 1
  · rw [previous, previous, if_pos hone, if_pos hone]
  · rw [previous, previous, if_neg hone, if_neg hone]
    exact hsame _ (by omega) (by omega)

/-- Two units that differ in one block of the ciphertext are decrypted to units that differ in that
block and, if there is one behind it, in the block behind it, where they differ as the ciphertexts
did. -/
theorem decrypt_damaged (aes : Aes128)
    (haes : ∀ key data, aes.encrypt key (aes.decrypt key data) = data)
    (key : Bytes 16) (u u' : Bytes alignedUnitSize) (j : Nat) (hj : 0 < j)
    (hne : blockAt u j ≠ blockAt u' j) (hsame : ∀ i < 384, i ≠ j → blockAt u i = blockAt u' i) :
    ∃ p p', decryptAlignedUnit aes key u.toList = .ok p ∧
      decryptAlignedUnit aes key u'.toList = .ok p' ∧
      (∀ i < 384, blockAt p i = blockAt p' i ↔ i ≠ j ∧ i ≠ j + 1) ∧
      (j + 1 < 384 → (blockAt p (j + 1)).xor (blockAt p' (j + 1)) = (blockAt u j).xor
        (blockAt u' j)) := by
  obtain ⟨p, hp, hseed, hblocks⟩ := exists_decrypted aes key u
  obtain ⟨p', hp', hseed', hblocks'⟩ := exists_decrypted aes key u'
  have hzero : blockAt u 0 = blockAt u' 0 := hsame 0 (by decide) hj.ne
  rw [← hzero] at hblocks'
  have hlink (v : Bytes alignedUnitSize) : previous v (j + 1) = blockAt v j := by
    rw [previous, if_neg (by omega), Nat.add_sub_cancel]
  refine ⟨p, p', hp, hp', ?_, ?_⟩
  · intro i hlast
    rcases Nat.eq_zero_or_pos i with rfl | hi
    · rw [hseed, hseed', hzero]
      exact iff_of_true rfl ⟨hj.ne, (Nat.succ_ne_zero j).symm⟩
    rw [hblocks i hi hlast, hblocks' i hi hlast]
    by_cases hdamaged : i = j
    · -- The damaged block.
      subst hdamaged
      rw [previous_eq hsame hlast (Nat.ne_of_lt (Nat.lt_succ_self i)) hi]
      apply iff_of_false
      · intro heq
        have hdec :=
          congrArg (aes.encrypt (deriveBlockKey aes key (blockAt u 0)))
            (Bytes.xor_left_injective _ heq)
        rw [haes, haes] at hdec
        exact hne hdec
      · exact fun h => h.1 rfl
    by_cases hnext : i = j + 1
    · -- The block behind it.
      subst hnext
      rw [hsame (j + 1) hlast hdamaged, hlink, hlink]
      apply iff_of_false
      · intro heq
        rw [Bytes.xor_comm _ (blockAt u j), Bytes.xor_comm _ (blockAt u' j)] at heq
        exact hne (Bytes.xor_left_injective _ heq)
      · exact fun h => h.2 rfl
    · rw [hsame i hlast hdamaged, previous_eq hsame hlast hnext hi]
      exact iff_of_true rfl ⟨hdamaged, hnext⟩
  · intro hlast
    have hcipher := hsame (j + 1) hlast (by omega)
    rw [hblocks _ (Nat.succ_pos j) hlast, hblocks' _ (Nat.succ_pos j) hlast, hcipher, hlink, hlink,
      Bytes.xor_cancel]

def zeroUnit : Bytes alignedUnitSize :=
  unitOf (Bytes.zero 16) (List.replicate 383 (Bytes.zero 16)) List.length_replicate

theorem length_damagedBlocks : (Aes.rb :: List.replicate 382 (Bytes.zero 16)).length = 383 := by
  rw [List.length_cons, List.length_replicate]

/-- The zeros with another block behind the seed. -/
def damagedUnit : Bytes alignedUnitSize :=
  unitOf (Bytes.zero 16) (Aes.rb :: List.replicate 382 (Bytes.zero 16)) length_damagedBlocks

theorem decrypt_damaged_zero : ∃ p p', decryptAlignedUnit Aes128.fips197
    (Bytes.zero 16) zeroUnit.toList = .ok p ∧
    decryptAlignedUnit Aes128.fips197 (Bytes.zero 16) damagedUnit.toList = .ok p' ∧
    (blockAt p 2).xor (blockAt p' 2) = (Bytes.zero 16).xor Aes.rb := by
  have hzeros {i : Nat} (hi : i < 384) : blockAt zeroUnit i = Bytes.zero 16 := by
    apply blockAt_unitOf
    exact List.getElem?_replicate_of_lt hi
  have hdamaged : blockAt damagedUnit 1 = Aes.rb := blockAt_unitOf _ rfl
  have hsame : ∀ i < 384, i ≠ 1 → blockAt zeroUnit i = blockAt damagedUnit i := by
    intro i hi hne
    rw [hzeros hi]
    symm
    apply blockAt_unitOf
    cases i with
    | zero => rfl
    | succ i =>
      cases i with
      | zero => exact absurd rfl hne
      | succ i =>
        have hrest : i < 382 := by omega
        exact List.getElem?_replicate_of_lt hrest
  have hne : blockAt zeroUnit 1 ≠ blockAt damagedUnit 1 := by
    rw [hzeros (by decide), hdamaged]
    decide
  obtain ⟨p, p', hp, hp', -, hnext⟩ :=
    decrypt_damaged Aes128.fips197 Aes128.encryptBlock_decryptBlock (Bytes.zero 16)
    zeroUnit damagedUnit 1 Nat.one_pos hne hsame
  refine ⟨p, p', hp, hp', ?_⟩
  rw [hnext (by decide), hzeros (by decide), hdamaged]

end Content
