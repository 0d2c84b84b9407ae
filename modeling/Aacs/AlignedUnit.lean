import Aacs.Chaining
import Aacs.Content

/-!
# The round trip of an Aligned Unit

A buffer of whole blocks is a list of blocks, on which the code chains. An
Aligned Unit is its seed and 383 blocks; both directions keep the seed, so that
both use the same block key.
-/

theorem Bytes.toList_flatMap_length {n : Nat} (bs : List (Bytes n)) :
    (bs.flatMap Bytes.toList).length = bs.length * n := by
  induction bs with
  | nil => simp
  | cons b bs ih =>
    rw [List.flatMap_cons, List.length_append, ih, b.length_toList, List.length_cons]
    ring

namespace Aes

theorem chunksExact_blocks {n : Nat} (hn : 0 < n) (bs : List (Bytes n)) :
    chunksExact n (bs.flatMap Bytes.toList) = bs.map Bytes.toList := by
  induction bs with
  | nil => exact chunksExact_of_lt hn
  | cons b bs ih => rw [List.flatMap_cons, chunksExact_append hn b.length_toList, ih, List.map_cons]

/-- A buffer of whole blocks. -/
theorem exists_blocks {n : Nat} (count : Nat) {data : List UInt8} (h : data.length = count * n) :
    ∃ bs : List (Bytes n), bs.length = count ∧ data = bs.flatMap Bytes.toList := by
  induction count generalizing data with
  | zero =>
    rw [Nat.zero_mul, List.length_eq_zero_iff] at h
    exact ⟨[], rfl, h⟩
  | succ count ih =>
    have hsplit : (count + 1) * n = count * n + n := by ring
    obtain ⟨bs, hcount, hbs⟩ := @ih (data.drop n) (by rw [List.length_drop]; omega)
    refine ⟨⟨data.take n, by rw [List.length_take]; omega⟩ :: bs,
      by rw [List.length_cons, hcount], ?_⟩
    rw [List.flatMap_cons, ← hbs, List.take_append_drop]

variable (aes : Aes128)

theorem cbcEncryptChunks_eq (key prev : Bytes 16) (bs : List (Bytes 16)) :
    cbcEncryptChunks aes key prev (bs.map Bytes.toList) =
      (Chaining.encrypt Bytes.xor (aes.encrypt key) prev bs).flatMap Bytes.toList := by
  induction bs generalizing prev with
  | nil => rfl
  | cons b bs ih => rw [List.map_cons, cbcEncryptChunks, block_bytes, ih, Chaining.encrypt,
    List.flatMap_cons]

theorem cbcDecryptChunks_eq (key prev : Bytes 16) (cs : List (Bytes 16)) :
    cbcDecryptChunks aes key prev (cs.map Bytes.toList) =
      (Chaining.decrypt Bytes.xor (aes.decrypt key) prev cs).flatMap Bytes.toList := by
  induction cs generalizing prev with
  | nil => rfl
  | cons c cs ih => rw [List.map_cons, cbcDecryptChunks, block_bytes, ih, Chaining.decrypt,
    List.flatMap_cons]

theorem cbcEncrypt_blocks (key iv : Bytes 16) (bs : List (Bytes 16)) :
    cbcEncrypt aes key iv (bs.flatMap Bytes.toList) =
      .ok ((Chaining.encrypt Bytes.xor (aes.encrypt key) iv bs).flatMap Bytes.toList) := by
  have hmod : (bs.flatMap Bytes.toList).length % 16 = 0 := by
    rw [Bytes.toList_flatMap_length, Nat.mul_mod_left]
  rw [cbcEncrypt, if_pos hmod, chunksExact_blocks (by decide), cbcEncryptChunks_eq]

theorem cbcDecrypt_blocks (key iv : Bytes 16) (cs : List (Bytes 16)) :
    cbcDecrypt aes key iv (cs.flatMap Bytes.toList) =
      .ok ((Chaining.decrypt Bytes.xor (aes.decrypt key) iv cs).flatMap Bytes.toList) := by
  have hmod : (cs.flatMap Bytes.toList).length % 16 = 0 := by
    rw [Bytes.toList_flatMap_length, Nat.mul_mod_left]
  rw [cbcDecrypt, if_pos hmod, chunksExact_blocks (by decide), cbcDecryptChunks_eq]

end Aes

namespace Content

variable {aes : Aes128}

/-- The unit of a seed and the blocks behind it. -/
def unitOf (seed : Bytes 16) (bs : List (Bytes 16)) (h : bs.length = 383) : Bytes alignedUnitSize :=
  ⟨seed.toList ++ bs.flatMap Bytes.toList, by
    rw [List.length_append, Bytes.toList_flatMap_length, seed.length_toList, h]; rfl⟩

@[simp] theorem unitOf_toList (seed : Bytes 16) (bs : List (Bytes 16)) (h : bs.length = 383) :
    (unitOf seed bs h).toList = seed.toList ++ bs.flatMap Bytes.toList := rfl

theorem exists_unitOf (u : Bytes alignedUnitSize) : ∃ seed bs h, u = unitOf seed bs h := by
  have hlen : u.toList.length = 6144 := u.length_toList
  obtain ⟨bs, hcount, hbs⟩ :=
    @Aes.exists_blocks 16 383 (u.toList.drop 16) (by rw [List.length_drop, hlen])
  refine ⟨⟨u.toList.take 16, by rw [List.length_take, hlen]; rfl⟩, bs, hcount, Bytes.ext ?_⟩
  rw [unitOf_toList, ← hbs, List.take_append_drop]

/-- The unit after a chaining that keeps the number of blocks. -/
theorem alignedUnit_unitOf {cbc : Bytes 16 → Bytes 16 → List UInt8 → Result (List UInt8)}
    {key seed : Bytes 16} {bs bs' : List (Bytes 16)} (h : bs.length = 383) (h' : bs'.length = 383)
    (hcbc : cbc (deriveBlockKey aes key seed) Aes.iv0 (bs.flatMap Bytes.toList) =
      .ok (bs'.flatMap Bytes.toList)) :
    alignedUnit aes cbc key (unitOf seed bs h).toList = .ok (unitOf seed bs' h') := by
  have hlen : (unitOf seed bs h).toList.length = alignedUnitSize := Bytes.length_toList _
  have hseed : (Outcome.slice (unitOf seed bs h).toList 0 alignedUnitSeedSize : Result _) =
      .ok seed.toList := by
    rw [Outcome.slice_of_le (Nat.zero_le _) (by rw [hlen]; decide)]
    exact congrArg Outcome.ok (List.take_left' seed.length_toList)
  have hrest : (Outcome.sliceFrom (unitOf seed bs h).toList alignedUnitSeedSize : Result _) =
      .ok (bs.flatMap Bytes.toList) := by
    rw [Outcome.sliceFrom_of_le (by rw [hlen]; decide)]
    exact congrArg Outcome.ok (List.drop_left' seed.length_toList)
  rw [alignedUnit, Outcome.refuseIf_neg (by rw [hlen]; exact fun hne => hne rfl),
    Outcome.bind_ok, hseed, Outcome.bind_ok, Outcome.copyFrom_of_length seed.length_toList,
    Outcome.bind_ok, hrest, Outcome.bind_ok]
  dsimp only
  rw [hcbc, Outcome.bind_ok]
  exact Outcome.copyFrom_of_length (unitOf seed bs' h').length_toList

theorem encryptAlignedUnit_unitOf (key seed : Bytes 16) {bs : List (Bytes 16)}
    (h : bs.length = 383) :
    encryptAlignedUnit aes key (unitOf seed bs h).toList =
      .ok (unitOf seed
        (Chaining.encrypt Bytes.xor (aes.encrypt (deriveBlockKey aes key seed)) Aes.iv0 bs)
        (by rw [Chaining.length_encrypt, h])) :=
  alignedUnit_unitOf h _ (Aes.cbcEncrypt_blocks aes _ Aes.iv0 bs)

theorem decryptAlignedUnit_unitOf (key seed : Bytes 16) {bs : List (Bytes 16)}
    (h : bs.length = 383) :
    decryptAlignedUnit aes key (unitOf seed bs h).toList =
      .ok (unitOf seed
        (Chaining.decrypt Bytes.xor (aes.decrypt (deriveBlockKey aes key seed)) Aes.iv0 bs)
        (by rw [Chaining.length_decrypt, h])) :=
  alignedUnit_unitOf h _ (Aes.cbcDecrypt_blocks aes _ Aes.iv0 bs)

theorem unitOf_congr (seed : Bytes 16) {bs bs' : List (Bytes 16)} (h : bs.length = 383)
    (h' : bs'.length = 383) (heq : bs = bs') : unitOf seed bs h = unitOf seed bs' h' := by
  subst heq
  rfl

/-- Encryption is undone by decryption under the same unit key. -/
theorem decrypt_encryptAlignedUnit
    (haes : ∀ key data, aes.decrypt key (aes.encrypt key data) = data)
    (key : Bytes 16) (u : Bytes alignedUnitSize) :
    ∃ c, encryptAlignedUnit aes key u.toList = .ok c ∧
      decryptAlignedUnit aes key c.toList = .ok u := by
  obtain ⟨seed, bs, h, rfl⟩ := exists_unitOf u
  refine ⟨_, encryptAlignedUnit_unitOf key seed h, ?_⟩
  rw [decryptAlignedUnit_unitOf]
  exact congrArg Outcome.ok
    (unitOf_congr seed _ _ (Chaining.decrypt_encrypt Bytes.xor_xor (haes _) Aes.iv0 bs))

/-- Decryption is undone by encryption under the same unit key. -/
theorem encrypt_decryptAlignedUnit
    (haes : ∀ key data, aes.encrypt key (aes.decrypt key data) = data)
    (key : Bytes 16) (u : Bytes alignedUnitSize) :
    ∃ p, decryptAlignedUnit aes key u.toList = .ok p ∧
      encryptAlignedUnit aes key p.toList = .ok u := by
  obtain ⟨seed, bs, h, rfl⟩ := exists_unitOf u
  refine ⟨_, decryptAlignedUnit_unitOf key seed h, ?_⟩
  rw [encryptAlignedUnit_unitOf]
  exact congrArg Outcome.ok
    (unitOf_congr seed _ _ (Chaining.encrypt_decrypt Bytes.xor_xor (haes _) Aes.iv0 bs))

end Content
