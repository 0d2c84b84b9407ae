import Aacs.AesCipher
import Mathlib.Data.Fintype.EquivFin
import Mathlib.Data.Fintype.Card

/-!
# AES-128 is a permutation

The inverse cipher undoes the cipher step by step: the tables are inverse to each
other, the row shifts are, and the column product has order four, its square being
the preparatory multiplication of the inverse. Blocks being finite, the cipher
undoes the inverse cipher too.
-/
namespace Aes128

theorem lookup_inv (b : UInt8) : lookup invSboxTable (lookup sboxTable b) = b :=
  byte_cases (p := fun b => lookup invSboxTable (lookup sboxTable b) = b) (by decide +kernel) b

/-- The reduction of a byte whose first bit was shifted out. -/
def carry (b : UInt8) : UInt8 := if b >>> 7 = 0 then 0 else 0x1b

theorem xtime_eq (b : UInt8) : xtime b = (b <<< 1) ^^^ carry b :=
  byte_cases (p := fun b => xtime b = (b <<< 1) ^^^ carry b) (by decide +kernel) b

theorem shiftRight_seven (b : UInt8) : b >>> 7 = 0 ∨ b >>> 7 = 1 :=
  byte_cases (p := fun b => b >>> 7 = 0 ∨ b >>> 7 = 1) (by decide +kernel) b

theorem carry_xor (a b : UInt8) : carry (a ^^^ b) = carry a ^^^ carry b := by
  rw [carry, carry, carry, UInt8.shiftRight_xor]
  rcases shiftRight_seven a with ha | ha <;> rcases shiftRight_seven b with hb | hb <;>
    rw [ha, hb] <;> rfl

/-- `xtime` is linear. -/
theorem xtime_xor (a b : UInt8) : xtime (a ^^^ b) = xtime a ^^^ xtime b := by
  rw [xtime_eq, xtime_eq, xtime_eq, UInt8.shiftLeft_xor, carry_xor, UInt8.xor_assoc,
    UInt8.xor_assoc, ← UInt8.xor_assoc (b <<< 1), UInt8.xor_comm (b <<< 1) (carry a),
    UInt8.xor_assoc]

theorem xor_left_comm (a b c : UInt8) : a ^^^ (b ^^^ c) = b ^^^ (a ^^^ c) := by
  rw [← UInt8.xor_assoc, UInt8.xor_comm a b, UInt8.xor_assoc]

theorem xor_cancel_left (a b : UInt8) : a ^^^ (a ^^^ b) = b := by
  rw [← UInt8.xor_assoc, UInt8.xor_self, UInt8.zero_xor]

theorem xor_cancel_right (a b : UInt8) : (a ^^^ b) ^^^ b = a := by
  rw [UInt8.xor_assoc, UInt8.xor_self, UInt8.xor_zero]

theorem mixColumn_of_short {s : List UInt8}
    (h : ∀ a b c d rest, s = a :: b :: c :: d :: rest → False) :
    mixColumn s = s := by
  rw [mixColumn]
  exact h

theorem invMixPrepare_of_short {s : List UInt8}
    (h : ∀ a b c d rest, s = a :: b :: c :: d :: rest → False) :
    invMixPrepare s = s := by
  rw [invMixPrepare]
  exact h

/-- The square of the column product. -/
theorem mixColumn_mixColumn (s : List UInt8) : mixColumn (mixColumn s) = invMixPrepare s := by
  induction s using mixColumn.induct with
  | case1 a b c d rest ih =>
    rw [mixColumn, mixColumn, ih, invMixPrepare]
    simp only [xtime_xor, UInt8.xor_comm, xor_left_comm, xor_cancel_left, UInt8.xor_self,
      UInt8.xor_zero]
  | case2 rest h => rw [mixColumn_of_short h, mixColumn_of_short h, invMixPrepare_of_short h]

theorem invMixPrepare_invMixPrepare (s : List UInt8) : invMixPrepare (invMixPrepare s) = s := by
  induction s using invMixPrepare.induct with
  | case1 a b c d rest ih =>
    rw [invMixPrepare, invMixPrepare, ih]
    simp only [UInt8.xor_comm, xor_left_comm, UInt8.xor_self, UInt8.xor_zero]
  | case2 rest h => rw [invMixPrepare_of_short h, invMixPrepare_of_short h]

theorem invMixColumn_mixColumn (s : List UInt8) : invMixColumn (mixColumn s) = s := by
  rw [invMixColumn, ← mixColumn_mixColumn, mixColumn_mixColumn, mixColumn_mixColumn,
    invMixPrepare_invMixPrepare]

theorem xorAll_xorAll {s k : List UInt8} (h : s.length = k.length) : xorAll (xorAll s k) k = s := by
  induction s generalizing k with
  | nil => rfl
  | cons b s ih =>
    cases k with
    | nil => cases h
    | cons c k =>
      have hrest := ih (Nat.succ.inj h)
      rw [xorAll, xorAll] at hrest
      rw [xorAll, xorAll, List.zipWith_cons_cons, List.zipWith_cons_cons, xor_cancel_right, hrest]

theorem length_xorAll {s k : List UInt8} (h : s.length = k.length) :
    (xorAll s k).length = s.length := by
  rw [xorAll, List.length_zipWith, h, Nat.min_self]

theorem length_mixColumn (s : List UInt8) : (mixColumn s).length = s.length := by
  induction s using mixColumn.induct with
  | case1 a b c d rest ih => simp only [mixColumn, List.length_cons, ih]
  | case2 rest h => rw [mixColumn_of_short h]

theorem length_shiftRows (s : List UInt8) : (shiftRows s).length = 16 := by simp [shiftRows]

theorem invShiftRows_shiftRows {s : List UInt8} (h : s.length = 16) :
    invShiftRows (shiftRows s) = s := by
  refine List.ext_getElem (by simp [invShiftRows, h]) fun i hi hi' => ?_
  have hplace : 5 * (13 * i % 16) % 16 = i := by omega
  have hlt : 13 * i % 16 < 16 := Nat.mod_lt _ (by decide)
  simp [invShiftRows, shiftRows, hlt, hplace, hi']

/-- The substitution and the row shift of one round. -/
def subShift (s : List UInt8) : List UInt8 := shiftRows (s.map (lookup sboxTable))

theorem invSubShift {s : List UInt8} (h : s.length = 16) :
    (invShiftRows (subShift s)).map (lookup invSboxTable) = s := by
  have hinv : (lookup invSboxTable ∘ lookup sboxTable) = id := funext lookup_inv
  rw [subShift, invShiftRows_shiftRows (by rw [List.length_map, h]), List.map_map, hinv,
    List.map_id]

theorem length_subShift (s : List UInt8) : (subShift s).length = 16 := length_shiftRows _

theorem encryptRounds_last (s k : List UInt8) : encryptRounds s [k] = xorAll (subShift s) k := rfl

theorem encryptRounds_cons (s k : List UInt8) {ks : List (List UInt8)} (h : ks ≠ []) :
    encryptRounds s (k :: ks) = encryptRounds (xorAll (mixColumn (subShift s)) k) ks := by
  cases ks with
  | nil => exact absurd rfl h
  | cons k' ks => rfl

theorem decryptRounds_cons (s k : List UInt8) {ks : List (List UInt8)} (h : ks ≠ []) :
    decryptRounds s (k :: ks) =
      decryptRounds (invMixColumn (xorAll ((invShiftRows s).map (lookup invSboxTable)) k)) ks := by
  cases ks with
  | nil => exact absurd rfl h
  | cons k' ks => rfl

theorem length_encryptRounds {ks : List (List UInt8)} (hks : ∀ k ∈ ks, k.length = 16)
    {s : List UInt8} (hs : s.length = 16) : (encryptRounds s ks).length = 16 := by
  induction ks generalizing s with
  | nil => exact hs
  | cons k ks ih =>
    obtain ⟨hk, hks⟩ := List.forall_mem_cons.mp hks
    by_cases hnil : ks = []
    · rw [hnil, encryptRounds_last, length_xorAll (by rw [length_subShift, hk]), length_subShift]
    · rw [encryptRounds_cons s k hnil]
      refine ih hks ?_
      rw [length_xorAll (by rw [length_mixColumn, length_subShift, hk]), length_mixColumn,
        length_subShift]

/-- The inverse rounds lead back to the state in front of the last substitution of the first round.
-/
theorem decryptRounds_encryptRounds {ks rest : List (List UInt8)} {last : List UInt8}
    (hks : ∀ k ∈ ks, k.length = 16) (hlast : last.length = 16) (hrest : rest ≠ []) {s : List UInt8}
    (hs : s.length = 16) :
    decryptRounds (xorAll (encryptRounds s (ks ++ [last])) last) (ks.reverse ++ rest) =
      decryptRounds (subShift s) rest := by
  induction ks generalizing s rest with
  | nil =>
    rw [List.nil_append, encryptRounds_last, xorAll_xorAll (by rw [length_subShift, hlast])]
    rfl
  | cons k ks ih =>
    obtain ⟨hk, hks⟩ := List.forall_mem_cons.mp hks
    have hlen : (xorAll (mixColumn (subShift s)) k).length = 16 := by
      rw [length_xorAll (by rw [length_mixColumn, length_subShift, hk]), length_mixColumn,
        length_subShift]
    rw [List.cons_append, encryptRounds_cons s k (by simp), List.reverse_cons, List.append_assoc,
      List.singleton_append, ih hks (List.cons_ne_nil k rest) hlen, decryptRounds_cons _ k hrest,
      invSubShift hlen,
      xorAll_xorAll (by rw [length_mixColumn, length_subShift, hk]), invMixColumn_mixColumn]

theorem length_roundKeys (n : Nat) (rcon : UInt8) {key : List UInt8} (h : key.length = 16) :
    ∀ k ∈ roundKeys n rcon key, k.length = 16 := by
  induction n generalizing rcon key with
  | zero => simpa [roundKeys] using h
  | succ n ih =>
    rw [roundKeys, List.forall_mem_cons]
    refine ⟨h, ih _ ?_⟩
    simp [nextRoundKey, xorAll, h]

/-- The round keys begin with the key and have a last one. -/
theorem roundKeys_split (n : Nat) (rcon : UInt8) (key : List UInt8) :
    ∃ ks last, roundKeys (n + 1) rcon key = key :: (ks ++ [last]) := by
  have hne : roundKeys n (xtime rcon) (nextRoundKey key rcon) ≠ [] := by
    cases n <;> exact List.cons_ne_nil _ _
  obtain ⟨ks, last, h⟩ := (List.eq_nil_or_concat' _).resolve_left hne
  exact ⟨ks, last, by rw [roundKeys, h]⟩

/-- Decryption undoes encryption. -/
theorem decryptBlock_encryptBlock (key data : Bytes 16) :
    decryptBlock key (encryptBlock key data) = data := by
  obtain ⟨ks, last, hkeys⟩ := roundKeys_split 9 1 key.toList
  have hlengths := length_roundKeys 10 1 key.length_toList
  rw [hkeys, List.forall_mem_cons, List.forall_mem_append, List.forall_mem_singleton] at hlengths
  obtain ⟨hkey, hks, hlast⟩ := hlengths
  have hstate : (xorAll data.toList key.toList).length = 16 := by
    rw [length_xorAll (by simp), data.length_toList]
  have hcipher : (encryptRounds (xorAll data.toList key.toList) (ks ++ [last])).length = 16 :=
    length_encryptRounds (by simpa [or_imp, forall_and] using ⟨hks, hlast⟩) hstate
  have hencrypt : (encryptBlock key data).toList = encryptRounds (xorAll data.toList key.toList)
      (ks ++ [last]) := by
    rw [encryptBlock, hkeys]
    exact Aes.block_toList hcipher
  have hreverse : (roundKeys 10 1 key.toList).reverse = last :: (ks.reverse ++ [key.toList]) := by
    rw [hkeys]
    simp
  have hround := decryptRounds_encryptRounds hks hlast (List.cons_ne_nil key.toList []) hstate
  have hdata : xorAll (xorAll data.toList key.toList) key.toList = data.toList :=
    xorAll_xorAll (by simp)
  rw [decryptBlock, hreverse]
  dsimp only
  rw [hencrypt, hround, decryptRounds, invSubShift hstate, hdata]
  exact Aes.block_bytes data

theorem beNat_block_lt (b : Bytes 16) : beNat b.toList < 256 ^ 16 := by
  have hlt := beNat_lt b.toList
  rwa [b.length_toList] at hlt

instance : Finite (Bytes 16) :=
  Finite.of_injective (fun b : Bytes 16 => (⟨beNat b.toList, beNat_block_lt b⟩ : Fin (256 ^ 16)))
    fun a b h => Bytes.ext (beNat_inj (by simp) (Fin.mk.inj h))

/-- Encryption undoes decryption: it reaches every block. -/
theorem encryptBlock_decryptBlock (key data : Bytes 16) :
    encryptBlock key (decryptBlock key data) = data := by
  have hleft : Function.LeftInverse (decryptBlock key) (encryptBlock key) :=
    decryptBlock_encryptBlock key
  obtain ⟨plain, hplain⟩ := Finite.surjective_of_injective hleft.injective data
  rw [← hplain, decryptBlock_encryptBlock]

end Aes128
