import Aacs.AesCipher
import Aacs.AlignedUnit
import Aacs.HashChain
import Aacs.HashPadding

/-!
# Collisions of the two hashes

Both hashes chain a compression function over a padding that ends in the bit length. So two
messages have one digest only where the function has one output for two of the inputs that
hashing them gives it.
-/
namespace Sha1

theorem word_eq_of_beBytes {v w : UInt32} (h : beBytes 4 v.toNat = beBytes 4 w.toNat) : v = w := by
  have hv : v.toNat < 256 ^ 4 := v.toNat_lt
  have hw : w.toNat < 256 ^ 4 := w.toNat_lt
  have hnat := congrArg beNat h
  rw [beNat_beBytes, beNat_beBytes, Nat.mod_eq_of_lt hv, Nat.mod_eq_of_lt hw] at hnat
  exact UInt32.toNat_inj.mp hnat

theorem State.toBytes_inj {s t : State} : s.toBytes = t.toBytes ↔ s = t := by
  constructor
  · intro h
    have hwords := congrArg Bytes.toList h
    simp only [toBytes, List.flatMap_cons, List.flatMap_nil, List.append_nil] at hwords
    obtain ⟨ha, hwords⟩ := List.append_inj hwords (by simp)
    obtain ⟨hb, hwords⟩ := List.append_inj hwords (by simp)
    obtain ⟨hc, hwords⟩ := List.append_inj hwords (by simp)
    obtain ⟨hd, he⟩ := List.append_inj hwords (by simp)
    rw [State.mk.injEq]
    exact ⟨word_eq_of_beBytes ha, word_eq_of_beBytes hb, word_eq_of_beBytes hc,
      word_eq_of_beBytes hd, word_eq_of_beBytes he⟩
  · rintro rfl
    rfl

end Sha1

namespace HashPadding

variable {n r : Nat} {data data' : List UInt8}

/-- The blocks of a padded message. -/
def blocks (n r : Nat) (data : List UInt8) : List (List UInt8) :=
  Aes.chunksExact n (padded n r data)

theorem flatten_chunksExact (hn : 0 < n) {p : List UInt8} (h : n ∣ p.length) :
    (Aes.chunksExact n p).flatten = p := by
  obtain ⟨count, hcount⟩ := h
  obtain ⟨bs, -, rfl⟩ := @Aes.exists_blocks n count p (by rw [hcount, Nat.mul_comm])
  rw [Aes.chunksExact_blocks hn, List.flatMap_def]

theorem flatten_blocks (hn : r + 8 = n) (data : List UInt8) :
    (blocks n r data).flatten = padded n r data :=
  flatten_chunksExact (by omega) (pads_padded hn data).aligned

/-- No padded message ends another one, as the bit length stands at the end of both. -/
theorem eq_of_blocks_suffix (hn : r + 8 = n) (h : data.length < 2 ^ 61) (h' : data'.length < 2 ^ 61)
    (hsuffix : blocks n r data <:+ blocks n r data') : data = data' := by
  obtain ⟨front, hfront⟩ := hsuffix
  have hpadded := congrArg List.flatten hfront
  rw [List.flatten_append, flatten_blocks hn, flatten_blocks hn] at hpadded
  have hbits : Aes.bitLenBytes data = Aes.bitLenBytes data' := by
    rw [padded, padded, ← List.append_assoc] at hpadded
    exact (List.append_inj' hpadded (by simp [Aes.bitLenBytes])).2
  have hlen : data.length = data'.length := by
    have hnat := congrArg beNat hbits
    rw [Aes.bitLenBytes, Aes.bitLenBytes, beNat_beBytes, beNat_beBytes] at hnat
    omega
  have hempty : front.flatten = [] := by
    have hlengths := congrArg List.length hpadded
    rw [List.length_append, length_padded, length_padded, hlen] at hlengths
    apply List.length_eq_zero_iff.mp
    omega
  rw [hempty, List.nil_append] at hpadded
  exact padded_inj h h' hpadded

theorem blocks_inj (hn : r + 8 = n) (h : data.length < 2 ^ 61) (h' : data'.length < 2 ^ 61) :
    blocks n r data = blocks n r data' ↔ data = data' := by
  constructor
  · intro heq
    exact eq_of_blocks_suffix hn h h' (heq ▸ List.suffix_refl _)
  · rintro rfl
    rfl

/-- The chains over two padded messages end the same exactly when the messages are the same or the
function collides in them. -/
theorem chain_eq_iff {σ : Type} {f : σ → List UInt8 → σ} {iv : σ} (hn : r + 8 = n)
    (h : data.length < 2 ^ 61)
    (h' : data'.length < 2 ^ 61) : (blocks n r data).foldl f iv = (blocks n r data').foldl f iv ↔
      data = data' ∨ HashChain.Collision f iv (blocks n r data) (blocks n r data') := by
  rw [← blocks_inj hn h h']
  apply HashChain.foldl_eq_iff
  · intro hsuffix
    rw [eq_of_blocks_suffix hn h h' hsuffix]
  · intro hsuffix
    rw [eq_of_blocks_suffix hn h' h hsuffix]

/-- Two messages have one digest exactly when they are the same or the compression function of the
hash collides in hashing them, with all that follows the same. -/
theorem digests_exact (aes : Aes128) (data data' : List UInt8) (h : data.length < 2 ^ 61)
    (h' : data'.length < 2 ^ 61) :
    (Aes.aesH aes data = Aes.aesH aes data' ↔ data = data' ∨
      HashChain.Collision (fun h chunk => Aes.aesG aes (Aes.block chunk) h) Aes.h0
        (blocks 16 8 data) (blocks 16 8 data')) ∧
    (Sha1.sha1 data = Sha1.sha1 data' ↔ data = data' ∨
      HashChain.Collision Sha1.compress Sha1.initial (blocks 64 56 data) (blocks 64 56 data')) := by
  constructor
  · exact chain_eq_iff rfl h h'
  · rw [← chain_eq_iff rfl h h']
    exact Sha1.State.toBytes_inj

theorem digests_exact_byte : Sha1.sha1 [0x61] = Sha1.sha1 [] ↔
    HashChain.Collision Sha1.compress Sha1.initial (blocks 64 56 [0x61]) (blocks 64 56 []) := by
  have hexact := (digests_exact Aes128.fips197 [0x61] [] (by decide) (by decide)).2
  rwa [or_iff_right (List.cons_ne_nil _ _)] at hexact

end HashPadding
