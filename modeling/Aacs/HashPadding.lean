import Aacs.Error
import Aacs.Sha1
import Aacs.Usize
import Mathlib.Data.Nat.Find

/-!
# The padding of the two hashes

Both hashes append a one bit, zero bytes until a block has room for nothing but
the bit length, and the bit length. Their loops test different conditions; each
ends at the first length that has the right remainder, so that the padded message
is as short as it can be and no two messages share one.
-/
namespace HashPadding

open Outcome

/-- `while c(msg.len()) { msg.push(0x00) }`, for a condition that fails later on. -/
def pushZeros (c : Nat → Prop) [DecidablePred c] (hends : ∀ len, ∃ k, ¬c (len + k))
    (msg : List UInt8) : List UInt8 :=
  if c msg.length then pushZeros c hends (msg ++ [0]) else msg
termination_by Nat.find (hends msg.length)
decreasing_by
  rename_i hgo
  have hpos : Nat.find (hends msg.length) ≠ 0 := by
    intro hzero
    exact (Nat.find_eq_zero (hends msg.length)).mp hzero hgo
  have hfound := Nat.find_spec (hends msg.length)
  apply Nat.lt_of_le_of_lt (Nat.find_min' _ (m := Nat.find (hends msg.length) - 1) _) (by omega)
  rw [List.length_append, List.length_singleton]
  rwa [show msg.length + 1 + (Nat.find (hends msg.length) - 1) = msg.length + Nat.find
    (hends msg.length) by omega]

/-- The loop pushes as many zeros as it takes to reach the first length where the condition fails.
-/
theorem pushZeros_eq (c : Nat → Prop) [DecidablePred c] (hends : ∀ len, ∃ k, ¬c (len + k))
    (msg : List UInt8) (k : Nat) (hstop : ¬c (msg.length + k)) (hgo : ∀ j < k, c (msg.length + j)) :
    pushZeros c hends msg = msg ++ List.replicate k 0 := by
  induction k generalizing msg with
  | zero =>
    have hnow : ¬c msg.length := hstop
    rw [pushZeros, if_neg hnow, List.replicate_zero, List.append_nil]
  | succ k ih =>
    have hlen : (msg ++ [0]).length = msg.length + 1 := by
      rw [List.length_append, List.length_singleton]
    have hnow : c msg.length := hgo 0 (Nat.zero_lt_succ k)
    rw [pushZeros, if_pos hnow, ih (msg ++ [0]), List.append_assoc, List.replicate_succ]
    · rfl
    · rwa [hlen, Nat.add_assoc, Nat.add_comm 1]
    · intro j hj
      rw [hlen, Nat.add_assoc, Nat.add_comm 1]
      exact hgo (j + 1) (Nat.succ_lt_succ hj)

theorem aesH_ends (len : Nat) : ∃ k, ¬(len + k + 8) % 16 ≠ 0 := by
  exists (8 + 16 - len % 16) % 16
  omega

theorem sha1_ends (len : Nat) : ∃ k, ¬(len + k) % 64 ≠ 56 := by
  exists (56 + 64 - len % 64) % 64
  omega

/-- The padded message of `aes_h`. -/
def aesHPad (data : List UInt8) : Result (List UInt8) := do
  let bitLen ← mulU64 (UInt64.ofNat data.length) 8
  let padded := pushZeros (fun len => (len + 8) % 16 ≠ 0) aesH_ends (data ++ [0x80])
  return padded ++ beBytes 8 bitLen.toNat

/-- The padded message of `sha1`, with `data.len().wrapping_mul(8)`. -/
def sha1Pad (data : List UInt8) : List UInt8 :=
  let bitLen := UInt64.ofNat data.length * 8
  let msg := pushZeros (fun len => len % 64 ≠ 56) sha1_ends (data ++ [0x80])
  msg ++ beBytes 8 bitLen.toNat

/-- Before the last zero of the padding the remainder is another one. -/
theorem zeroPad_least {n r : Nat} (hr : r < n) (len j : Nat)
    (hj : j < (Aes.zeroPad n r len).length) :
    (len + j) % n ≠ r := by
  obtain ⟨hstop, hlt⟩ := Aes.length_zeroPad n r len hr
  intro h
  have hmod : (len + (Aes.zeroPad n r len).length) % n = (len + j) % n := by rw [hstop, h]
  have hdvd : n ∣ (Aes.zeroPad n r len).length - j := by
    have hsub := Nat.sub_mod_eq_zero_of_mod_eq hmod
    rw [Nat.add_sub_add_left] at hsub
    exact Nat.dvd_of_mod_eq_zero hsub
  have hle := Nat.le_of_dvd (by omega) hdvd
  omega

/-- A loop that waits for a remainder pads with the zeros the model has. -/
theorem pushZeros_zeroPad {c : Nat → Prop} [DecidablePred c] (hends : ∀ len, ∃ k, ¬c (len + k))
    {n r : Nat} (hr : r < n) (hc : ∀ len, c len ↔ len % n ≠ r) (msg : List UInt8) :
    pushZeros c hends msg = msg ++ Aes.zeroPad n r msg.length := by
  have hzeros : Aes.zeroPad n r msg.length = List.replicate (Aes.zeroPad n r msg.length).length 0 :=
    by
    rw [Aes.zeroPad, List.length_replicate]
  rw [hzeros]
  apply pushZeros_eq
  · rw [hc, not_not]
    exact (Aes.length_zeroPad n r msg.length hr).1
  · intro j hj
    rw [hc]
    exact zeroPad_least hr msg.length j hj

theorem toNat_bitLen (data : List UInt8) :
    (UInt64.ofNat data.length * 8).toNat = data.length * 8 % 2 ^ 64 := by
  rw [UInt64.toNat_mul, UInt64.toNat_ofNat', Nat.mod_mul_mod]
  rfl

theorem sha1Pad_eq (data : List UInt8) : sha1Pad data = Sha1.padded data := by
  rw [sha1Pad]
  rw [pushZeros_zeroPad sha1_ends (n := 64) (r := 56) (by decide) (fun len => Iff.rfl),
    toNat_bitLen, List.length_append, List.length_singleton]
  rfl

theorem aesHPad_eq {data : List UInt8} (h : data.length < 2 ^ 61) :
    aesHPad data = .ok (Aes.aesHPadded data) := by
  have hlen : (UInt64.ofNat data.length).toNat = data.length := by
    rw [UInt64.toNat_ofNat', Nat.mod_eq_of_lt (by omega)]
  have hwait (len : Nat) : (len + 8) % 16 ≠ 0 ↔ len % 16 ≠ 8 := by omega
  rw [aesHPad, mulU64_bind (by rw [hlen, show (8 : UInt64).toNat = 8 from rfl]; omega)]
  rw [pushZeros_zeroPad aesH_ends (n := 16) (r := 8) (by decide) hwait, toNat_bitLen,
    List.length_append, List.length_singleton]
  rfl

/-- `p` pads `data` to whole blocks of `n` bytes, with room for the one bit and the bit length and
no more. -/
structure Pads (n : Nat) (data p : List UInt8) : Prop where
  aligned : n ∣ p.length
  room : data.length + 1 + 8 ≤ p.length
  least : ∀ len, n ∣ len → data.length + 1 + 8 ≤ len → p.length ≤ len
  begins : ∃ rest, p = data ++ rest

/-- The form of both paddings. -/
def padded (n r : Nat) (data : List UInt8) : List UInt8 :=
  data ++ [0x80] ++ Aes.zeroPad n r (data.length + 1) ++ Aes.bitLenBytes data

theorem length_padded (n r : Nat) (data : List UInt8) :
    (padded n r data).length = data.length + 1 + (Aes.zeroPad n r (data.length + 1)).length + 8 :=
  by
  simp [padded, Aes.bitLenBytes]
  omega

theorem pads_padded {n r : Nat} (hn : r + 8 = n) (data : List UInt8) :
    Pads n data (padded n r data) := by
  obtain ⟨hstop, hlt⟩ := Aes.length_zeroPad n r (data.length + 1) (by omega)
  have hlen := length_padded n r data
  have haligned : n ∣ (padded n r data).length := by
    apply Nat.dvd_of_mod_eq_zero
    rw [hlen, Nat.add_mod, hstop, ← Nat.add_mod_mod, Nat.add_mod_mod, Nat.add_mod_mod, hn,
      Nat.mod_self]
  constructor
  · exact haligned
  · omega
  · intro len hdvd hroom
    by_contra hless
    have hgap := Nat.le_of_dvd (by omega) (Nat.dvd_sub haligned hdvd)
    omega
  · exists [0x80] ++ Aes.zeroPad n r (data.length + 1) ++ Aes.bitLenBytes data
    simp only [padded, List.append_assoc]

/-- The bit length ends the padded form, so that it tells messages of two lengths apart. -/
theorem padded_inj {n r : Nat} {data data' : List UInt8} (h : data.length < 2 ^ 61)
    (h' : data'.length < 2 ^ 61) (heq : padded n r data = padded n r data') : data = data' := by
  obtain ⟨hfront, hbits⟩ := List.append_inj' heq (by simp [Aes.bitLenBytes])
  have hnat := congrArg beNat hbits
  rw [Aes.bitLenBytes, Aes.bitLenBytes, beNat_beBytes, beNat_beBytes] at hnat
  have hlen : data.length = data'.length := by omega
  rw [List.append_assoc, List.append_assoc] at hfront
  exact (List.append_inj hfront hlen).1

/-- Both loops end, with the least padding that fits, and no two messages are padded alike. -/
theorem padding_canonical (data data' : List UInt8) (h : data.length < 2 ^ 61)
    (h' : data'.length < 2 ^ 61) :
    (aesHPad data = .ok (Aes.aesHPadded data) ∧ Pads 16 data (Aes.aesHPadded data)) ∧
      (sha1Pad data = Sha1.padded data ∧ Pads 64 data (Sha1.padded data)) ∧
      (data ≠ data' → aesHPad data ≠ aesHPad data' ∧ sha1Pad data ≠ sha1Pad data') := by
  have haes : Pads 16 data (Aes.aesHPadded data) := pads_padded (n := 16) (r := 8) rfl data
  have hsha : Pads 64 data (Sha1.padded data) := pads_padded (n := 64) (r := 56) rfl data
  refine ⟨⟨aesHPad_eq h, haes⟩, ⟨sha1Pad_eq data, hsha⟩, ?_⟩
  intro hne
  constructor
  · rw [aesHPad_eq h, aesHPad_eq h']
    intro heq
    exact hne (padded_inj (n := 16) (r := 8) h h' (ok.inj heq))
  · rw [sha1Pad_eq, sha1Pad_eq]
    intro heq
    exact hne (padded_inj (n := 64) (r := 56) h h' heq)

theorem padding_canonical_byte :
    (aesHPad [0x61] = .ok (Aes.aesHPadded [0x61]) ∧ Pads 16 [0x61] (Aes.aesHPadded [0x61])) ∧
      (sha1Pad [0x61] = Sha1.padded [0x61] ∧ Pads 64 [0x61] (Sha1.padded [0x61])) ∧
      aesHPad [0x61] ≠ aesHPad [] ∧ sha1Pad [0x61] ≠ sha1Pad [] := by
  obtain ⟨haes, hsha, hne⟩ := padding_canonical [0x61] [] (by decide) (by decide)
  exact ⟨haes, hsha, hne (List.cons_ne_nil _ _)⟩

end HashPadding
