import Aacs.Aes
import Aacs.BinaryField
import Aacs.Error
import Aacs.Usize

/-!
# AES-CMAC against SP 800-38B

The code as the standard states it: a message is cut into blocks, the last one
complete or padded and masked with a subkey, and the blocks are chained under the
cipher. The code's own loop over offsets computes it, with no index out of range.
-/
namespace CmacSpec

open BinaryField

abbrev Block := BitVec 128

/-- Sixteen bytes as a bit string, the first byte on the left. -/
def toBlock (bs : List UInt8) : Block := BitVec.ofNat 128 (beNat bs)

/-- `R_128`. -/
def rb : Block := 0x87#128

variable (ciph : Block → Block)

def k₁ : Block := double rb (ciph 0)

def k₂ : Block := double rb (k₁ ciph)

/-- `M_n`, from the last piece of the message. -/
def lastBlock (last : List UInt8) : Block :=
  if last.length = 16 then toBlock last ^^^ k₁ ciph
  else toBlock (last ++ 0x80 :: List.replicate (15 - last.length) 0) ^^^ k₂ ciph

/-- `M_1`, ..., `M_n`. -/
def blocks (msg : List UInt8) : List Block :=
  if 16 < msg.length then toBlock (msg.take 16) :: blocks (msg.drop 16) else [lastBlock ciph msg]
termination_by msg.length
decreasing_by
  rw [List.length_drop]
  omega

/-- `C_n`, from `C_0 = 0`. -/
def mac (msg : List UInt8) : Block := (blocks ciph msg).foldl (fun c m => ciph (c ^^^ m)) 0

/-- The blocks by their offsets, for a message of `n` blocks and a last one. -/
theorem blocks_eq (n : Nat) (msg : List UInt8) (hlow : n ≠ 0 → n * 16 < msg.length)
    (hhigh : msg.length ≤ n * 16 + 16) :
    blocks ciph msg = (List.range n).map (fun i => toBlock ((msg.drop (i * 16)).take 16)) ++
      [lastBlock ciph (msg.drop (n * 16))] := by
  induction n generalizing msg with
  | zero =>
    rw [blocks, if_neg (by omega)]
    simp
  | succ n ih =>
    have hlen := hlow (Nat.succ_ne_zero n)
    have hdrop (i : Nat) : (msg.drop 16).drop (i * 16) = msg.drop ((i + 1) * 16) := by
      rw [List.drop_drop, Nat.succ_mul, Nat.add_comm]
    rw [blocks, if_pos (by omega), ih (msg.drop 16) (by rw [List.length_drop]; omega)
      (by rw [List.length_drop]; omega),
      List.range_succ_eq_map, List.map_cons, List.map_map, hdrop, Nat.zero_mul, List.drop_zero]
    simp only [hdrop]
    rfl

/-- The modulus of `GF(2^128)` that the constant stands for. -/
theorem poly_rb : poly rb = Polynomial.X ^ 7 + Polynomial.X ^ 2 + Polynomial.X + 1 := by
  have hbits :
      rb = ((BitVec.twoPow 128 7 ^^^ BitVec.twoPow 128 2) ^^^ BitVec.twoPow 128 1) ^^^
        BitVec.twoPow 128 0 := by
    decide
  rw [hbits, poly_xor, poly_xor, poly_xor, poly_twoPow (by decide), poly_twoPow (by decide),
    poly_twoPow (by decide), poly_twoPow (by decide), pow_one, pow_zero]

end CmacSpec

namespace Aes

open CmacSpec Outcome

theorem beNat_xor {as bs : List UInt8} (hlen : as.length = bs.length) :
    beNat (List.zipWith (· ^^^ ·) as bs) = beNat as ^^^ beNat bs := by
  induction as generalizing bs with
  | nil =>
    obtain rfl : bs = [] := List.length_eq_zero_iff.mp hlen.symm
    rfl
  | cons a as ih =>
    cases bs with
    | nil => simp at hlen
    | cons b bs =>
      have htail : as.length = bs.length := by simpa using hlen
      have hlen' : (List.zipWith (· ^^^ ·) as bs).length = bs.length := by simp [htail]
      have hpow : 256 ^ bs.length = 2 ^ (8 * bs.length) := by rw [Nat.pow_mul]
      have ha : beNat as < 2 ^ (8 * bs.length) := by rw [← hpow, ← htail]; exact beNat_lt as
      have hb : beNat bs < 2 ^ (8 * bs.length) := by rw [← hpow]; exact beNat_lt bs
      rw [List.zipWith_cons_cons, beNat_cons, beNat_cons, beNat_cons, hlen', htail, ih htail, hpow,
        UInt8.toNat_xor]
      apply Nat.eq_of_testBit_eq
      intro i
      rw [Nat.testBit_xor, Nat.mul_comm, Nat.mul_comm a.toNat, Nat.mul_comm b.toNat,
        Nat.testBit_two_pow_mul_add _ (Nat.xor_lt_two_pow ha hb), Nat.testBit_two_pow_mul_add _ ha,
        Nat.testBit_two_pow_mul_add _ hb]
      by_cases hi : i < 8 * bs.length
      · simp [hi]
      · simp [hi]

theorem toBlock_xor (a b : Bytes 16) :
    toBlock (a.xor b).toList = toBlock a.toList ^^^ toBlock b.toList := by
  rw [toBlock, Bytes.xor_toList, beNat_xor (by simp), toBlock, toBlock]
  apply BitVec.eq_of_toNat_eq
  simp

theorem beNat_toList_lt (b : Bytes 16) : beNat b.toList < 2 ^ 128 := by
  have h := beNat_lt b.toList
  rw [b.length_toList] at h
  exact h

theorem toNat_toBlock (b : Bytes 16) : (toBlock b.toList).toNat = beNat b.toList := by
  rw [toBlock, BitVec.toNat_ofNat, Nat.mod_eq_of_lt (beNat_toList_lt b)]

def ofBlock (v : Block) : Bytes 16 := Bytes.ofNat 16 v.toNat

theorem ofBlock_toBlock (b : Bytes 16) : ofBlock (toBlock b.toList) = b := by
  apply Bytes.ext
  rw [ofBlock, toNat_toBlock]
  exact b.beBytes_toList

theorem toBlock_zero : toBlock (Bytes.zero 16).toList = 0 := by decide

/-- A chunk of at most a block is filled up with zeros. -/
theorem block_short {chunk : List UInt8} (h : chunk.length ≤ 16) :
    (block chunk).toList = chunk ++ List.replicate (16 - chunk.length) 0 := by
  have hof : (block chunk).toList = List.ofFn fun i : Fin 16 => chunk.getD i 0 := rfl
  apply List.ext_getElem
  · simp [h]
  · intro i hi hi'
    simp only [hof, List.getElem_ofFn]
    by_cases hlt : i < chunk.length
    · simp [hlt]
    · have hge : chunk.length ≤ i := Nat.le_of_not_lt hlt
      simp [List.getElem_append_right hge, List.getElem?_eq_none hge]

theorem shiftLeft_byte (b c : UInt8) (hc : c.toNat ≤ 1) :
    ((b <<< 1) ||| c).toNat + 256 * (b >>> 7).toNat = 2 * b.toNat + c.toNat := by
  have hhigh : (b >>> 7).toNat = b.toNat / 2 ^ 7 := by
    simp [UInt8.toNat_shiftRight, Nat.shiftRight_eq_div_pow]
  have hlow : ((b <<< 1) ||| c).toNat = 2 * (b.toNat % 2 ^ 7) + c.toNat := by
    rw [UInt8.toNat_or, UInt8.toNat_shiftLeft]
    have h : b.toNat <<< ((1 : UInt8).toNat % 8) % 2 ^ 8 = (b.toNat % 2 ^ 7) <<< 1 := by
      simp only [show (1 : UInt8).toNat % 8 = 1 from rfl, Nat.shiftLeft_eq]
      omega
    rw [h, ← Nat.shiftLeft_add_eq_or_of_lt (by omega), Nat.shiftLeft_eq]
    omega
  rw [hlow, hhigh]
  omega

theorem shiftLeft_spec (bs : List UInt8) : (shiftLeft bs).2.toNat ≤ 1 ∧
    beNat (shiftLeft bs).1 + 256 ^ bs.length * (shiftLeft bs).2.toNat = 2 * beNat bs := by
  induction bs with
  | nil => exact ⟨Nat.zero_le 1, rfl⟩
  | cons b bs ih =>
    obtain ⟨hc, hv⟩ := ih
    have hbyte := shiftLeft_byte b (shiftLeft bs).2 hc
    have hb := b.toNat_lt
    constructor
    · simp only [shiftLeft, UInt8.toNat_shiftRight, Nat.shiftRight_eq_div_pow]
      rw [show (7 : UInt8).toNat % 8 = 7 from rfl]
      omega
    · simp only [shiftLeft, beNat_cons, length_shiftLeft, List.length_cons, Nat.pow_succ]
      calc
        _ = (((b <<< 1) ||| (shiftLeft bs).2).toNat + 256 * (b >>> 7).toNat) * 256 ^ bs.length +
            beNat (shiftLeft bs).1 := by ring
        _ = (2 * b.toNat + (shiftLeft bs).2.toNat) * 256 ^ bs.length + beNat (shiftLeft bs).1 :=
          by rw [hbyte]
        _ = 2 * (b.toNat * 256 ^ bs.length + beNat bs) := by linarith

/-- The first bit of a block is the first bit of its first byte. -/
theorem msb_toBlock (b : Bytes 16) : (toBlock b.toList).msb = true ↔ b.get 0 &&& 0x80 ≠ 0 := by
  have hbyte : ∀ c : UInt8, c &&& 0x80 ≠ 0 ↔ 128 ≤ c.toNat := by
    apply byte_cases
    decide +kernel
  obtain ⟨l, hl⟩ := b
  cases l with
  | nil => simp at hl
  | cons h t =>
    have ht : t.length = 15 := by simpa using hl
    have hlt := beNat_lt t
    have hget : (⟨h :: t, hl⟩ : Bytes 16).get 0 = h := rfl
    rw [hget, hbyte, BitVec.msb_eq_decide, decide_eq_true_eq, toNat_toBlock, beNat_cons, ht]
    rw [ht] at hlt
    omega

theorem toBlock_subkey (b : Bytes 16) :
    toBlock (cmacSubkey b).toList = BinaryField.double CmacSpec.rb (toBlock b.toList) := by
  obtain ⟨-, hv⟩ := shiftLeft_spec b.toList
  have hout : toBlock (shiftLeft b.toList).1 = toBlock b.toList <<< 1 := by
    apply BitVec.eq_of_toNat_eq
    rw [BitVec.toNat_shiftLeft, toNat_toBlock, toBlock, BitVec.toNat_ofNat, Nat.shiftLeft_eq,
      Nat.mul_comm _ (2 ^ 1), pow_one, ← hv, b.length_toList]
    omega
  have hrb : toBlock rb.toList = CmacSpec.rb := by decide
  by_cases h : (toBlock b.toList).msb = true
  · rw [BinaryField.double, if_pos h, cmacSubkey]
    rw [if_pos ((msb_toBlock b).mp h), toBlock_xor, hrb, ← hout]
  · rw [BinaryField.double, if_neg h, cmacSubkey]
    rw [if_neg (mt (msb_toBlock b).mpr h), ← hout]

variable (aes : Aes128)

/-- The cipher under a key, on blocks. -/
def ciph (key : Bytes 16) (v : Block) : Block := toBlock (aes.encrypt key (ofBlock v)).toList

theorem ciph_xor (key a b : Bytes 16) :
    ciph aes key (toBlock a.toList ^^^ toBlock b.toList) = toBlock
      (aes.encrypt key (a.xor b)).toList := by
  rw [ciph, ← toBlock_xor, ofBlock_toBlock]

theorem subkeys_eq (key : Bytes 16) :
    toBlock (cmacSubkey (aes.encrypt key (Bytes.zero 16))).toList = k₁ (ciph aes key) ∧
      toBlock (cmacSubkey (cmacSubkey (aes.encrypt key (Bytes.zero 16)))).toList = k₂
        (ciph aes key) := by
  have h₁ : toBlock (cmacSubkey (aes.encrypt key (Bytes.zero 16))).toList = k₁ (ciph aes key) := by
    rw [toBlock_subkey, k₁, ciph, ← toBlock_zero, ofBlock_toBlock]
  constructor
  · exact h₁
  · rw [toBlock_subkey, h₁, k₂]

/-- The loop over full blocks chains their values. -/
theorem toBlock_chain (key x : Bytes 16) (chunks : List (List UInt8))
    (hchunks : ∀ c ∈ chunks, c.length = 16) :
    toBlock (chunks.foldl (fun x c => aes.encrypt key (x.xor (block c))) x).toList =
      (chunks.map toBlock).foldl (fun c m => ciph aes key (c ^^^ m)) (toBlock x.toList) := by
  induction chunks generalizing x with
  | nil => rfl
  | cons c chunks ih =>
    obtain ⟨hc, hrest⟩ := List.forall_mem_cons.mp hchunks
    rw [List.foldl_cons, ih _ hrest, List.map_cons, List.foldl_cons, ← ciph_xor, block_toList hc]

/-- The number of blocks in front of the last one. -/
def fullBlocks (len : Nat) : Nat := (if (len + 15) / 16 = 0 then 1 else (len + 15) / 16) - 1

theorem fullBlocks_spec (len : Nat) :
    (fullBlocks len ≠ 0 → fullBlocks len * 16 < len) ∧ fullBlocks len * 16 ≤ len ∧
      len ≤ fullBlocks len * 16 + 16 := by
  unfold fullBlocks
  split <;> omega

/-- The masked last block. -/
theorem toBlock_last (key : Bytes 16) {tail : List UInt8} (htail : tail.length ≤ 16) :
    toBlock (if tail.length = 16 then (block tail).xor
      (cmacSubkey (aes.encrypt key (Bytes.zero 16))) else (block (tail ++ [0x80])).xor
        (cmacSubkey (cmacSubkey (aes.encrypt key (Bytes.zero 16))))).toList =
      lastBlock (ciph aes key) tail := by
  obtain ⟨h₁, h₂⟩ := subkeys_eq aes key
  by_cases h : tail.length = 16
  · rw [if_pos h, lastBlock, if_pos h, toBlock_xor, block_toList h, h₁]
  · rw [if_neg h, lastBlock, if_neg h, toBlock_xor, block_short (by simp; omega), h₂,
      List.append_assoc, List.length_append, List.length_singleton, Nat.add_comm, Nat.sub_add_eq]
    rfl

/-- When the last block is complete, read off the message or off its last piece. -/
theorem completeLast_iff (data : List UInt8) :
    ((data.length + 15) / 16 ≠ 0 ∧ data.length % 16 = 0) ↔
    (data.drop (fullBlocks data.length * 16)).length = 16 := by
  rw [List.length_drop, fullBlocks]
  split <;> omega

theorem toBlock_cmac (key : Bytes 16) (data : List UInt8) :
    toBlock (cmac aes key data).toList = mac (ciph aes key) data := by
  obtain ⟨hlow, hle, hhigh⟩ := fullBlocks_spec data.length
  have htail : (data.drop (fullBlocks data.length * 16)).length ≤ 16 := by
    rw [List.length_drop]
    omega
  have hchunks : ∀ c ∈ (List.range (fullBlocks data.length)).map
    (fun i => (data.drop (i * 16)).take 16),
      c.length = 16 := by
    intro c hc
    obtain ⟨i, hi, rfl⟩ := List.mem_map.mp hc
    have hi' := List.mem_range.mp hi
    apply length_drop_take
    omega
  have hchain := toBlock_chain aes key (Bytes.zero 16) _ hchunks
  rw [List.foldl_map, List.map_map, toBlock_zero] at hchain
  rw [mac, blocks_eq (ciph aes key) (fullBlocks data.length) data hlow hhigh, List.foldl_append,
    List.foldl_cons, List.foldl_nil]
  simp only [Function.comp_def] at hchain
  rw [← hchain, ← toBlock_last aes key htail, ciph_xor]
  simp only [cmac, completeLast_iff]
  rfl

namespace Checked

/-- `for i in (0..n).rev() { out[i] = (input[i] << 1) | carry; carry = input[i] >> 7 }`. -/
def shiftLoop (input : List UInt8) : Nat → List UInt8 → UInt8 → Result (List UInt8)
  | 0, out, _ => .ok out
  | i + 1, out, carry => do
    let b ← index input i
    let out ← store out i ((b <<< 1) ||| carry)
    shiftLoop input i out (b >>> 7)

def cmacSubkey (input : Bytes 16) : Result (Bytes 16) := do
  let out ← shiftLoop input.toList 16 (Bytes.zero 16).toList 0
  let first ← index input.toList 0
  if first &&& 0x80 ≠ 0 then
    let low ← index out 15
    copyFrom 16 (← store out 15 (low ^^^ 0x87))
  else copyFrom 16 out

/-- `for i in 0..16 { x[i] ^= y[i] }`. -/
def xorLoop (x : Bytes 16) (y : List UInt8) : Result (Bytes 16) := do
  let out ← (List.range 16).foldlM (fun x i => do
    let a ← index x i
    let b ← index y i
    store x i (a ^^^ b)) x.toList
  copyFrom 16 out

/-- `last[..tail.len()].copy_from_slice(tail); last[tail.len()] = 0x80`. -/
def paddedLast (tail : List UInt8) : Result (Bytes 16) := do
  let zeros := (Bytes.zero 16).toList
  let room ← slice zeros 0 tail.length
  let last := tail ++ zeros.drop room.length
  copyFrom 16 (← store last tail.length 0x80)

/-- `M_n XOR K1` or `pad(M_n) XOR K2`. -/
def maskedLast (completeLast : Bool) (tail : List UInt8) (k₁ k₂ : Bytes 16) : Result (Bytes 16) :=
  if completeLast then do xorLoop (← copyFrom 16 tail) k₁.toList
    else do xorLoop (← paddedLast tail) k₂.toList

def cmac (key : Bytes 16) (data : List UInt8) : Result (Bytes 16) := do
  let k₁ ← cmacSubkey (aes.encrypt key (Bytes.zero 16))
  let k₂ ← cmacSubkey k₁
  let nBlocks := if (data.length + 15) / 16 = 0 then 1 else (data.length + 15) / 16
  let completeLast := (data.length + 15) / 16 ≠ 0 ∧ data.length % 16 = 0
  let full ← subUsize nBlocks 1
  let tail ← sliceFrom data (full * 16)
  let last ← maskedLast completeLast tail k₁ k₂
  let x ← (List.range full).foldlM (fun x blk => do
    let chunk ← slice data (blk * 16) ((blk + 1) * 16)
    let x ← xorLoop x chunk
    return aes.encrypt key x) (Bytes.zero 16)
  let x ← xorLoop x last.toList
  return aes.encrypt key x

theorem shiftLoop_eq (input : List UInt8) (i : Nat) (low : List UInt8) (hlow : low.length = i)
    (hi : i ≤ input.length) :
    shiftLoop input i (low ++ (shiftLeft (input.drop i)).1) (shiftLeft (input.drop i)).2 = .ok
      (shiftLeft input).1 := by
  induction i generalizing low with
  | zero =>
    obtain rfl : low = [] := List.length_eq_zero_iff.mp hlow
    rfl
  | succ i ih =>
    have hlt : i < input.length := hi
    have hdrop : input.drop i = input.get ⟨i, hlt⟩ :: input.drop (i + 1) :=
      List.drop_eq_getElem_cons hlt
    have hset (v : UInt8) (rest : List UInt8) : (low ++ rest).set i v = low.take i ++
        v :: rest := by
      rw [List.set_append_left _ _ (by omega), List.set_eq_take_append_cons_drop, if_pos (by omega),
        List.drop_of_length_le (by omega), List.append_assoc]
      rfl
    rw [shiftLoop, index_of_lt hlt, bind_ok, store_of_lt (by rw [List.length_append]; omega),
      bind_ok, hset]
    have h := ih (low.take i) (by rw [List.length_take]; omega) (Nat.le_of_lt hlt)
    rw [hdrop] at h
    exact h

/-- Masking with `Rb` changes the last byte only. -/
theorem xor_rb (low : List UInt8) (b : UInt8) (hlow : low.length = 15) :
    List.zipWith (· ^^^ ·) (low ++ [b]) rb.toList = low ++ [b ^^^ 0x87] := by
  have hzero : List.zipWith (· ^^^ ·) low (List.replicate 15 0) = low := by
    rw [← hlow]
    clear hlow
    induction low with
    | nil => rfl
    | cons a low ih => rw [List.length_cons, List.replicate_succ, List.zipWith_cons_cons, ih,
      UInt8.xor_zero]
  rw [rb, List.zipWith_append (by rw [hlow, List.length_replicate]), hzero]
  rfl

theorem cmacSubkey_eq (input : Bytes 16) : cmacSubkey input = .ok (Aes.cmacSubkey input) := by
  have hlen : (shiftLeft input.toList).1.length = 16 := by
    rw [length_shiftLeft, input.length_toList]
  have hloop := shiftLoop_eq input.toList 16 (Bytes.zero 16).toList rfl (by simp)
  rw [List.drop_of_length_le (by simp)] at hloop
  have hfirst : (index input.toList 0 : Result UInt8) = .ok (input.get 0) := index_of_lt (by simp)
  have hshift : shiftLoop input.toList 16 (Bytes.zero 16).toList 0 =
    .ok (shiftLeft input.toList).1 := hloop
  rw [cmacSubkey, hshift, bind_ok, hfirst, bind_ok, Aes.cmacSubkey]
  by_cases h : input.get 0 &&& 0x80 ≠ 0
  · have hne : (shiftLeft input.toList).1 ≠ [] := List.ne_nil_of_length_pos (by omega)
    obtain ⟨low, b, hout⟩ := (List.eq_nil_or_concat _).resolve_left hne
    have hlow : low.length = 15 := by
      rw [hout] at hlen
      simpa using hlen
    rw [List.concat_eq_append] at hout
    have hlast : (index (shiftLeft input.toList).1 15 : Result UInt8) = .ok b := by
      rw [index_eq_ok, hout, ← hlow, List.getElem?_concat_length]
    have hset : (shiftLeft input.toList).1.set 15 (b ^^^ 0x87) = low ++ [b ^^^ 0x87] := by
      rw [hout, ← hlow, List.set_append_right _ _ le_rfl, Nat.sub_self]
      rfl
    rw [if_pos h, if_pos h, hlast, bind_ok, store_of_lt (by omega), bind_ok, copyFrom_eq_ok, hset,
      Bytes.xor_toList]
    dsimp only
    rw [hout, xor_rb low b hlow]
  · rw [if_neg h, if_neg h, copyFrom_eq_ok]

/-- The first `n` turns of the loop. -/
theorem xorLoop_turns (x y : List UInt8) (n : Nat) (hx : n ≤ x.length) (hy : n ≤ y.length) :
    (List.range n).foldlM (fun x i => do
      let a ← index x i
      let b ← index y i
      store x i (a ^^^ b)) x =
        (.ok (List.zipWith (· ^^^ ·) (x.take n) (y.take n) ++ x.drop n) : Result (List UInt8)) := by
  induction n with
  | zero => rfl
  | succ n ih =>
    have hlen : (List.zipWith (· ^^^ ·) (x.take n) (y.take n)).length = n := by
      rw [List.length_zipWith, List.length_take, List.length_take]
      omega
    have hxn : x.drop n = x.get ⟨n, hx⟩ :: x.drop (n + 1) := List.drop_eq_getElem_cons hx
    have hindex : (index (List.zipWith (· ^^^ ·) (x.take n) (y.take n) ++ x.drop n)
      n : Result UInt8) =
        .ok (x.get ⟨n, hx⟩) := by
      rw [index_eq_ok, List.getElem?_append_right (by omega), hlen, Nat.sub_self, hxn]
      rfl
    have hset (v : UInt8) : (List.zipWith (· ^^^ ·) (x.take n) (y.take n) ++ x.drop n).set n v =
        List.zipWith (· ^^^ ·) (x.take n) (y.take n) ++ v :: x.drop (n + 1) := by
      rw [List.set_append_right _ _ (by omega), hlen, Nat.sub_self, hxn]
      rfl
    rw [List.range_succ, List.foldlM_append, ih (by omega) (by omega), bind_ok, List.foldlM_cons,
      hindex, bind_ok, index_of_lt hy, bind_ok, store_of_lt
        (by rw [List.length_append, List.length_drop]; omega),
      bind_ok, hset, List.take_succ_eq_append_getElem hx, List.take_succ_eq_append_getElem hy,
      List.zipWith_append (by rw [List.length_take, List.length_take]; omega), List.append_assoc]
    rfl

theorem xorLoop_eq (x : Bytes 16) {y : List UInt8} (b : Bytes 16) (hy : y = b.toList) :
    xorLoop x y = .ok (x.xor b) := by
  subst hy
  rw [xorLoop, xorLoop_turns x.toList b.toList 16 (by simp) (by simp), bind_ok, copyFrom_eq_ok,
    List.take_of_length_le (by simp), List.take_of_length_le (by simp), List.drop_of_length_le
      (by simp), List.append_nil,
    Bytes.xor_toList]

theorem paddedLast_eq {tail : List UInt8} (h : tail.length < 16) :
    paddedLast tail = .ok (block (tail ++ [0x80])) := by
  have hzeros : (Bytes.zero 16).toList = List.replicate 16 0 := rfl
  have hfit : tail.length ≤ (Bytes.zero 16).toList.length := by
    rw [(Bytes.zero 16).length_toList]
    omega
  have hroom : ((List.drop 0 (Bytes.zero 16).toList).take (tail.length - 0)).length = tail.length :=
    length_drop_take (by omega)
  rw [paddedLast]
  dsimp only
  rw [slice_of_le (Nat.zero_le _) hfit, bind_ok, hroom, store_of_lt (by simp [hzeros, h]), bind_ok,
    copyFrom_eq_ok, block_short (by simp; omega), List.set_append_right _ _ le_rfl,
    Nat.sub_self, hzeros, List.drop_replicate,
    List.length_append, List.length_singleton, List.append_assoc, show 16 - tail.length =
      16 - (tail.length + 1) + 1 by omega,
    List.replicate_succ]
  rfl

/-- The loop over full blocks, its slices in range. -/
theorem chain_eq (key : Bytes 16) {data : List UInt8} (n : Nat) (hn : n * 16 ≤ data.length)
    (x : Bytes 16) :
    (List.range n).foldlM (fun x blk => do
      let chunk ← slice data (blk * 16) ((blk + 1) * 16)
      let x ← xorLoop x chunk return aes.encrypt key x) x = (.ok ((List.range n).foldl
        (fun x blk => aes.encrypt key (x.xor (block ((data.drop (blk * 16)).take 16)))) x) :
        Result (Bytes 16)) := by
  induction n with
  | zero => rfl
  | succ n ih =>
    have hchunk : (data.drop (n * 16)).take 16 = (block ((data.drop (n * 16)).take 16)).toList :=
      (block_toList (length_drop_take (by omega))).symm
    have hwidth : (n + 1) * 16 - n * 16 = 16 := by omega
    rw [List.range_succ, List.foldlM_append, ih (by omega), bind_ok, List.foldlM_cons,
      slice_of_le (by omega) hn, bind_ok, hwidth, xorLoop_eq _ _ hchunk, List.foldl_append]
    rfl

theorem maskedLast_eq {tail : List UInt8} (htail : tail.length ≤ 16) (c : Prop) [Decidable c]
    (hc : c ↔ tail.length = 16) (k₁ k₂ : Bytes 16) :
    maskedLast c tail k₁ k₂ = .ok
      (if c then (block tail).xor k₁ else (block (tail ++ [0x80])).xor k₂) := by
  by_cases h : c
  · have htail' := hc.mp h
    have hcopy : (copyFrom 16 tail : Result (Bytes 16)) = .ok (block tail) :=
      copyFrom_eq_ok.mpr (block_toList htail').symm
    rw [if_pos h, maskedLast, if_pos (decide_eq_true h), hcopy, bind_ok, xorLoop_eq _ k₁ rfl]
  · have hshort : tail.length < 16 := Nat.lt_of_le_of_ne htail (mt hc.mpr h)
    rw [if_neg h, maskedLast, if_neg (by simpa using h), paddedLast_eq hshort, bind_ok,
      xorLoop_eq _ k₂ rfl]

theorem cmac_eq (key : Bytes 16) (data : List UInt8) :
    cmac aes key data = .ok (Aes.cmac aes key data) := by
  obtain ⟨-, hle, hhigh⟩ := fullBlocks_spec data.length
  have htail : (data.drop (fullBlocks data.length * 16)).length ≤ 16 := by
    rw [List.length_drop]
    omega
  have hpos : 1 ≤ if (data.length + 15) / 16 = 0 then 1 else (data.length + 15) / 16 := by
    split <;> omega
  rw [cmac, cmacSubkey_eq, bind_ok, cmacSubkey_eq, bind_ok]
  dsimp only
  rw [subUsize_bind hpos]
  change (sliceFrom data (fullBlocks data.length * 16) >>= _) = _
  rw [sliceFrom_of_le hle, bind_ok, maskedLast_eq htail _ (completeLast_iff data), bind_ok]
  change ((List.range (fullBlocks data.length)).foldlM _ _ >>= _) = _
  rw [chain_eq aes key _ hle, bind_ok, xorLoop_eq _ _ rfl]
  rfl

end Checked

/-- The code's authentication code is the one of SP 800-38B, for every message, and no index is out
of range. -/
theorem cmac_conforms (key : Bytes 16) (data : List UInt8) :
    Checked.cmac aes key data = .ok (cmac aes key data) ∧
      toBlock (cmac aes key data).toList = mac (ciph aes key) data ∧
      ∀ l, BinaryField.poly (BinaryField.double CmacSpec.rb l) =
        (Polynomial.X * BinaryField.poly l) %ₘ
          (Polynomial.X ^ 128 + (Polynomial.X ^ 7 + Polynomial.X ^ 2 + Polynomial.X + 1)) := by
  refine ⟨Checked.cmac_eq aes key data, toBlock_cmac aes key data, ?_⟩
  intro l
  rw [BinaryField.poly_double, poly_rb]

end Aes
