import Aacs.Bytes

/-!
# AES-based primitives

`AES-G`, the `AES-H` hash and AES-128-CMAC over a block cipher. The cipher
itself is a library of the code, so that it is a parameter here: nothing below
depends on more than the two block functions.
-/

/-- The AES-128 block functions, key first. -/
structure Aes128 where
  encrypt : Bytes 16 → Bytes 16 → Bytes 16
  decrypt : Bytes 16 → Bytes 16 → Bytes 16

namespace Aes

/-- `data.chunks_exact(n)`: the whole chunks, the remainder dropped. -/
def chunksExact (n : Nat) (data : List UInt8) : List (List UInt8) :=
  (List.range (data.length / n)).map fun i => (data.drop (n * i)).take n

theorem chunksExact_of_lt {n : Nat} {data : List UInt8} (h : data.length < n) :
    chunksExact n data = [] := by
  rw [chunksExact, Nat.div_eq_of_lt h, List.range_zero, List.map_nil]

theorem chunksExact_append {n : Nat} (hn : 0 < n) {chunk : List UInt8} (hchunk : chunk.length = n)
    (rest : List UInt8) : chunksExact n (chunk ++ rest) = chunk :: chunksExact n rest := by
  have hcount : (chunk ++ rest).length / n = rest.length / n + 1 := by
    rw [List.length_append, hchunk, Nat.add_div_left _ hn]
  have hdrop (i : Nat) : (chunk ++ rest).drop (n * (i + 1)) = rest.drop (n * i) := by
    rw [Nat.mul_add, Nat.mul_one, Nat.add_comm, ← List.drop_drop, List.drop_left' hchunk]
  rw [chunksExact, hcount, List.range_succ_eq_map, List.map_cons, List.map_map, Nat.mul_zero,
    List.drop_zero, List.take_left' hchunk]
  refine congrArg (chunk :: ·) (List.map_congr_left fun i _ => ?_)
  rw [Function.comp_apply, Nat.succ_eq_add_one, hdrop]

/-- The zeros of `while len % n != r { push(0) }`. -/
def zeroPad (n r len : Nat) : List UInt8 := List.replicate ((r + n - len % n) % n) 0

theorem length_zeroPad (n r len : Nat) (hr : r < n) :
    (len + (zeroPad n r len).length) % n = r ∧ (zeroPad n r len).length < n := by
  have hlt := Nat.mod_lt len (Nat.zero_lt_of_lt hr)
  rw [zeroPad, List.length_replicate]
  refine ⟨?_, Nat.mod_lt _ (by omega)⟩
  rw [Nat.add_mod_mod, show len + (r + n - len % n) = r + n * (len / n + 1) from ?_,
    Nat.add_mul_mod_self_left, Nat.mod_eq_of_lt hr]
  have hdiv := Nat.div_add_mod len n
  rw [Nat.mul_add]
  omega

/-- The 64-bit big-endian bit length that ends a padded message. -/
def bitLenBytes (data : List UInt8) : List UInt8 := beBytes 8 (data.length * 8 % 2 ^ 64)

/-- A block of sixteen bytes: `copy_from_slice` of a chunk. -/
def block (chunk : List UInt8) : Bytes 16 := Bytes.ofFn fun i => chunk.getD i 0

theorem block_toList {chunk : List UInt8} (h : chunk.length = 16) :
    (block chunk).toList = chunk := by
  have hof : (block chunk).toList = List.ofFn fun i : Fin 16 => chunk.getD i 0 := rfl
  refine List.ext_getElem (by simp [h]) fun i hi hi' => ?_
  simp only [hof, List.getElem_ofFn]
  simp [hi']

theorem block_bytes (b : Bytes 16) : block b.toList = b := Bytes.ext (block_toList b.length_toList)

def h0 : Bytes 16 :=
  ⟨[0x2D, 0xC2, 0xDF, 0x39, 0x42, 0x03, 0x21, 0xD0, 0xCE, 0xF1, 0xFE, 0x23, 0x74, 0x02, 0x9D, 0x95],
    rfl⟩

variable (aes : Aes128)

/-- `AES-G(x1, x2) = AES-128D(x1, x2) XOR x2`. -/
def aesG (x₁ x₂ : Bytes 16) : Bytes 16 := (aes.decrypt x₁ x₂).xor x₂

def aesHPadded (data : List UInt8) : List UInt8 :=
  data ++ [0x80] ++ zeroPad 16 8 (data.length + 1) ++ bitLenBytes data

/-- `AES-H`: iterate `AES-G` over the padded message. -/
def aesH (data : List UInt8) : Bytes 16 :=
  (chunksExact 16 (aesHPadded data)).foldl (fun h chunk => aesG aes (block chunk) h) h0

/-- `out[i] = (input[i] << 1) | carry`, from the last byte up. -/
def shiftLeft : List UInt8 → List UInt8 × UInt8
  | [] => ([], 0)
  | b :: bs =>
    let r := shiftLeft bs
    (((b <<< 1) ||| r.2) :: r.1, b >>> 7)

theorem length_shiftLeft (bs : List UInt8) : (shiftLeft bs).1.length = bs.length := by
  induction bs with
  | nil => rfl
  | cons b bs ih => simp [shiftLeft, ih]

/-- `Rb = 0x87` in the last byte. -/
def rb : Bytes 16 := ⟨List.replicate 15 0 ++ [0x87], rfl⟩

def cmacSubkey (input : Bytes 16) : Bytes 16 :=
  let out : Bytes 16 := ⟨(shiftLeft input.toList).1, by rw [length_shiftLeft, input.length_toList]⟩
  if input.get 0 &&& 0x80 ≠ 0 then out.xor rb else out

/-- `CMAC(k, D)`, all sixteen bytes. An empty message uses a single padded block. -/
def cmac (key : Bytes 16) (data : List UInt8) : Bytes 16 :=
  let l := aes.encrypt key (Bytes.zero 16)
  let k₁ := cmacSubkey l
  let k₂ := cmacSubkey k₁
  let nBlocks := (data.length + 15) / 16
  let nBlocks' := if nBlocks = 0 then 1 else nBlocks
  let completeLast := nBlocks ≠ 0 ∧ data.length % 16 = 0
  let tail := data.drop ((nBlocks' - 1) * 16)
  let last := if completeLast then (block tail).xor k₁ else (block (tail ++ [0x80])).xor k₂
  let x := (List.range (nBlocks' - 1)).foldl
    (fun x blk => aes.encrypt key (x.xor (block ((data.drop (blk * 16)).take 16)))) (Bytes.zero 16)
  aes.encrypt key (x.xor last)

end Aes
